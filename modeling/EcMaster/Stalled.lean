import EcMaster.Heartbeat

namespace EcMaster

open Library.Run Library.Streak

namespace LockStep

variable {L : Layout}

def quietUpdate : Act L := .update ⟨false, false, false, fun _ => false, fun _ => 0, fun _ => 0⟩ none .intact

theorem tickLog_quiet (lead : ℤ) (as : List (Act L)) {p : Phase × ℕ} (hp : p.1 ≠ .faulted)
    (hs : (run (withHistory act note) (powerUp L lead, ⟨0, none, none⟩) as).2.staged = some p)
    (hx : (run (withHistory act note) (powerUp L lead, ⟨0, none, none⟩) as).2.shifting = some p) (m : ℕ) :
    tickLog L lead (as ++ List.replicate m quietUpdate) = List.replicate m (some p.2) ++ tickLog L lead as := by
  have hstays : ∀ m, (run (withHistory act note) (powerUp L lead, ⟨0, none, none⟩)
      (as ++ List.replicate m quietUpdate)).2.staged = some p ∧ (run (withHistory act note)
      (powerUp L lead, ⟨0, none, none⟩) (as ++ List.replicate m quietUpdate)).2.shifting = some p := by
    intro m
    induction m with
    | zero => simpa using ⟨hs, hx⟩
    | succ m ih =>
      rw [List.replicate_succ', ← List.append_assoc, run_concat]
      exact ⟨ih.1, ih.1⟩
  induction m with
  | zero => simp
  | succ m ih =>
    have hshift := (hstays m).2
    rw [tickLog] at ih ⊢
    rw [List.replicate_succ', ← List.append_assoc, log_concat, ih, List.replicate_succ, List.cons_append]
    simp only [record, quietUpdate, Beats.soundTick] at hshift ⊢
    rw [hshift, Option.bind_some, if_neg hp]
    rfl

/-- A run meets the bound exactly when the engine keeps ticking under its updates. -/
theorem stall_bounded_iff (lead : ℤ) (K : ℕ) (as : List (Act L)) :
    Bounded K (healthLog L lead as) ↔ Beating K (tickLog L lead as) := by
  rw [healthLog_eq, bounded_map_iff]

def stalled (L : Layout) (K : ℕ) : List (Act L) :=
  [.start [] 1000000 0, .tick (Device.receiving []) 0, quietUpdate] ++ List.replicate (K + 1) quietUpdate

theorem new_received_phase (slaves : List CyclicSlave) (ref : UInt16) (ns : UInt64) (dev : Device) (latency : UInt32) :
    ((Cyclic.new L slaves ref ns).received dev latency).phase = .priming := by
  have hn : (Cyclic.new L slaves ref ns).processed dev = none := rfl
  rw [Cyclic.received_eq, hn]
  rfl

theorem stalled_unbounded (L : Layout) (lead : ℤ) (K : ℕ) : ¬ Bounded K (healthLog L lead (stalled L K)) := by
  have hphase : ((Cyclic.new L [] L.bus.refClockSlave 1000000).tickWithHost (Device.receiving []) 0 0
      (HostBridge.new L)).cyclic.phase = .priming :=
    (Cyclic.tickWithHost_settles _ _ _ _ _).phase.trans (new_received_phase _ _ _ _ _)
  rw [healthLog_eq, stalled, tickLog_quiet lead _ (p := (.priming, 1)) (by decide) (by
      rw [← hphase]
      rfl) (by
      rw [← hphase]
      rfl)]
  intro h
  apply h (UInt16.ofNat 1)
  rw [replicate_infix_map]
  refine ⟨List.replicate (K + 1) (some 1), (List.prefix_append _ _).isInfix, List.length_replicate, ?_⟩
  intro y hy
  exact ⟨1, List.eq_of_mem_replicate hy, rfl⟩

theorem stall_unnoticed : ¬ ∀ L : Layout, ∃ K, ∀ (lead : ℤ) (as : List (Act L)), Bounded K (healthLog L lead as) := by
  intro h
  obtain ⟨K, hK⟩ := h (oneDrive 1)
  exact stalled_unbounded (oneDrive 1) 1 K (hK 1 _)

end LockStep

end EcMaster

import EcMaster.DriveTalk

namespace EcMaster

def swQuickStopActive : UInt16 := 0x0007

def cwQuickStopBit : UInt16 := 0x0004

def KeepsStopping (cw : UInt16) : Prop := cw &&& cwQuickStopBit = 0 ∧ cw &&& cwEnableOperation = 0

theorem keepsStopping_iff {sw : UInt16} {cmd : DriveCommand} (hq : cmd.quickStop = true)
    (hs : sw &&& swStateMask = swOperationEnabled ∨ sw &&& swStateMask = swQuickStopActive) (frHigh : Bool) :
    KeepsStopping (nextControlword sw cmd frHigh).1 ↔ sw &&& swStateMask = swOperationEnabled := by
  have hf : sw &&& swFault = 0 := by
    have hm : swFault = swStateMask &&& swFault := by decide
    rw [hm, ← UInt16.and_assoc]
    rcases hs with h | h
    · rw [h]
      decide
    · rw [h]
      decide
  rw [nextControlword]
  simp only [hf, hq, ne_eq, not_true_eq_false, ↓reduceIte, true_and]
  rcases hs with h | h
  · rw [h, if_pos rfl]
    exact ⟨fun _ => rfl, fun _ => ⟨rfl, rfl⟩⟩
  · rw [h, if_neg (by decide), if_neg (by decide), if_neg (by decide), if_neg (by decide), if_neg (by decide)]
    exact ⟨fun hk => absurd hk.1 (by decide), fun he => absurd he (by decide)⟩

namespace Cia402

/-- A quick stop that stays commanded is kept up as long as the drive does not report that it has begun. -/
theorem quickStop_kept_iff {j : ℕ} {c : Cia402} {es : List (List UInt8 × DriveCommand)}
    (hq : ∀ e ∈ es, e.2.quickStop = true)
    (hs : ∀ p ∈ c.talk j es, p.1 &&& swStateMask = swOperationEnabled ∨ p.1 &&& swStateMask = swQuickStopActive) :
    c.Spoken j es ∧
      ((∀ p ∈ c.talk j es, KeepsStopping p.2) ↔ ∀ p ∈ c.talk j es, p.1 &&& swStateMask = swOperationEnabled) := by
  refine ⟨spoken_talk j c es, ?_⟩
  refine forall₂_congr fun p hp => ?_
  obtain ⟨e, he, frHigh, hw⟩ := mem_talk hp
  rw [hw]
  exact keepsStopping_iff (hq e he) (hs p hp) frHigh

def stopTick (sw : UInt8) : List UInt8 × DriveCommand := ([0, 0, 0, sw, 0], ⟨true, false, true⟩)

theorem quickStop_kept_iff_enabled :
    (∀ p ∈ (new (oneDrive 1).bus).talk 0 [stopTick 0x27, stopTick 0x27], KeepsStopping p.2) ↔
      ∀ p ∈ (new (oneDrive 1).bus).talk 0 [stopTick 0x27, stopTick 0x27], p.1 &&& swStateMask = swOperationEnabled := by
  have htalk : (new (oneDrive 1).bus).talk 0 [stopTick 0x27, stopTick 0x27] =
      [(0x27, cwQuickStop), (0x27, cwQuickStop)] := by decide +kernel
  refine (quickStop_kept_iff (by simp [stopTick]) (htalk ▸ fun p hp => Or.inl ?_)).2
  simp only [List.mem_cons, List.not_mem_nil, or_false, or_self] at hp
  rw [hp]
  decide

theorem quickStop_withdrawn :
    (((new (oneDrive 1).bus).after [stopTick 0x27]).step (stopTick 0x07).1 (stopTick 0x07).2).2 = [0x06, 0, 0, 0x07, 0] ∧
    (new (oneDrive 1).bus).talk 0 [stopTick 0x27, stopTick 0x07] = [(0x27, cwQuickStop), (0x07, cwShutdown)] ∧
      ¬∀ p ∈ (new (oneDrive 1).bus).talk 0 [stopTick 0x27, stopTick 0x07], KeepsStopping p.2 := by
  have htalk : (new (oneDrive 1).bus).talk 0 [stopTick 0x27, stopTick 0x07] =
      [(0x27, cwQuickStop), (0x07, cwShutdown)] := by decide +kernel
  refine ⟨by decide +kernel, htalk, fun h => ?_⟩
  have hlast := h (0x07, cwShutdown) (htalk ▸ List.mem_cons_of_mem _ List.mem_cons_self)
  exact absurd hlast.1 (by decide)

end Cia402

end EcMaster

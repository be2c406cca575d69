import EcMaster.Phases

namespace EcMaster

open Library.Run

theorem skipReached_spec (slaves : List SlaveRt) (fuel cursor : ℕ) (ctrl : Bool)
    (hf : slaves.length ≤ cursor + fuel) :
    cursor ≤ (skipReached slaves fuel cursor ctrl).1 ∧
      (∀ j, cursor ≤ j → j < (skipReached slaves fuel cursor ctrl).1 →
        (slaves[j]?.map SlaveRt.reachedOp).getD false = true) ∧
      ∀ s, slaves[(skipReached slaves fuel cursor ctrl).1]? = some s → s.reachedOp = false := by
  induction fuel generalizing cursor ctrl with
  | zero =>
    refine ⟨le_refl _, fun j hj hk => absurd (hj.trans_lt hk) (lt_irrefl _), ?_⟩
    intro s hs
    change slaves[cursor]? = some s at hs
    rw [List.getElem?_eq_none (by omega)] at hs
    exact absurd hs (by simp)
  | succ fuel ih =>
    rw [skipReached]
    cases hs : slaves[cursor]? with
    | none =>
      refine ⟨le_refl _, fun j hj hk => absurd (hj.trans_lt hk) (lt_irrefl _), ?_⟩
      intro s hs'
      exact absurd (hs.symm.trans hs') (by simp)
    | some s =>
      dsimp only
      split_ifs with hr
      · obtain ⟨h₁, h₂, h₃⟩ := ih (cursor + 1) true (by omega)
        refine ⟨by omega, ?_, h₃⟩
        intro j hj hk
        rcases Nat.eq_or_lt_of_le hj with rfl | hj
        · rw [hs]
          exact hr
        · exact h₂ j hj hk
      · refine ⟨le_refl _, fun j hj hk => absurd (hj.trans_lt hk) (lt_irrefl _), ?_⟩
        intro t ht
        obtain rfl := Option.some.inj (hs.symm.trans ht)
        exact Bool.eq_false_iff.mpr hr

theorem mem_pairReplies {frame : List UInt8} {kinds : List Appended} {next : ℕ} {p : Appended × Reply}
    (h : p ∈ pairReplies frame kinds next) : p.1 ∈ kinds := by
  induction kinds generalizing next with
  | nil => exact absurd h List.not_mem_nil
  | cons kind kinds ih =>
    rw [pairReplies] at h
    split_ifs at h
    · exact absurd h List.not_mem_nil
    · cases hp : parseAt frame next with
      | none =>
        rw [hp] at h
        exact absurd h List.not_mem_nil
      | some q =>
        rw [hp] at h
        rcases List.mem_cons.mp h with rfl | h
        · exact List.mem_cons_self
        · exact List.mem_cons_of_mem _ (ih h)

/-- What one tick does to the phase. -/
inductive PhaseStep : Phase → Phase → Prop
  | stay (p : Phase) : PhaseStep p p
  | prime : PhaseStep .priming .requestingOp
  | enter : PhaseStep .requestingOp .operational
  | reject : PhaseStep .requestingOp .faulted
  | drop : PhaseStep .operational .faulted

theorem PhaseStep.to_priming {p q : Phase} (h : PhaseStep p q) (hq : q = .priming) : p = .priming := by
  cases h with
  | stay => exact hq
  | prime | enter | reject | drop => exact absurd hq (by decide)

namespace Cyclic

variable {L : Layout}

theorem mem_answered {c : Cyclic L} {dev : Device} {p : Appended × Reply} (h : p ∈ c.answered dev) :
    p.1 ∈ c.appended := by
  rw [answered] at h
  cases hm : c.matched dev with
  | none =>
    rw [hm] at h
    exact absurd h List.not_mem_nil
  | some frame =>
    simp only [hm] at h
    cases hp : parseAt frame ecFrameHeaderSize with
    | none =>
      rw [hp] at h
      exact absurd h List.not_mem_nil
    | some q =>
      rw [hp] at h
      exact mem_pairReplies h

theorem seekOp_spec (c : Cyclic L) :
    c.opCursor ≤ c.seekOp.opCursor ∧ (∀ j, c.opCursor ≤ j → j < c.seekOp.opCursor → c.reached j = true) ∧
      c.reached c.seekOp.opCursor = false := by
  obtain ⟨h₁, h₂, h₃⟩ := skipReached_spec c.slaves c.slaves.length c.opCursor c.opCtrlPhase (by omega)
  refine ⟨h₁, h₂, ?_⟩
  rw [reached]
  cases hs : c.slaves[c.seekOp.opCursor]? with
  | none => rfl
  | some s => exact h₃ s hs

structure Gated (c : Cyclic L) : Prop where
  behind : ∀ j < c.opCursor, c.reached j = true
  ahead : ∀ j, c.reached j = true → j ≤ c.opCursor
  asked : ∀ j, .status j ∈ c.appended → j = c.opCursor ∧ c.phase = .requestingOp
  polled : .alPoll ∈ c.appended → c.phase = .operational
  unprimed : c.phase = .priming → ∀ j, c.reached j = false
  complete : c.phase = .operational → ∀ j < c.slaves.length, c.reached j = true

theorem Gated.answered_status {c : Cyclic L} (h : c.Gated) {dev : Device} {j : ℕ} {dg : Reply}
    (ha : (.status j, dg) ∈ c.answered dev) : j = c.opCursor ∧ c.phase = .requestingOp :=
  h.asked j (mem_answered ha)

theorem Gated.received_behind {c : Cyclic L} (h : c.Gated) (dev : Device) (latency : UInt32) :
    ∀ j < c.opCursor, (c.received dev latency).reached j = true := by
  intro j hj
  exact (c.received_moves dev latency).reached_keep j (h.behind j hj)

theorem Gated.received_ahead {c : Cyclic L} (h : c.Gated) (dev : Device) (latency : UInt32) :
    ∀ j, (c.received dev latency).reached j = true → j ≤ c.opCursor := by
  intro j hj
  rcases (c.received_moves dev latency).reached_of j hj with hr | ⟨dg, ha, -⟩
  · exact h.ahead j hr
  · exact (h.answered_status ha).1.le

theorem Gated.received_unprimed {c : Cyclic L} (h : c.Gated) (dev : Device) (latency : UInt32)
    (hp : c.phase = .priming) : ∀ j, (c.received dev latency).reached j = false := by
  intro j
  rw [Bool.eq_false_iff]
  intro hj
  rcases (c.received_moves dev latency).reached_of j hj with hr | ⟨dg, ha, -⟩
  · exact absurd (hr.symm.trans (h.unprimed hp j)) (by decide)
  · exact absurd (hp.symm.trans (h.answered_status ha).2) (by decide)

theorem Gated.received_phase {c : Cyclic L} (h : c.Gated) (hn : c.slaves ≠ []) (dev : Device) (latency : UInt32) :
    PhaseStep c.phase (c.received dev latency).phase := by
  have hm := c.received_moves dev latency
  by_cases hf : ∃ p ∈ c.answered dev, decodeAppended p.1 p.2 = .fault
  · rw [hm.fault hf]
    obtain ⟨⟨kind, dg⟩, hp, hdec⟩ := hf
    rcases decodeAppended_fault hdec with ⟨j, rfl⟩ | ⟨rfl, -⟩
    · rw [(h.answered_status hp).2]
      exact PhaseStep.reject
    · rw [h.polled (mem_answered hp)]
      exact PhaseStep.drop
  · rcases hm.noFault (fun p hp hd => hf ⟨p, hp, hd⟩) with hs | ⟨hc, hr⟩ | ⟨hc | hc, hr, hall⟩
    · rw [hs]
      exact PhaseStep.stay _
    · rw [hc, hr]
      exact PhaseStep.prime
    · rw [hc, hr]
      exact PhaseStep.enter
    · have hlen : 0 < (c.received dev latency).slaves.length := by
        rw [(c.received_holds dev latency).1.slaveCount]
        exact List.length_pos_iff.mpr hn
      have h0 := (allReachedOp_iff _).mp hall 0 hlen
      rw [h.received_unprimed dev latency hc 0] at h0
      exact absurd h0 (by decide)

theorem Gated.received_complete {c : Cyclic L} (h : c.Gated) (dev : Device) (latency : UInt32)
    (hp : (c.received dev latency).phase = .operational) :
    ∀ j < c.slaves.length, (c.received dev latency).reached j = true := by
  have hm := c.received_moves dev latency
  by_cases hf : ∃ p ∈ c.answered dev, decodeAppended p.1 p.2 = .fault
  · exact absurd ((hm.fault hf).symm.trans hp) (by decide)
  · rcases hm.noFault (fun p hp hd => hf ⟨p, hp, hd⟩) with hs | ⟨-, hr⟩ | ⟨-, -, hall⟩
    · intro j hj
      exact hm.reached_keep j (h.complete (hs.symm.trans hp) j hj)
    · exact absurd (hr.symm.trans hp) (by decide)
    · have hlen : (c.received dev latency).slaves.length = c.slaves.length :=
        (c.received_holds dev latency).1.slaveCount
      rw [← hlen]
      exact (allReachedOp_iff _).mp hall

end Cyclic

end EcMaster

import EcMaster.Receive

namespace EcMaster

open Library.Run

def SaysOp (dg : Reply) : Prop :=
  dg.workingCounter ≠ 0 ∧ dg.data.headD 0 &&& alStateError = 0 ∧ dg.data.headD 0 &&& alStateMask = alStateOp

def SaysFault (dg : Reply) : Prop :=
  dg.workingCounter ≠ 0 ∧ (dg.data.headD 0 &&& alStateError ≠ 0 ∨ dg.data.headD 0 &&& alStateMask ≠ alStateOp)

instance (dg : Reply) : Decidable (SaysOp dg) := by unfold SaysOp; infer_instance

instance (dg : Reply) : Decidable (SaysFault dg) := by unfold SaysFault; infer_instance

theorem decodeAppended_opReached {kind : Appended} {dg : Reply} {j : ℕ}
    (h : decodeAppended kind dg = .opReached j) : kind = .status j ∧ SaysOp dg := by
  cases kind with
  | control | dcArmw => exact absurd h (by simp [decodeAppended])
  | status idx =>
    simp only [decodeAppended] at h
    split_ifs at h with h₁ h₂ h₃
    obtain rfl := AppliedReply.opReached.inj h
    exact ⟨rfl, h₁, not_not.mp h₂, h₃⟩
  | alPoll =>
    simp only [decodeAppended] at h
    split_ifs at h
  | dcDiff =>
    simp only [decodeAppended] at h
    split_ifs at h

theorem decodeAppended_fault {kind : Appended} {dg : Reply} (h : decodeAppended kind dg = .fault) :
    (∃ j, kind = .status j) ∨ kind = .alPoll ∧ SaysFault dg := by
  cases kind with
  | control | dcArmw => exact absurd h (by simp [decodeAppended])
  | status idx => exact Or.inl ⟨idx, rfl⟩
  | alPoll =>
    simp only [decodeAppended] at h
    split_ifs at h with h₁ h₂
    exact Or.inr ⟨rfl, h₁, h₂⟩
  | dcDiff =>
    simp only [decodeAppended] at h
    split_ifs at h

theorem decodeAppended_alPoll {dg : Reply} (h : SaysFault dg) : decodeAppended .alPoll dg = .fault := by
  simp only [decodeAppended]
  rw [if_neg h.1, if_pos h.2]

namespace Cyclic

variable {L : Layout}

theorem foldl_phase (c : Cyclic L) (actions : List AppliedReply) :
    (actions.foldl applyAction c).phase = if .fault ∈ actions then .faulted else c.phase := by
  induction actions generalizing c with
  | nil => rfl
  | cons a actions ih =>
    rw [List.foldl_cons, ih]
    cases a with
    | fault =>
      rw [if_pos List.mem_cons_self]
      split_ifs <;> rfl
    | none | opReached | drift => simp [applyAction]

def reached (c : Cyclic L) (j : ℕ) : Bool := (c.slaves[j]?.map SlaveRt.reachedOp).getD false

theorem reached_opReached (c : Cyclic L) (idx j : ℕ) :
    (c.applyAction (.opReached idx)).reached j = (c.reached j || decide (idx = j ∧ j < c.slaves.length)) := by
  simp only [reached, applyAction, List.getElem?_modify]
  by_cases hj : j < c.slaves.length
  · rw [List.getElem?_eq_getElem hj]
    by_cases hi : idx = j <;> simp [hi, hj]
  · rw [List.getElem?_eq_none (by omega)]
    simp [hj]

theorem foldl_reached (c : Cyclic L) (actions : List AppliedReply) {j : ℕ}
    (h : (actions.foldl applyAction c).reached j = true) : c.reached j = true ∨ .opReached j ∈ actions := by
  induction actions generalizing c with
  | nil => exact Or.inl h
  | cons a actions ih =>
    rcases ih (c.applyAction a) h with h | h
    · cases a with
      | opReached idx =>
        rw [reached_opReached, Bool.or_eq_true, decide_eq_true_iff] at h
        rcases h with h | ⟨rfl, -⟩
        · exact Or.inl h
        · exact Or.inr List.mem_cons_self
      | none | fault | drift => exact Or.inl h
    · exact Or.inr (List.mem_cons_of_mem _ h)

theorem foldl_keepsReached (c : Cyclic L) (actions : List AppliedReply) {j : ℕ} (h : c.reached j = true) :
    (actions.foldl applyAction c).reached j = true := by
  induction actions generalizing c with
  | nil => exact h
  | cons a actions ih =>
    apply ih
    cases a with
    | opReached idx => rw [reached_opReached, h, Bool.true_or]
    | none | fault | drift => exact h

theorem allReachedOp_iff (c : Cyclic L) : c.allReachedOp = true ↔ ∀ j < c.slaves.length, c.reached j = true := by
  rw [allReachedOp, List.all_eq_true]
  constructor
  · intro h j hj
    rw [reached, List.getElem?_eq_getElem hj]
    exact h _ (List.getElem_mem hj)
  · intro h s hs
    obtain ⟨j, hj, rfl⟩ := List.mem_iff_getElem.mp hs
    have hr := h j hj
    rwa [reached, List.getElem?_eq_getElem hj] at hr

theorem lt_of_reached {c : Cyclic L} {j : ℕ} (h : c.reached j = true) : j < c.slaves.length := by
  by_contra hn
  rw [reached, List.getElem?_eq_none (by omega)] at h
  exact absurd h (by simp)

structure Moves (c : Cyclic L) (answers : List (Appended × Reply)) (c' : Cyclic L) : Prop where
  fault : (∃ p ∈ answers, decodeAppended p.1 p.2 = .fault) → c'.phase = .faulted
  noFault : (∀ p ∈ answers, decodeAppended p.1 p.2 ≠ .fault) →
    c'.phase = c.phase ∨ c.phase = .priming ∧ c'.phase = .requestingOp ∨
      (c.phase = .requestingOp ∨ c.phase = .priming) ∧ c'.phase = .operational ∧ c'.allReachedOp = true
  reached_of : ∀ j, c'.reached j = true → c.reached j = true ∨ ∃ dg, (.status j, dg) ∈ answers ∧ SaysOp dg
  reached_keep : ∀ j, c.reached j = true → c'.reached j = true

theorem primed_phase (c : Cyclic L) : c.primed.phase = c.phase ∨ c.phase = .priming ∧ c.primed.phase = .requestingOp := by
  rw [primed]
  split_ifs with h
  · exact Or.inr ⟨h.1, rfl⟩
  · exact Or.inl rfl

theorem primed_reached (c : Cyclic L) (j : ℕ) : c.primed.reached j = c.reached j := by
  rw [primed]
  split_ifs <;> rfl

theorem entered_phase (c : Cyclic L) :
    c.entered.phase = c.phase ∨ c.phase = .requestingOp ∧ c.entered.phase = .operational ∧ c.allReachedOp = true := by
  rw [entered]
  split_ifs with h
  · exact Or.inr ⟨h.1, rfl, h.2⟩
  · exact Or.inl rfl

theorem entered_slaves (c : Cyclic L) : c.entered.slaves = c.slaves := by
  rw [entered]
  split_ifs <;> rfl

theorem absorb_moves (c : Cyclic L) (lrw : Reply) (answers : List (Appended × Reply)) :
    c.Moves answers (c.absorb lrw answers) := by
  set d := ({ c with domain := (c.domain.applyReply lrw).2 : Cyclic L }.countGood lrw.workingCounter) with hd
  set actions := answers.map fun p => decodeAppended p.1 p.2 with hactions
  set e := actions.foldl applyAction d.primed with he
  have hdr : ∀ j, d.primed.reached j = c.reached j := d.primed_reached
  have her : ∀ j, e.entered.reached j = e.reached j := by
    intro j
    rw [reached, reached, entered_slaves]
  have hphase : e.phase = if .fault ∈ actions then .faulted else d.primed.phase := d.primed.foldl_phase actions
  have hmem : .fault ∈ actions ↔ ∃ p ∈ answers, decodeAppended p.1 p.2 = .fault := by
    rw [hactions, List.mem_map]
  refine ⟨?_, ?_, ?_, ?_⟩
  · intro hf
    rw [if_pos (hmem.mpr hf)] at hphase
    rcases e.entered_phase with h | ⟨h, -⟩
    · exact h.trans hphase
    · exact absurd (hphase.symm.trans h) (by decide)
  · intro hn
    rw [if_neg fun hf => let ⟨p, hp, h⟩ := hmem.mp hf; hn p hp h] at hphase
    have hp : d.primed.phase = c.phase ∨ c.phase = .priming ∧ d.primed.phase = .requestingOp := d.primed_phase
    rcases e.entered_phase with h | ⟨h, ho, ha⟩
    · rcases hp with hp | ⟨hc, hp⟩
      · exact Or.inl (h.trans (hphase.trans hp))
      · exact Or.inr (Or.inl ⟨hc, h.trans (hphase.trans hp)⟩)
    · have hall : e.entered.allReachedOp = true := by rw [allReachedOp, entered_slaves]; exact ha
      rcases hp with hp | ⟨hc, -⟩
      · exact Or.inr (Or.inr ⟨Or.inl (hp.symm.trans (hphase.symm.trans h)), ho, hall⟩)
      · exact Or.inr (Or.inr ⟨Or.inr hc, ho, hall⟩)
  · intro j hj
    have hj' : e.reached j = true := (her j).symm.trans hj
    rcases d.primed.foldl_reached actions hj' with h | h
    · exact Or.inl ((hdr j).symm.trans h)
    · obtain ⟨⟨kind, dg⟩, hp, hdec⟩ := List.mem_map.mp h
      obtain ⟨rfl, hok⟩ := decodeAppended_opReached hdec
      exact Or.inr ⟨dg, hp, hok⟩
  · intro j hj
    exact (her j).trans (d.primed.foldl_keepsReached actions ((hdr j).trans hj))

theorem answered_of_unprocessed {c : Cyclic L} {dev : Device} (h : c.processed dev = none) : c.answered dev = [] := by
  rw [processed] at h
  rw [answered]
  cases hm : c.matched dev with
  | none => rfl
  | some frame =>
    rw [hm, Option.bind_some] at h
    simp only [h]

theorem received_moves (c : Cyclic L) (dev : Device) (latency : UInt32) :
    c.Moves (c.answered dev) (c.received dev latency) := by
  rw [received_eq]
  cases hp : c.processed dev with
  | none =>
    rw [answered_of_unprocessed hp]
    refine ⟨?_, fun _ => Or.inl rfl, fun j hj => Or.inl hj, fun j hj => hj⟩
    rintro ⟨p, hp, -⟩
    exact absurd hp List.not_mem_nil
  | some p =>
    have h := (c.beginTick latency).absorb_moves p.1 (c.answered dev)
    exact ⟨h.fault, h.noFault, h.reached_of, h.reached_keep⟩

end Cyclic

end EcMaster

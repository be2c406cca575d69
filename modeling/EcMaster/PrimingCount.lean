import EcMaster.Library.Streak
import EcMaster.OpRequest
import EcMaster.Phases
import EcMaster.RingDrain

namespace EcMaster

open Library.Run Library.Streak

namespace Cyclic

variable {L : Layout}

def Counts (c : Cyclic L) (e : EngineTick L) : Prop := ∃ p ∈ c.processed e.dev, p.1.workingCounter > 0

/-- A count that has begun in Priming meets no cycle without a reply. -/
def Unbroken (c : Cyclic L) (e : EngineTick L) : Prop :=
  c.phase = .priming → c.goodCycles ≠ 0 → (c.processed e.dev).isSome

def Enters (c : Cyclic L) (e : EngineTick L) : Prop :=
  c.phase ≠ .requestingOp ∧ (engineStep c e).phase = .requestingOp ∨
    c.phase = .priming ∧ (engineStep c e).phase = .operational

instance (c : Cyclic L) (e : EngineTick L) : Decidable (c.Counts e) :=
  decidable_of_iff ((c.processed e.dev).any fun p => decide (p.1.workingCounter > 0)) (by
    rw [Counts]
    cases c.processed e.dev <;> simp)

instance (c : Cyclic L) (e : EngineTick L) : Decidable (c.Unbroken e) := by unfold Unbroken; infer_instance

theorem foldl_goodCycles (c : Cyclic L) (actions : List AppliedReply) :
    (actions.foldl applyAction c).goodCycles = c.goodCycles := by
  induction actions generalizing c with
  | nil => rfl
  | cons a actions ih =>
    apply (ih (c.applyAction a)).trans
    cases a <;> rfl

theorem primed_goodCycles (c : Cyclic L) : c.primed.goodCycles = c.goodCycles := by
  rw [primed]
  split_ifs <;> rfl

theorem entered_goodCycles (c : Cyclic L) : c.entered.goodCycles = c.goodCycles := by
  rw [entered]
  split_ifs <;> rfl

theorem absorb_goodCycles (c : Cyclic L) (lrw : Reply) (answers : List (Appended × Reply)) :
    (c.absorb lrw answers).goodCycles = (c.countGood lrw.workingCounter).goodCycles := by
  apply (entered_goodCycles _).trans
  apply (foldl_goodCycles _ _).trans
  apply (primed_goodCycles _).trans
  rfl

theorem absorb_unprimed {c : Cyclic L} {lrw : Reply} (answers : List (Appended × Reply)) (hp : c.phase = .priming)
    (hg : (c.countGood lrw.workingCounter).goodCycles < primingCycles) :
    (c.absorb lrw answers).phase = .priming ∨ (c.absorb lrw answers).phase = .faulted := by
  set d := ({ c with domain := (c.domain.applyReply lrw).2 : Cyclic L }.countGood lrw.workingCounter) with hd
  have hstay : d.primed = d := by
    rw [primed, if_neg]
    rintro ⟨-, hge⟩
    exact absurd hg (UInt32.not_lt.mpr hge)
  have hphase := d.foldl_phase (answers.map fun p => decodeAppended p.1 p.2)
  have habsorb : c.absorb lrw answers = ((answers.map fun p => decodeAppended p.1 p.2).foldl applyAction d).entered := by
    rw [absorb, ← hd, hstay]
  have hbefore : ((answers.map fun p => decodeAppended p.1 p.2).foldl applyAction d).phase = .faulted ∨
      ((answers.map fun p => decodeAppended p.1 p.2).foldl applyAction d).phase = .priming := by
    rw [hphase]
    split_ifs
    · exact Or.inl rfl
    · exact Or.inr hp
  rw [habsorb, entered, if_neg]
  · exact hbefore.symm
  · rintro ⟨hr, -⟩
    rcases hbefore with h | h
    · exact absurd (h.symm.trans hr) (by decide)
    · exact absurd (h.symm.trans hr) (by decide)

theorem received_goodCycles (c : Cyclic L) (e : EngineTick L) :
    (engineStep c e).goodCycles = match c.processed e.dev with
      | some (lrw, _) => (c.countGood lrw.workingCounter).goodCycles
      | none => c.goodCycles := by
  rw [engineStep_goodCycles, received_eq]
  cases c.processed e.dev with
  | none => rfl
  | some p => exact absorb_goodCycles _ _ _

theorem countGood_le (c : Cyclic L) (wkc : UInt16) :
    (c.countGood wkc).goodCycles.toNat ≤ if wkc > 0 then c.goodCycles.toNat + 1 else 0 := by
  rw [countGood]
  dsimp only
  split_ifs with hw hs
  · exact Nat.le_succ _
  · rw [UInt32.toNat_add]
    exact Nat.mod_le _ _
  · exact Nat.le_refl 0

theorem priming_before {c : Cyclic L} {e : EngineTick L} (h : (engineStep c e).phase = .priming) :
    c.phase = .priming := by
  rw [(c.engineStep_requests e).phase] at h
  have hmoves := c.received_moves e.dev e.latency
  by_cases hf : ∃ p ∈ c.answered e.dev, decodeAppended p.1 p.2 = .fault
  · exact absurd (h.symm.trans (hmoves.fault hf)) (by decide)
  · push Not at hf
    rcases hmoves.noFault hf with hs | ⟨-, hs⟩ | ⟨-, hs, -⟩
    · exact hs.symm.trans h
    · exact absurd (h.symm.trans hs) (by decide)
    · exact absurd (h.symm.trans hs) (by decide)

theorem Enters.primed {c : Cyclic L} {e : EngineTick L} (h : c.Enters e) :
    c.phase = .priming ∧ 3 ≤ (engineStep c e).goodCycles.toNat := by
  have hq := (c.engineStep_requests e).phase
  have hmoves := c.received_moves e.dev e.latency
  have hp : c.phase = .priming := by
    rcases h with ⟨hne, hr⟩ | ⟨hp, -⟩
    · by_contra hp
      by_cases hf : ∃ p ∈ c.answered e.dev, decodeAppended p.1 p.2 = .fault
      · exact absurd (hr.symm.trans (hq.trans (hmoves.fault hf))) (by decide)
      · push Not at hf
        rcases hmoves.noFault hf with hs | ⟨hs, -⟩ | ⟨-, hs, -⟩
        · exact hne (hs.symm.trans (hq.symm.trans hr))
        · exact hp hs
        · exact absurd (hr.symm.trans (hq.trans hs)) (by decide)
    · exact hp
  refine ⟨hp, ?_⟩
  by_contra hlt
  have hleft : (engineStep c e).phase = .requestingOp ∨ (engineStep c e).phase = .operational := h.imp And.right And.right
  have hstays : (engineStep c e).phase = .priming ∨ (engineStep c e).phase = .faulted := by
    rw [c.received_goodCycles e] at hlt
    rw [hq, c.received_eq]
    cases hproc : c.processed e.dev with
    | none => exact Or.inl hp
    | some p =>
      rw [hproc] at hlt
      exact (c.beginTick e.latency).absorb_unprimed (c.answered e.dev) hp (UInt32.lt_iff_toNat_lt.mpr (Nat.not_le.mp hlt))
  rcases hleft with hl | hl <;> rcases hstays with hs | hs <;> exact absurd (hl.symm.trans hs) (by decide)

def counted (start : Cyclic L) (es : List (EngineTick L)) : List Bool :=
  log engineStep (fun c e => some (decide (c.Counts e))) start es

theorem counted_concat (start : Cyclic L) (es : List (EngineTick L)) (e : EngineTick L) :
    counted start (es ++ [e]) = decide ((run engineStep start es).Counts e) :: counted start es :=
  log_concat _ _ _ _

theorem length_counted (start : Cyclic L) (es : List (EngineTick L)) : (counted start es).length = es.length := by
  induction es using List.reverseRecOn with
  | nil => rfl
  | append_singleton es e ih => rw [counted_concat, List.length_cons, List.length_append, ih]; rfl

theorem goodCycles_step {c : Cyclic L} {e : EngineTick L} (hu : c.Unbroken e) (hp : c.phase = .priming) :
    (engineStep c e).goodCycles.toNat ≤ if c.Counts e then c.goodCycles.toNat + 1 else 0 := by
  rw [received_goodCycles]
  cases hproc : c.processed e.dev with
  | none =>
    have hzero : c.goodCycles = 0 := by
      by_contra hne
      exact absurd (hu hp hne) (by rw [hproc]; decide)
    dsimp only
    rw [hzero]
    exact Nat.zero_le _
  | some p =>
    have hc : c.Counts e ↔ p.1.workingCounter > 0 := by simp [Counts, hproc]
    simp only [hc]
    exact c.countGood_le p.1.workingCounter

theorem goodCycles_streak {start : Cyclic L} (h₀ : start.goodCycles = 0) {es : List (EngineTick L)}
    (hu : ∀ c e, Takes engineStep start es c e → c.Unbroken e) :
    (run engineStep start es).phase = .priming →
      (run engineStep start es).goodCycles.toNat ≤ streak id (counted start es) := by
  induction es using List.reverseRecOn with
  | nil =>
    intro _
    rw [run_nil, h₀]
    exact Nat.zero_le _
  | append_singleton es e ih =>
    intro hp
    rw [run_concat] at hp
    have hbefore := priming_before hp
    have hle := ih (fun c f ht => hu c f (takes_concat.mpr (Or.inl ht))) hbefore
    have hstep := goodCycles_step (hu _ e (takes_last start es e)) hbefore
    rw [run_concat, counted_concat, streak_cons]
    simp only [id_eq, decide_eq_true_eq]
    split_ifs at hstep ⊢ <;> omega

def Responds (start : Cyclic L) (es : List (EngineTick L)) (e : EngineTick L) : Prop :=
  (∃ pre x, es = pre ++ [x] ∧ (engineStep (run engineStep start pre) x).outstanding = true) ∧
    (run engineStep start es).Counts e

theorem responds_of_counts {start : Cyclic L} (h₀ : start.outstanding = false) {es : List (EngineTick L)}
    {e : EngineTick L} (h : (run engineStep start es).Counts e) : Responds start es e := by
  refine ⟨?_, h⟩
  obtain ⟨p, hp, -⟩ := h
  have ho : (run engineStep start es).outstanding = true := by
    by_contra hn
    rw [processed, matched, if_neg hn] at hp
    cases hp
  rcases List.eq_nil_or_concat es with rfl | ⟨pre, x, rfl⟩
  · exact absurd (h₀.symm.trans ho) (by decide)
  · rw [List.concat_eq_append, run_concat] at ho
    exact ⟨pre, x, List.concat_eq_append, ho⟩

/-- If no cycle of Priming without a reply meets a count that has begun, the engine leaves Priming only on the replies
to three frames sent in a row, and every cycle without a good reply clears the count. -/
theorem priming_consecutive (slaves : List CyclicSlave) (refRingPos : UInt16) (cycleNs : UInt64)
    (es : List (EngineTick L))
    (hu : ∀ c e, Takes engineStep (Cyclic.new L slaves refRingPos cycleNs) es c e → c.Unbroken e) :
    let start := Cyclic.new L slaves refRingPos cycleNs
    ∀ pre e post, es = pre ++ e :: post →
      ((run engineStep start pre).Enters e → ∃ pre' a b, pre = pre' ++ [a, b] ∧ Responds start pre' a ∧
        Responds start (pre' ++ [a]) b ∧ Responds start pre e) ∧
      ((run engineStep start pre).phase = .priming → ¬ (run engineStep start pre).Counts e →
        (run engineStep start (pre ++ [e])).goodCycles = 0) := by
  intro start pre e post hes
  have hue : (run engineStep start pre).Unbroken e := hu _ e ⟨pre, post, hes, rfl⟩
  constructor
  · intro hent
    obtain ⟨hp, hthree⟩ := hent.primed
    have hpre : ∀ c f, Takes engineStep start pre c f → c.Unbroken f := by
      rintro c f ⟨pre', post', rfl, rfl⟩
      exact hu _ f ⟨pre', post' ++ e :: post, by rw [hes]; simp, rfl⟩
    have hle := goodCycles_streak rfl hpre hp
    have hstep := goodCycles_step hue hp
    have hlong : 3 ≤ streak id (counted start (pre ++ [e])) := by
      rw [counted_concat, streak_cons]
      simp only [id_eq, decide_eq_true_eq]
      split_ifs at hstep ⊢ <;> omega
    obtain ⟨hlen, hall⟩ := (le_streak_iff id 3 _).mp hlong
    rw [length_counted, List.length_append, List.length_singleton] at hlen
    rcases List.eq_nil_or_concat pre with rfl | ⟨pre₁, b, rfl⟩
    · exact absurd hlen (by simp)
    rw [List.concat_eq_append] at *
    rcases List.eq_nil_or_concat pre₁ with rfl | ⟨pre₀, a, rfl⟩
    · exact absurd hlen (by simp)
    rw [List.concat_eq_append] at *
    simp only [counted_concat, List.take_succ_cons, List.forall_mem_cons, id_eq, decide_eq_true_eq] at hall
    exact ⟨pre₀, a, b, by simp, responds_of_counts rfl hall.2.2.1, responds_of_counts rfl hall.2.1,
      responds_of_counts rfl hall.1⟩
  · intro hp hn
    rw [run_concat]
    have hstep := goodCycles_step hue hp
    rw [if_neg hn, Nat.le_zero] at hstep
    exact UInt32.toNat_inj.mp hstep

def ringTicks (rings : List (List (List UInt8))) : List (EngineTick (oneDrive 1)) := rings.map fun rx => ⟨ring rx, 0, 0, none⟩

theorem priming_consecutive_three :
    (run engineStep fresh (ringTicks [[], [lrwReply 0], [lrwReply 0]])).Enters ⟨ring [lrwReply 0], 0, 0, none⟩ ∧
      ∃ pre' a b, ringTicks [[], [lrwReply 0], [lrwReply 0]] = pre' ++ [a, b] ∧ Responds fresh pre' a ∧
        Responds fresh (pre' ++ [a]) b ∧
        Responds fresh (ringTicks [[], [lrwReply 0], [lrwReply 0]]) ⟨ring [lrwReply 0], 0, 0, none⟩ := by
  have hent : (run engineStep fresh (ringTicks [[], [lrwReply 0], [lrwReply 0]])).Enters ⟨ring [lrwReply 0], 0, 0, none⟩ :=
    Or.inl ⟨by decide +kernel, by decide +kernel⟩
  exact ⟨hent, (priming_consecutive [⟨0x1001, 0⟩] 0 1000000 (ringTicks [[], [lrwReply 0], [lrwReply 0], [lrwReply 0]])
    (along_iff.mp (by decide +kernel)) _ _ [] rfl).1 hent⟩

theorem priming_interrupted : ¬ ∀ (es : List (EngineTick (oneDrive 1))) (e : EngineTick (oneDrive 1)),
    (run engineStep fresh es).Enters e → ∃ pre' a b, es = pre' ++ [a, b] ∧ Responds fresh pre' a ∧
      Responds fresh (pre' ++ [a]) b ∧ Responds fresh es e := by
  intro h
  have hent : (run engineStep fresh (ringTicks [[], [lrwReply 0], [], [lrwReply 0]])).Enters ⟨ring [lrwReply 0], 0, 0, none⟩ :=
    Or.inl ⟨by decide +kernel, by decide +kernel⟩
  obtain ⟨pre', a, b, he, ha, -⟩ := h _ _ hent
  obtain ⟨rfl, hab⟩ := List.append_inj' (show ringTicks [[], [lrwReply 0]] ++ ringTicks [[], [lrwReply 0]] = pre' ++ [a, b] from he) rfl
  obtain ⟨rfl, -⟩ := List.cons.inj hab
  exact absurd ha.2 (by decide +kernel)

end Cyclic

end EcMaster

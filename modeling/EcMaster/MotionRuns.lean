import EcMaster.MotionFifo

namespace EcMaster

open Library.Run Library.Segment Library.Circular Library.SerialNumber

namespace MotionRing

theorem after_concat (n : ℕ) (calls : List RingCall) (c : RingCall) :
    after n (calls ++ [c]) = (after n calls).call c := run_concat _ _ _ _

theorem accepted_concat (n : ℕ) (calls : List RingCall) (c : RingCall) :
    accepted n (calls ++ [c]) = accepted n calls ++ ((after n calls).accepts c).toList :=
  reverse_log_concat _ _ _ _

theorem returned_concat (n : ℕ) (calls : List RingCall) (c : RingCall) :
    returned n (calls ++ [c]) = returned n calls ++ ((after n calls).hands c).toList :=
  reverse_log_concat _ _ _ _

theorem after_models (n : ℕ) (calls : List RingCall) :
    Fifo.Models n (after n calls) (run (Fifo.call n) ⟨[], false⟩ calls) := by
  induction calls using List.reverseRecOn with
  | nil => exact Fifo.new_models n
  | append_singleton calls c ih =>
    rw [after_concat, run_concat]
    exact ih.call c

theorem log_answers (n : ℕ) (calls : List RingCall) :
    log call (fun r c => some (r.answer c)) (new n) calls =
      log (Fifo.call n) (fun f c => some (f.answer c)) ⟨[], false⟩ calls := by
  induction calls using List.reverseRecOn with
  | nil => rfl
  | append_singleton calls c ih =>
    have ha := (after_models n calls).answer c
    rw [after] at ha
    rw [log_concat, log_concat, ih, ha]

theorem push_fst (r : MotionRing) (tag : UInt32) (payload : List UInt8) :
    (r.push tag payload).1 = decide (r.len < motionRingDepth) := by
  rcases r.len_le.lt_or_eq with h | h
  · rw [push, dif_neg (by omega), decide_eq_true h]
  · rw [push_full h, decide_eq_false (by omega)]

theorem handed_eq (r : MotionRing) (current : UInt32) :
    r.handed current = (MotionQueue.due r.samples current).map fun payload => (current, payload) := by
  rw [handed, ← (r.pop_refines current).1, Option.map_map]
  rfl

theorem pop_splits (r : MotionRing) (current : UInt32) :
    ∃ stale, r.samples = stale ++ (r.handed current).toList ++ (r.pop current).2.samples ∧
      ∀ s ∈ stale, Before s.1 current := by
  rw [handed_eq, (r.pop_refines current).2]
  exact MotionQueue.eq_stale_append _ _

theorem accepted_splits (n : ℕ) (calls : List RingCall) :
    ∃ gone, accepted n calls = gone ++ (after n calls).samples ∧ (returned n calls).Sublist gone := by
  induction calls using List.reverseRecOn with
  | nil => exact ⟨[], rfl, List.Sublist.refl _⟩
  | append_singleton calls c ih =>
    obtain ⟨gone, ha, hr⟩ := ih
    rw [accepted_concat, returned_concat, after_concat]
    generalize after n calls = r at ha hr ⊢
    cases c with
    | push tag payload =>
      refine ⟨gone, ?_, by simpa [hands] using hr⟩
      rw [accepts, call, push_fst, ha, List.append_assoc]
      rcases r.len_le.lt_or_eq with h | h
      · rw [samples_push h]
        simp [h]
      · rw [push_full h]
        simp [h]
    | pop current =>
      obtain ⟨stale, hs, -⟩ := r.pop_splits current
      refine ⟨gone ++ (stale ++ (r.handed current).toList), ?_, ?_⟩
      · rw [accepts, call, ha, hs]
        simp
      · exact hr.append (List.sublist_append_right _ _)

theorem started_iff (n : ℕ) (calls : List RingCall) :
    ((after n calls).started = true ↔ ∃ tag payload, RingCall.push tag payload ∈ calls) ∧
      ((after n calls).started = false → (after n calls).len = 0) := by
  induction calls using List.reverseRecOn with
  | nil => exact ⟨by simp [after, new], fun _ => rfl⟩
  | append_singleton calls c ih =>
    obtain ⟨hs, hz⟩ := ih
    rw [after_concat]
    generalize after n calls = r at hs hz ⊢
    cases c with
    | push tag payload =>
      have hst : (r.push tag payload).2.started = true := by
        rcases r.len_le.lt_or_eq with h | h
        · rw [push, dif_neg (by omega)]
        · rw [push_full h]
          by_contra hf
          have hlen := hz (Bool.eq_false_iff.mpr hf)
          rw [h] at hlen
          exact absurd hlen (by decide)
      refine ⟨⟨fun _ => ⟨tag, payload, by simp⟩, fun _ => hst⟩, fun hf => ?_⟩
      rw [call, hst] at hf
      exact absurd hf (by decide)
    | pop current =>
      obtain ⟨-, hst⟩ := r.pop_frame current
      refine ⟨?_, fun hf => ?_⟩
      · rw [call, hst, hs]
        simp
      · rw [call, hst] at hf
        obtain ⟨stale, hsplit, -⟩ := r.pop_splits current
        have hl := congrArg List.length hsplit
        rw [length_samples, hz hf, List.length_append, length_samples] at hl
        change (r.pop current).2.len = 0
        omega

end MotionRing

open MotionRing in
/-- The ring after any sequence of calls, against the queue that it stands for. -/
structure RefinesFifo (n : ℕ) (calls : List RingCall) : Prop where
  answers : log call (fun r c => some (r.answer c)) (new n) calls =
    log (Fifo.call n) (fun f c => some (f.answer c)) ⟨[], false⟩ calls
  sampleLen : (after n calls).sampleLen = min n 64
  head_lt : (after n calls).head.val < 32
  len_le : (after n calls).len ≤ 32
  refuses : ∀ tag payload, ((after n calls).push tag payload).1 = false ↔ (after n calls).samples.length = 32
  unchanged : ∀ tag payload, ((after n calls).push tag payload).1 = false →
    ((after n calls).push tag payload).2 = after n calls
  pops_accepted : ∀ current slot, ((after n calls).pop current).1 = some slot →
    (current, ((after n calls).pop current).2.payload slot) ∈ accepted n calls
  returned_once : (returned n calls).Sublist (accepted n calls)
  buffered : (after n calls).samples <:+ accepted n calls
  leaves : ∀ current, ∃ stale, (after n calls).samples =
      stale ++ ((after n calls).handed current).toList ++ ((after n calls).pop current).2.samples ∧
    ∀ s ∈ stale, cycleBefore s.1 current = true
  finds : ((accepted n calls).map Prod.fst).IsChain (fun a b => cycleBefore a b = true) → ∀ base current,
    (∀ s ∈ (after n calls).samples, (s.1 - base).toNat < 2 ^ 31) → (current - base).toNat < 2 ^ 31 →
      ∀ s ∈ (after n calls).samples, s.1 = current → (after n calls).handed current = some s
  underrun : ∀ current, ((after n calls).pop current).2.underrun = true ↔
    (∃ tag payload, RingCall.push tag payload ∈ calls) ∧ ((after n calls).pop current).1 = none ∧
      ((after n calls).pop current).2.samples = []

namespace MotionRing

theorem finds_due {n : ℕ} {calls : List RingCall}
    (ho : ((accepted n calls).map Prod.fst).IsChain fun a b => cycleBefore a b = true) {base : UInt32}
    (hw : ∀ s ∈ (after n calls).samples, (s.1 - base).toNat < 2 ^ 31) {s : UInt32 × List UInt8}
    (hs : s ∈ (after n calls).samples) : (after n calls).handed s.1 = some s := by
  obtain ⟨gone, ha, -⟩ := accepted_splits n calls
  have hchain : ((after n calls).samples.map Prod.fst).IsChain Before := by
    rw [ha, List.map_append] at ho
    exact (ho.suffix (List.suffix_append _ _)).imp fun _ _ h => cycleBefore_iff.mp h
  have hwindow : ∀ x ∈ (after n calls).samples.map Prod.fst, (x - base).toNat < 2 ^ 31 := by
    intro x hx
    obtain ⟨t, ht, rfl⟩ := List.mem_map.mp hx
    exact hw t ht
  rw [handed_eq, MotionQueue.due_of_mem (pairwise_of_window hwindow hchain) hs, Option.map_some]

theorem ring_refinesFifo (n : ℕ) (calls : List RingCall) : RefinesFifo n calls := by
  obtain ⟨gone, ha, hr⟩ := accepted_splits n calls
  have hsuffix : (after n calls).samples <:+ accepted n calls := ha ▸ List.suffix_append _ _
  refine ⟨log_answers n calls, ?_, (after n calls).head.isLt, (after n calls).len_le, ?_, ?_, ?_, ?_, hsuffix, ?_, ?_,
    ?_⟩
  · rw [(after_models n calls).sampleLen]
    change (if n > 64 then 64 else n) = min n 64
    split_ifs <;> omega
  · intro tag payload
    have hl := (after n calls).len_le
    rw [push_fst, length_samples, decide_eq_false_iff_not]
    simp only [motionRingDepth] at hl ⊢
    omega
  · intro tag payload h
    rw [push_fst, decide_eq_false_iff_not] at h
    rw [push_full (le_antisymm (after n calls).len_le (not_lt.mp h))]
  · intro current slot h
    obtain ⟨stale, hs, -⟩ := (after n calls).pop_splits current
    apply hsuffix.subset
    rw [hs, handed, h]
    simp
  · rw [ha]
    exact hr.trans (List.sublist_append_left _ _)
  · intro current
    obtain ⟨stale, hs, hb⟩ := (after n calls).pop_splits current
    exact ⟨stale, hs, fun s hm => cycleBefore_iff.mpr (hb s hm)⟩
  · rintro ho base _ hw - s hs rfl
    exact finds_due ho hw hs
  · intro current
    rw [pop_underrun, Bool.and_eq_true, Bool.and_eq_true, (started_iff n calls).1, Option.isNone_iff_eq_none,
      decide_eq_true_iff, ← length_samples, List.length_eq_zero_iff, and_assoc]

end MotionRing

end EcMaster

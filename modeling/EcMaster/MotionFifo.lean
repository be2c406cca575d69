import EcMaster.Library.Run
import EcMaster.MotionBuffer

namespace EcMaster

open Library.Run Library.Segment Library.Circular Library.SerialNumber

inductive RingCall
  | push (tag : UInt32) (payload : List UInt8)
  | pop (current : UInt32)

/-- What a caller gets back: whether a sample was taken, or the payload handed out and the underrun flag. -/
inductive RingAnswer
  | pushed (ok : Bool)
  | popped (payload : Option (List UInt8)) (underrun : Bool)

namespace MotionRing

def call (r : MotionRing) : RingCall → MotionRing
  | .push tag payload => (r.push tag payload).2
  | .pop current => (r.pop current).2

def handed (r : MotionRing) (current : UInt32) : Option (UInt32 × List UInt8) :=
  (r.pop current).1.map fun slot => (current, (r.pop current).2.payload slot)

def answer (r : MotionRing) : RingCall → RingAnswer
  | .push tag payload => .pushed (r.push tag payload).1
  | .pop current => .popped ((r.pop current).1.map (r.pop current).2.payload) (r.pop current).2.underrun

def accepts (r : MotionRing) : RingCall → Option (UInt32 × List UInt8)
  | .push tag payload => if (r.push tag payload).1 then some (tag, r.fit payload) else none
  | .pop _ => none

def hands (r : MotionRing) : RingCall → Option (UInt32 × List UInt8)
  | .push _ _ => none
  | .pop current => r.handed current

def after (n : ℕ) (calls : List RingCall) : MotionRing := run call (new n) calls

def accepted (n : ℕ) (calls : List RingCall) : List (UInt32 × List UInt8) := (log call accepts (new n) calls).reverse

def returned (n : ℕ) (calls : List RingCall) : List (UInt32 × List UInt8) := (log call hands (new n) calls).reverse

end MotionRing

structure Fifo where
  queue : MotionQueue
  started : Bool

namespace Fifo

variable (n : ℕ)

def call (f : Fifo) : RingCall → Fifo
  | .push tag payload =>
    if f.queue.length < motionRingDepth then ⟨f.queue ++ [(tag, (MotionRing.new n).fit payload)], true⟩ else f
  | .pop current => { f with queue := f.queue.rest current }

def answer (f : Fifo) : RingCall → RingAnswer
  | .push _ _ => .pushed (f.queue.length < motionRingDepth)
  | .pop current =>
    .popped (f.queue.due current) (f.started && (f.queue.due current).isNone && (f.queue.rest current).isEmpty)

end Fifo

namespace MotionQueue

theorem eq_stale_append (q : MotionQueue) (current : UInt32) :
    ∃ stale, q = stale ++ ((q.due current).map fun payload => (current, payload)).toList ++ q.rest current ∧
      ∀ s ∈ stale, Before s.1 current := by
  have hstale : ∀ s ∈ q.takeWhile (fun s => cycleBefore s.1 current), Before s.1 current := by
    intro s hs
    have hb := List.mem_takeWhile_imp hs
    exact cycleBefore_iff.mp hb
  refine ⟨_, ?_, hstale⟩
  have hq : q = (q.takeWhile fun s => cycleBefore s.1 current) ++ q.fresh current := List.takeWhile_append_dropWhile.symm
  rw [due, rest, List.append_assoc]
  nth_rewrite 1 [hq]
  congr 1
  cases q.fresh current with
  | nil => rfl
  | cons s tl =>
    by_cases ht : s.1 = current
    · simp [← ht]
    · simp [ht]

theorem due_of_mem {q : MotionQueue} {current : UInt32} (ho : (q.map Prod.fst).Pairwise Before)
    {payload : List UInt8} (hm : (current, payload) ∈ q) : q.due current = some payload := by
  induction q with
  | nil => exact absurd hm List.not_mem_nil
  | cons s q ih =>
    have hs := List.pairwise_cons.mp ho
    rcases List.mem_cons.mp hm with he | hq
    · rw [due, fresh, List.dropWhile_cons_of_neg (by rw [← he, cycleBefore_self]; decide), ← he]
      exact if_pos rfl
    · have hb : cycleBefore s.1 current = true :=
        cycleBefore_iff.mpr (hs.1 current (List.mem_map_of_mem (f := Prod.fst) hq))
      have hd : MotionQueue.due (s :: q) current = MotionQueue.due q current := by
        rw [due, due, fresh, fresh, List.dropWhile_cons_of_pos (by simpa using hb)]
      rw [hd]
      exact ih hs.2 hq

end MotionQueue

namespace Fifo

variable {n : ℕ}

structure Models (n : ℕ) (r : MotionRing) (f : Fifo) : Prop where
  samples : r.samples = f.queue
  started : r.started = f.started
  sampleLen : r.sampleLen = (MotionRing.new n).sampleLen

theorem Models.fit {r : MotionRing} {f : Fifo} (h : Models n r f) (payload : List UInt8) :
    r.fit payload = (MotionRing.new n).fit payload := MotionRing.fit_congr h.sampleLen payload

theorem Models.len {r : MotionRing} {f : Fifo} (h : Models n r f) : r.len = f.queue.length := by
  rw [← h.samples, MotionRing.length_samples]

theorem Models.call {r : MotionRing} {f : Fifo} (h : Models n r f) (c : RingCall) :
    Models n (r.call c) (f.call n c) := by
  have hl := h.len
  cases c with
  | push tag payload =>
    rcases r.len_le.lt_or_eq with hlt | hfull
    · have hs : (r.push tag payload).2.started = true := by rw [MotionRing.push, dif_neg (by omega)]
      rw [Fifo.call, if_pos (by omega)]
      refine ⟨?_, hs, (r.push_sampleLen tag payload).trans h.sampleLen⟩
      rw [MotionRing.call, MotionRing.samples_push hlt, h.samples, h.fit]
    · rw [Fifo.call, if_neg (by omega), MotionRing.call, MotionRing.push_full hfull]
      exact h
  | pop current =>
    obtain ⟨hlen, hstart⟩ := r.pop_frame current
    refine ⟨?_, hstart.trans h.started, hlen.trans h.sampleLen⟩
    rw [MotionRing.call, (r.pop_refines current).2, h.samples]
    rfl

theorem Models.answer {r : MotionRing} {f : Fifo} (h : Models n r f) (c : RingCall) : r.answer c = f.answer c := by
  have hl := h.len
  cases c with
  | push tag payload =>
    rw [MotionRing.answer, Fifo.answer, ← hl]
    rcases r.len_le.lt_or_eq with hlt | hfull
    · rw [MotionRing.push, dif_neg (by omega), decide_eq_true hlt]
    · rw [MotionRing.push_full hfull, decide_eq_false (by omega)]
  | pop current =>
    obtain ⟨hdue, hrest⟩ := r.pop_refines current
    have hu := r.pop_underrun current
    have hnone : (r.pop current).1.isNone = (f.queue.due current).isNone := by
      rw [← h.samples, ← hdue, Option.isNone_map]
    have hempty : decide ((r.pop current).2.len = 0) = (f.queue.rest current).isEmpty := by
      rw [← h.samples, ← hrest, ← MotionRing.length_samples, Bool.eq_iff_iff, decide_eq_true_iff,
        List.isEmpty_iff_length_eq_zero]
    rw [MotionRing.answer, Fifo.answer, hdue, hu, hnone, hempty, h.started, h.samples]

theorem new_models (n : ℕ) : Models n (MotionRing.new n) ⟨[], false⟩ := ⟨rfl, rfl, rfl⟩

end Fifo

end EcMaster

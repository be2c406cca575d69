import EcMaster.Library.Segment
import EcMaster.Library.Circular
import EcMaster.Library.SerialNumber

namespace EcMaster

open Library.Segment Library.Circular Library.SerialNumber

def motionRingDepth : ℕ := 32
def motionSampleMax : ℕ := 64

structure MotionRing where
  data : Fin motionRingDepth → List UInt8
  tag : Fin motionRingDepth → UInt32
  head : Fin motionRingDepth
  len : ℕ
  sampleLen : ℕ
  underrun : Bool
  started : Bool
  len_le : len ≤ motionRingDepth
  sampleLen_le : sampleLen ≤ motionSampleMax
  length_data : ∀ i, (data i).length = motionSampleMax

instance : NeZero motionRingDepth := ⟨by decide⟩

def cycleBefore (a b : UInt32) : Bool := 0 < (b - a).toInt32.toInt

theorem cycleBefore_iff {a b : UInt32} : cycleBefore a b = true ↔ Before a b := by
  rw [cycleBefore, decide_eq_true_iff, before_iff_toInt]

namespace MotionRing

def new (sampleLen : ℕ) : MotionRing where
  data := fun _ => List.replicate motionSampleMax 0
  tag := fun _ => 0
  head := 0
  len := 0
  sampleLen := if sampleLen > motionSampleMax then motionSampleMax else sampleLen
  underrun := false
  started := false
  len_le := by decide
  sampleLen_le := by split_ifs <;> omega
  length_data := fun _ => List.length_replicate

theorem sampleLen_new (sampleLen : ℕ) : (new sampleLen).sampleLen = min sampleLen motionSampleMax := by
  simp only [new]
  split_ifs <;> omega

def active (r : MotionRing) : Bool := 0 < r.sampleLen

def store (r : MotionRing) (payload : List UInt8) (slot : Fin motionRingDepth) : List UInt8 :=
  let n := min r.sampleLen payload.length
  overwrite (overwrite (r.data slot) 0 (payload.take n)) n (List.replicate (r.sampleLen - n) 0)

theorem length_store (r : MotionRing) (payload : List UInt8) (slot : Fin motionRingDepth) :
    (r.store payload slot).length = motionSampleMax := by
  simp [store, r.length_data]

def push (r : MotionRing) (tag : UInt32) (payload : List UInt8) : Bool × MotionRing :=
  if h : r.len ≥ motionRingDepth then (false, r)
  else
    let at' := slot r.head r.len
    (true, { r with
      data := Function.update r.data at' (r.store payload at')
      tag := Function.update r.tag at' tag
      len := r.len + 1
      started := true
      len_le := by omega
      length_data := fun i => by
        by_cases hi : i = at' <;> simp [hi, length_store, r.length_data] })

def dropHead (r : MotionRing) : MotionRing :=
  { r with head := slot r.head 1, len := r.len - 1, len_le := (Nat.sub_le _ _).trans r.len_le }

def discardStale (current : UInt32) : ℕ → MotionRing → MotionRing
  | 0, r => r
  | n + 1, r =>
    if 0 < r.len ∧ cycleBefore (r.tag r.head) current then discardStale current n r.dropHead else r

def pop (r : MotionRing) (current : UInt32) : Option (Fin motionRingDepth) × MotionRing :=
  let r := discardStale current r.len r
  if 0 < r.len ∧ r.tag r.head = current then
    (some r.head, { r.dropHead with underrun := false })
  else
    (none, { r with underrun := r.started && r.len == 0 })

def payload (r : MotionRing) (slot : Fin motionRingDepth) : List UInt8 := (r.data slot).take r.sampleLen

def depth (r : MotionRing) : ℕ := r.len

def samples (r : MotionRing) : List (UInt32 × List UInt8) :=
  items (fun i => (r.tag i, r.payload i)) r.head r.len

def fit (r : MotionRing) (payload : List UInt8) : List UInt8 :=
  payload.take r.sampleLen ++ List.replicate (r.sampleLen - payload.length) 0

theorem fit_congr {r r' : MotionRing} (h : r.sampleLen = r'.sampleLen) (payload : List UInt8) :
    r.fit payload = r'.fit payload := by
  rw [fit, fit, h]

@[simp] theorem length_samples (r : MotionRing) : r.samples.length = r.len := length_items _ _ _

theorem take_store (r : MotionRing) (payload : List UInt8) (slot : Fin motionRingDepth) :
    (r.store payload slot).take r.sampleLen = r.fit payload := by
  have hd := r.length_data slot
  have hs := r.sampleLen_le
  apply List.ext_getElem?
  intro i
  rw [List.getElem?_take, store, fit]
  by_cases hi : i < r.sampleLen
  · by_cases hp : i < payload.length
    · rw [if_pos hi, getElem?_overwrite_outside (by omega),
        getElem?_overwrite_inside (by omega) (by simp; omega) (by omega),
        List.getElem?_append_left (by simp; omega)]
      simp [hi, hp]
    · rw [if_pos hi, getElem?_overwrite_inside (by omega) (by simp; omega) (by simp; omega),
        List.getElem?_append_right (by simp; omega)]
      simp only [List.getElem?_replicate, List.length_take]
      rw [if_pos (by omega), if_pos (by omega)]
  · rw [if_neg hi, List.getElem?_eq_none (by simp; omega)]

theorem push_full {r : MotionRing} (h : r.len = motionRingDepth) (tag : UInt32) (payload : List UInt8) :
    r.push tag payload = (false, r) := dif_pos h.ge

theorem samples_push {r : MotionRing} (h : r.len < motionRingDepth) (tag : UInt32) (payload : List UInt8) :
    (r.push tag payload).2.samples = r.samples ++ [(tag, r.fit payload)] := by
  rw [push, dif_neg (by omega), samples, samples, ← items_push _ _ _ h]
  congr 1
  funext i
  by_cases hi : i = slot r.head r.len
  · subst hi
    simp [MotionRing.payload, take_store]
  · simp [MotionRing.payload, hi]

theorem samples_push_within (r : MotionRing) (tag : UInt32) (payload : List UInt8) :
    (r.push tag payload).2.samples = pushWithin motionRingDepth r.samples (tag, r.fit payload) := by
  rw [pushWithin, length_samples]
  rcases r.len_le.lt_or_eq with h | h
  · rw [samples_push h, if_pos h]
  · rw [push_full h, if_neg h.not_lt]

theorem samples_of_pos {r : MotionRing} (h : 0 < r.len) :
    r.samples = (r.tag r.head, r.payload r.head) :: r.dropHead.samples := by
  have hl : r.len = (r.len - 1) + 1 := by omega
  rw [samples, hl, items_pop]
  rfl

theorem samples_of_zero {r : MotionRing} (h : r.len = 0) : r.samples = [] := by
  rw [← List.length_eq_zero_iff, length_samples, h]

end MotionRing

abbrev MotionQueue := List (UInt32 × List UInt8)

namespace MotionQueue

def fresh (q : MotionQueue) (current : UInt32) : MotionQueue :=
  q.dropWhile fun s => cycleBefore s.1 current

def due (q : MotionQueue) (current : UInt32) : Option (List UInt8) :=
  match q.fresh current with
  | [] => none
  | s :: _ => if s.1 = current then some s.2 else none

def rest (q : MotionQueue) (current : UInt32) : MotionQueue :=
  match q.fresh current with
  | [] => []
  | s :: tl => if s.1 = current then tl else s :: tl

theorem mem_of_due {q : MotionQueue} {current : UInt32} {payload : List UInt8} (h : q.due current = some payload) :
    (current, payload) ∈ q := by
  rw [due] at h
  split at h
  · exact absurd h (by simp)
  · next s tl hq =>
    split_ifs at h with ht
    obtain rfl := Option.some.inj h
    have hm : s ∈ q.fresh current := by rw [hq]; exact List.mem_cons_self
    rw [← ht]
    exact (List.dropWhile_sublist _).mem hm

theorem rest_sublist (q : MotionQueue) (current : UInt32) : (q.rest current).Sublist q := by
  have hf : (q.fresh current).Sublist q := List.dropWhile_sublist _
  rw [rest]
  split
  · exact List.nil_sublist _
  · next s tl hq =>
    rw [hq] at hf
    split_ifs
    · exact (List.sublist_cons_self s tl).trans hf
    · exact hf

theorem cycleBefore_self (c : UInt32) : cycleBefore c c = false := by
  simp [cycleBefore]

end MotionQueue

namespace MotionRing

theorem samples_discardStale (current : UInt32) (n : ℕ) (r : MotionRing) (h : r.len ≤ n) :
    (discardStale current n r).samples = MotionQueue.fresh r.samples current := by
  induction n generalizing r with
  | zero =>
    rw [discardStale, samples_of_zero (Nat.le_zero.mp h)]
    rfl
  | succ n ih =>
    rcases Nat.eq_zero_or_pos r.len with hz | hp
    · rw [discardStale, if_neg (by omega), samples_of_zero hz]
      rfl
    · have hs := samples_of_pos hp
      cases hb : cycleBefore (r.tag r.head) current with
      | false =>
        rw [discardStale, if_neg (by simp [hb]), hs, MotionQueue.fresh, List.dropWhile_cons_of_neg (by simp [hb])]
      | true =>
        rw [discardStale, if_pos ⟨hp, hb⟩, ih _ (by change r.len - 1 ≤ n; omega), hs, MotionQueue.fresh,
          MotionQueue.fresh, List.dropWhile_cons_of_pos (by simp [hb])]

theorem discardStale_frame (current : UInt32) (n : ℕ) (r : MotionRing) :
    (discardStale current n r).sampleLen = r.sampleLen ∧ (discardStale current n r).started = r.started ∧
      (discardStale current n r).data = r.data := by
  induction n generalizing r with
  | zero => exact ⟨rfl, rfl, rfl⟩
  | succ n ih =>
    rw [discardStale]
    split_ifs with h
    · exact ih r.dropHead
    · exact ⟨rfl, rfl, rfl⟩

theorem pop_refines (r : MotionRing) (current : UInt32) :
    (r.pop current).1.map (r.pop current).2.payload = MotionQueue.due r.samples current ∧
      (r.pop current).2.samples = MotionQueue.rest r.samples current := by
  have hs := samples_discardStale current r.len r le_rfl
  set d := discardStale current r.len r with hd
  have hpop : r.pop current = if 0 < d.len ∧ d.tag d.head = current then
      (some d.head, { d.dropHead with underrun := false })
    else (none, { d with underrun := d.started && d.len == 0 }) := rfl
  rw [MotionQueue.due, MotionQueue.rest, ← hs, hpop]
  rcases Nat.eq_zero_or_pos d.len with hz | hp
  · rw [if_neg (by omega), samples_of_zero hz]
    exact ⟨rfl, samples_of_zero hz⟩
  · rw [samples_of_pos hp]
    by_cases ht : d.tag d.head = current
    · rw [if_pos ⟨hp, ht⟩]
      simp only [ht, ↓reduceIte]
      exact ⟨rfl, rfl⟩
    · rw [if_neg (by simp [ht])]
      simp only [ht, ↓reduceIte]
      exact ⟨rfl, samples_of_pos hp⟩

theorem pop_frame (r : MotionRing) (current : UInt32) :
    (r.pop current).2.sampleLen = r.sampleLen ∧ (r.pop current).2.started = r.started := by
  obtain ⟨hl, hs, -⟩ := discardStale_frame current r.len r
  rw [pop]
  split_ifs
  · exact ⟨hl, hs⟩
  · exact ⟨hl, hs⟩

theorem pop_underrun (r : MotionRing) (current : UInt32) :
    (r.pop current).2.underrun =
      (r.started && (r.pop current).1.isNone && decide ((r.pop current).2.len = 0)) := by
  have hs := (discardStale_frame current r.len r).2.1
  rw [pop]
  split_ifs with h
  · simp
  · simp only [hs, Option.isNone_none, Bool.and_true]
    rfl

@[simp] theorem push_sampleLen (r : MotionRing) (tag : UInt32) (payload : List UInt8) :
    (r.push tag payload).2.sampleLen = r.sampleLen := by
  rw [push]
  split_ifs <;> rfl

end MotionRing

end EcMaster

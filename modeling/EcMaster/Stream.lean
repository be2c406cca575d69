import EcMaster.MotionBuffer

namespace EcMaster

namespace Tags

variable (tags : List UInt32) (current : UInt32)

def fresh : List UInt32 := tags.dropWhile fun t => cycleBefore t current

def ready : Bool := (fresh tags current).head? == some current

def rest : List UInt32 := if ready tags current then (fresh tags current).tail else fresh tags current

theorem fresh_map (q : MotionQueue) : (MotionQueue.fresh q current).map Prod.fst = fresh (q.map Prod.fst) current := by
  rw [fresh, List.dropWhile_map]
  rfl

theorem due_isSome (q : MotionQueue) : (MotionQueue.due q current).isSome = ready (q.map Prod.fst) current := by
  rw [MotionQueue.due, ready, ← fresh_map]
  cases MotionQueue.fresh q current with
  | nil => rfl
  | cons s tl => by_cases hs : s.1 = current <;> simp [hs]

theorem rest_map (q : MotionQueue) : (MotionQueue.rest q current).map Prod.fst = rest (q.map Prod.fst) current := by
  rw [MotionQueue.rest, rest, ready, ← fresh_map]
  cases MotionQueue.fresh q current with
  | nil => rfl
  | cons s tl => by_cases hs : s.1 = current <;> simp [hs]

variable {tags current}

theorem mem_of_ready (h : ready tags current = true) : current ∈ tags := by
  rw [ready, beq_iff_eq] at h
  exact (List.dropWhile_sublist _).mem (List.mem_of_head? h)

theorem fresh_due : fresh (current :: tags) current = current :: tags := by
  rw [fresh, List.dropWhile_cons_of_neg (by simp [MotionQueue.cycleBefore_self])]

theorem ready_due : ready (current :: tags) current = true := by
  rw [ready, fresh_due]
  simp

theorem rest_due : rest (current :: tags) current = tags := by
  rw [rest, ready_due, if_pos rfl, fresh_due, List.tail_cons]

def ahead (c : UInt32) (k : ℕ) : List UInt32 := (List.range k).map fun i => c + UInt32.ofNat (i + 1)

@[simp] theorem length_ahead (c : UInt32) (k : ℕ) : (ahead c k).length = k := by simp [ahead]

theorem ahead_zero (c : UInt32) : ahead c 0 = [] := rfl

theorem ahead_cons (c : UInt32) (k : ℕ) : ahead c (k + 1) = (c + 1) :: ahead (c + 1) k := by
  rw [ahead, ahead, List.range_succ_eq_map, List.map_cons, List.map_map]
  refine congrArg₂ _ rfl (List.map_congr_left fun i _ => ?_)
  simp only [Function.comp_apply, Nat.succ_eq_add_one, UInt32.ofNat_add]
  exact (add_assoc c 1 _).symm ▸ by rw [add_comm 1]; rfl

theorem ahead_concat (c : UInt32) (k : ℕ) : ahead c (k + 1) = ahead c k ++ [c + UInt32.ofNat (k + 1)] := by
  rw [ahead, List.range_succ, List.map_append]
  rfl

end Tags

/-- What the flow control of the motion stream depends on: the counters of the component, the tags in the ring,
and the cycle index and depth of the reply that is shifted out next and of the one staged after it. -/
structure Stream where
  nextTag : UInt32
  primed : Bool
  lastCycleIndex : UInt32
  lastBufDepth : ℕ
  cycle : UInt32
  ring : List UInt32
  tx : Option (UInt32 × ℕ)
  reply : Option (UInt32 × ℕ)
  deriving DecidableEq

namespace Stream

variable (target cap : ℕ) (a : Stream)

def resync : UInt32 := if a.nextTag < a.lastCycleIndex + 1 then a.lastCycleIndex + 1 else a.nextTag

def want : ℕ :=
  let want :=
    if !a.primed then target else if a.lastBufDepth < target then target - a.lastBufDepth + 1 else 1
  let want := if want > cap then cap else want
  if want < 1 then 1 else want

def sent : List UInt32 := (List.range (a.want target cap)).map fun j => a.resync + UInt32.ofNat j

def afterFrame (lost : Bool) : Stream :=
  { a with
    nextTag := a.resync + UInt32.ofNat (a.want target cap)
    primed := true
    lastCycleIndex := (a.tx.map Prod.fst).getD a.lastCycleIndex
    lastBufDepth := (a.tx.map Prod.snd).getD a.lastBufDepth
    ring := if lost then a.ring else a.ring ++ (a.sent target cap).take (motionRingDepth - a.ring.length)
    tx := a.reply }

def finds : Bool := Tags.ready a.ring (a.cycle + 1)

def afterTick : Stream :=
  { a with
    cycle := a.cycle + 1
    ring := Tags.rest a.ring (a.cycle + 1)
    reply := some (a.cycle + 1, min (Tags.rest a.ring (a.cycle + 1)).length 255) }

def round (lost : Bool) : Stream := (a.afterFrame target cap lost).afterTick

def rounds (n : ℕ) : Stream := (fun a : Stream => a.round target cap false)^[n] a

variable {target cap} {a}

theorem rounds_succ (n : ℕ) : a.rounds target cap (n + 1) = (a.rounds target cap n).round target cap false :=
  Function.iterate_succ_apply' _ n a

theorem rounds_head (n : ℕ) : a.rounds target cap (n + 1) = (a.round target cap false).rounds target cap n :=
  Function.iterate_succ_apply _ n a

theorem rounds_add (m n : ℕ) : a.rounds target cap (m + n) = (a.rounds target cap n).rounds target cap m :=
  Function.iterate_add_apply _ m n a

theorem rounds_two : a.rounds target cap 2 = (a.round target cap false).round target cap false := rfl

theorem want_full (hcap : 0 < cap) (hp : a.primed = true) (hd : target ≤ a.lastBufDepth) : a.want target cap = 1 := by
  simp only [want, hp, Bool.not_true, Bool.false_eq_true, ↓reduceIte, if_neg (not_lt.mpr hd)]
  split_ifs <;> omega

theorem sent_full (hcap : 0 < cap) (hp : a.primed = true) (hd : target ≤ a.lastBufDepth) :
    a.sent target cap = [a.resync] := by
  rw [sent, want_full hcap hp hd]
  simp

structure Settled (target k : ℕ) (a : Stream) : Prop where
  target_lt : target < k
  lt_depth : k < motionRingDepth
  ring : a.ring = Tags.ahead a.cycle k
  nextTag : a.nextTag = a.cycle + UInt32.ofNat (k + 1)
  primed : a.primed = true
  lastCycleIndex : a.lastCycleIndex + 2 = a.cycle
  lastBufDepth : a.lastBufDepth = k
  tx : ∃ cycle, a.tx = some (cycle, k) ∧ cycle + 1 = a.cycle
  reply : a.reply = some (a.cycle, k)

theorem Settled.full {k : ℕ} (h : a.Settled target k) : target ≤ a.lastBufDepth := by
  rw [h.lastBufDepth]
  exact h.target_lt.le

theorem Settled.finds {k : ℕ} (h : a.Settled target k) (lost : Bool) :
    (a.afterFrame target cap lost).finds = true := by
  obtain ⟨k, rfl⟩ : ∃ j, k = j + 1 := ⟨k - 1, by have := h.target_lt; omega⟩
  have hr : (a.afterFrame target cap lost).ring.head? = some (a.cycle + 1) := by
    simp only [afterFrame, h.ring, Tags.ahead_cons]
    split_ifs <;> simp
  obtain ⟨tl, hr⟩ := List.head?_eq_some_iff.mp hr
  rw [Stream.finds, hr]
  exact Tags.ready_due

theorem Settled.round {k : ℕ} (h : a.Settled target k) (hcap : 0 < cap) (hpos : 0 < a.cycle.toNat)
    (hwrap : a.cycle.toNat + k + 1 < 2 ^ 32) : (a.round target cap false).Settled target k := by
  have hk := h.target_lt
  have hd : motionRingDepth = 32 := rfl
  have hlt := h.lt_depth
  have hnext : a.resync = a.nextTag := by
    have hl : a.lastCycleIndex + 1 = a.cycle - 1 := by
      have := h.lastCycleIndex
      grind
    rw [resync, if_neg]
    have h1 : (1 : UInt32).toNat = 1 := rfl
    rw [hl, h.nextTag, UInt32.lt_iff_toNat_lt, UInt32.toNat_add, UInt32.toNat_ofNat',
      UInt32.toNat_sub_of_le _ _ (UInt32.le_iff_toNat_le.mpr (by omega))]
    omega
  have hring : (a.afterFrame target cap false).ring = Tags.ahead a.cycle (k + 1) := by
    simp only [afterFrame, Bool.false_eq_true, ↓reduceIte, sent_full hcap h.primed h.full, h.ring, hnext, h.nextTag,
      Tags.length_ahead, Tags.ahead_concat]
    rw [List.take_of_length_le (by simp; omega)]
  have hrest : Tags.rest (a.afterFrame target cap false).ring (a.cycle + 1) = Tags.ahead (a.cycle + 1) k := by
    rw [hring, Tags.ahead_cons, Tags.rest_due]
  obtain ⟨cycle, htx, hcycle⟩ := h.tx
  refine ⟨hk, hlt, hrest, ?_, rfl, ?_, ?_, ⟨a.cycle, h.reply, rfl⟩, ?_⟩
  · change a.resync + UInt32.ofNat (a.want target cap) = a.cycle + 1 + UInt32.ofNat (k + 1)
    rw [hnext, h.nextTag, want_full hcap h.primed h.full]
    simp only [UInt32.ofNat_add]
    grind
  · change (a.tx.map Prod.fst).getD a.lastCycleIndex + 2 = a.cycle + 1
    rw [htx, ← hcycle]
    simp only [Option.map_some, Option.getD_some]
    grind
  · change (a.tx.map Prod.snd).getD a.lastBufDepth = k
    rw [htx]
    rfl
  · change some (a.cycle + 1, min (Tags.rest (a.afterFrame target cap false).ring (a.cycle + 1)).length 255) = _
    rw [hrest, Tags.length_ahead, min_eq_left (by omega)]
    rfl

end Stream

end EcMaster

import EcMaster.RingReplies

namespace EcMaster

open Library.Run Library.Segment

namespace Shared

variable {L : Layout}

def Known (s : Shared L) (i : ℕ) (index : UInt8) : Prop := ∃ n, s.numbers[i]? = some n ∧ index = UInt8.ofNat n

structure Numbered (s : Shared L) : Prop where
  srcMac : s.device.srcMac.length = 6
  index : s.index = UInt8.ofNat s.allocated
  wire : List.Forall₂ (fun n (f : List UInt8) => f[17]? = some (UInt8.ofNat n)) s.numbers s.device.wire
  ascending : s.numbers.Pairwise (· < ·)
  below : ∀ n ∈ s.numbers, n < s.allocated
  rx : List.Forall₂ (fun i (r : List UInt8) => ∃ index, s.Known i index ∧ r[17]? = some index) s.tags s.device.rx

/-- Whoever waits knows its own frame. -/
structure Sound (s : Shared L) : Prop extends Numbered s where
  asks : ∀ q, s.exchange.tx = some q → s.exchange.pump.sent = true ∧ s.Known s.opFrame s.exchange.pump.expected
  awaits : ∀ c, s.cyclic = some c → c.outstanding = true → s.Known s.tickFrame c.expectedIndex

theorem Known.append {s : Shared L} {i : ℕ} {index : UInt8} (h : s.Known i index) {s' : Shared L} {ns : List ℕ}
    (hn : s'.numbers = s.numbers ++ ns) : s'.Known i index := by
  obtain ⟨n, hi, rfl⟩ := h
  refine ⟨n, ?_, rfl⟩
  rw [hn, List.getElem?_append_left (List.getElem?_eq_some_iff.mp hi).1]
  exact hi

theorem Numbered.unique {s : Shared L} (h : s.Numbered) {i j : ℕ} {index : UInt8} (hi : s.Known i index)
    (hj : s.Known j index) (hn : s.Near i j) : i = j := by
  obtain ⟨m, hm, rfl⟩ := hi
  obtain ⟨n, hn', he⟩ := hj
  obtain ⟨h₁, h₂⟩ := hn m n hm hn'
  have hmod : m % 256 = n % 256 := by
    have hc := congrArg UInt8.toNat he
    simpa using hc
  have hmn : m = n := by omega
  exact (List.getElem?_inj (List.getElem?_eq_some_iff.mp hm).1 (h.ascending.imp Nat.ne_of_lt)).mp (by rw [hm, hn', hmn])

theorem Numbered.length {s : Shared L} (h : s.Numbered) : s.numbers.length = s.device.wire.length := h.wire.length_eq

theorem Numbered.known_next {s : Shared L} (h : s.Numbered) {s' : Shared L} (hn : s'.numbers = s.numbers ++ [s.allocated]) :
    s'.Known s.device.wire.length s.index :=
  ⟨s.allocated, by rw [hn, ← h.length, List.getElem?_concat_length], h.index⟩

theorem moved_numbers (s : Shared L) (device : Device) (index : UInt8) (count : ℕ) :
    ∃ ns, (s.moved device index count).numbers = s.numbers ++ ns := by
  simp only [moved]
  split_ifs
  · exact ⟨_, rfl⟩
  · exact ⟨[], (List.append_nil _).symm⟩

theorem grew_append (s : Shared L) (device : Device) (e : List UInt8) (h : device.wire = s.device.wire ++ [e]) :
    s.grew device = true := by
  simp [grew, h]

theorem not_grew (s : Shared L) (device : Device) (h : device.wire = s.device.wire) : s.grew device = false := by
  simp [grew, h]

theorem forall₂_concat {α β : Type} {R : α → β → Prop} {xs : List α} {ys : List β} {x : α} {y : β}
    (h : List.Forall₂ R xs ys) (hxy : R x y) : List.Forall₂ R (xs ++ [x]) (ys ++ [y]) :=
  List.rel_append h (.cons hxy .nil)

theorem Numbered.moved {s : Shared L} (h : s.Numbered) {device : Device} {index : UInt8} {count : ℕ}
    (hl : s.device.Leaves device s.index) (hi : index = s.index + UInt8.ofNat count)
    (hc : s.grew device = true → 0 < count) : (s.moved device index count).Numbered := by
  have hknown : ∀ {i index'}, s.Known i index' → (s.moved device index count).Known i index' := fun hk =>
    hk.append (s.moved_numbers device index count).choose_spec
  have hrx : List.Forall₂ (fun i (r : List UInt8) => ∃ index', (s.moved device index count).Known i index' ∧
      r[17]? = some index') (s.moved device index count).tags device.rx := by
    obtain ⟨k, hk, hd⟩ := hl.rx
    have hconsumed : s.consumed device = k := by rw [consumed, hd, List.length_drop]; omega
    change List.Forall₂ _ (s.tags.drop (s.consumed device)) _
    rw [hconsumed, hd]
    exact (List.forall₂_drop k h.rx).imp fun _ _ ⟨index', hk, hr⟩ => ⟨index', hknown hk, hr⟩
  have hindex : index = UInt8.ofNat (s.allocated + count) := by rw [hi, h.index, UInt8.ofNat_add]
  rcases hl.wire with hw | ⟨e, he, hw⟩
  · have hns : (s.moved device index count).numbers = s.numbers := by simp [Shared.moved, s.not_grew device hw]
    refine ⟨hl.srcMac ▸ h.srcMac, hindex, ?_, ?_, ?_, hrx⟩
    · rw [hns]
      change List.Forall₂ _ _ device.wire
      rw [hw]
      exact h.wire
    · rw [hns]
      exact h.ascending
    · rw [hns]
      exact fun n hn => lt_of_lt_of_le (h.below n hn) (Nat.le_add_right _ _)
  · have hg := s.grew_append device e hw
    have hns : (s.moved device index count).numbers = s.numbers ++ [s.allocated] := by simp [Shared.moved, hg]
    refine ⟨hl.srcMac ▸ h.srcMac, hindex, ?_, ?_, ?_, hrx⟩
    · rw [hns]
      change List.Forall₂ _ _ device.wire
      rw [hw]
      exact forall₂_concat h.wire (by rw [he, h.index])
    · rw [hns]
      refine List.pairwise_append.mpr ⟨h.ascending, List.pairwise_singleton _ _, fun n hn m hm => ?_⟩
      rw [List.mem_singleton.mp hm]
      exact h.below n hn
    · rw [hns]
      intro n hn
      change n < s.allocated + count
      have hpos := hc hg
      rcases List.mem_append.mp hn with hn | hn
      · exact lt_of_lt_of_le (h.below n hn) (Nat.le_add_right _ _)
      · rw [List.mem_singleton.mp hn]
        omega

theorem Sound.init (L : Layout) {srcMac : List UInt8} (h : srcMac.length = 6) : (Shared.init L srcMac).Sound :=
  ⟨⟨h, rfl, .nil, .nil, nofun, .nil⟩, nofun, nofun⟩

theorem Sound.arrive {s : Shared L} (h : s.Sound) (sent : ℕ) (reply : List UInt8) : (s.arrive sent reply).Sound := by
  rw [Shared.arrive]
  cases hf : s.device.wire[sent]? with
  | none => exact h
  | some frame =>
    dsimp only
    split_ifs with hr
    · refine ⟨⟨h.srcMac, h.index, h.wire, h.ascending, h.below, forall₂_concat h.rx ?_⟩, h.asks, h.awaits⟩
      obtain ⟨hlt, hframe⟩ := List.getElem?_eq_some_iff.mp hf
      have hlt' : sent < s.numbers.length := by rw [h.length]; exact hlt
      have hn := h.wire.get hlt' hlt
      simp only [List.get_eq_getElem, hframe] at hn
      exact ⟨_, ⟨_, List.getElem?_eq_getElem hlt', rfl⟩, hr.1.index.trans hn⟩
    · exact h

end Shared

end EcMaster

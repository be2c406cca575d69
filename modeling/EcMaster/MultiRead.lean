import EcMaster.DcStart

namespace EcMaster

open Library.Segment Library.LittleEndian

structure DatagramAt (frame : List UInt8) (off : ℕ) (r : Reply) (more : Bool) : Prop where
  inside : off + 12 + r.data.length ≤ frame.length
  command : r.command = frame.getD off 0
  index : r.index = frame.getD (off + 1) 0
  length : r.data.length = (u16Le (slice frame (off + 6) 2) &&& 0x07FF).toNat
  more_iff : more = true ↔ u16Le (slice frame (off + 6) 2) &&& 0x8000 ≠ 0
  data : r.data = slice frame (off + 10) r.data.length
  workingCounter : r.workingCounter = u16Le (slice frame (off + 10 + r.data.length) 2)

def ChainAt (frame : List UInt8) : ℕ → List Reply → Prop
  | _, [] => True
  | off, r :: rs =>
    ∃ more, DatagramAt frame off r more ∧ (rs ≠ [] → more = true) ∧ ChainAt frame (off + 12 + r.data.length) rs

def Reads (frame : List UInt8) : ℕ → List Reply → Prop
  | _, [] => True
  | off, r :: rs =>
    ∃ more, DatagramAt frame off r more ∧ Reads frame (if more then off + 12 + r.data.length else 0) rs

def Full (size : ℕ) (r : Reply) : Prop := r.workingCounter = 1 ∧ size ≤ r.data.length

/-- The chain ends too early, and the reads that go on at the front of the frame meet full answers all the same. -/
def Rereads (frame : List UInt8) (size n : ℕ) : Prop :=
  ∃ rs, rs.length = n ∧ (∀ r ∈ rs, Full size r) ∧ Reads frame ecFrameHeaderSize rs ∧ ¬ ChainAt frame ecFrameHeaderSize rs

def portsOf (data : List UInt8) : List UInt32 :=
  [u32Le (slice data 0 4), u32Le (slice data 4 4), u32Le (slice data 8 4), u32Le (slice data 12 4)]

def TwoChecked (frame : List UInt8) : Prop :=
  ∀ v, parseTwoPortReads frame = .ok v → ∃ d₀ d₁, ChainAt frame ecFrameHeaderSize [d₀, d₁] ∧ Full 16 d₀ ∧ Full 16 d₁ ∧
    v = (portsOf d₀.data, portsOf d₁.data)

def ThreeChecked (frame : List UInt8) : Prop :=
  ∀ v, parseThreeU64Reads frame = .ok v → ∃ d₀ d₁ d₂, ChainAt frame ecFrameHeaderSize [d₀, d₁, d₂] ∧ Full 8 d₀ ∧
    Full 8 d₁ ∧ Full 8 d₂ ∧ v = ⟨u64Le (d₀.data.take 8), u64Le (d₁.data.take 8), u64Le (d₂.data.take 8)⟩

theorem parseAt_iff {frame : List UInt8} {off : ℕ} {r : Reply} {next : ℕ} :
    parseAt frame off = some (r, next) ↔
      ∃ more : Bool, DatagramAt frame off r more ∧ next = if more then off + 12 + r.data.length else 0 := by
  rw [parseAt]
  have hh : ecDatagramHeaderSize = 10 := rfl
  have hf : ecDatagramFooterSize = 2 := rfl
  dsimp only
  generalize hw : u16Le (slice frame (off + 6) 2) = w
  constructor
  · intro h
    by_cases h₁ : frame.length < off + ecDatagramHeaderSize + ecDatagramFooterSize
    · rw [if_pos h₁] at h
      cases h
    by_cases h₂ : frame.length < off + ecDatagramHeaderSize + (w &&& 0x07FF).toNat + ecDatagramFooterSize
    · rw [if_neg h₁, if_pos h₂] at h
      cases h
    rw [if_neg h₁, if_neg h₂] at h
    simp only [ecDatagramHeaderSize, ecDatagramFooterSize] at h
    obtain ⟨rfl, rfl⟩ := Prod.mk.inj (Option.some.inj h)
    have hlen : (slice frame (off + 10) (w &&& 0x07FF).toNat).length = (w &&& 0x07FF).toNat := by
      rw [length_slice]
      omega
    refine ⟨decide (w &&& 0x8000 ≠ 0), ⟨?_, rfl, rfl, ?_, ?_, ?_, ?_⟩, ?_⟩
    · dsimp only
      omega
    · rw [hw]
      exact hlen
    · rw [hw]
      exact decide_eq_true_iff
    · rw [hlen]
    · rw [hlen]
    · dsimp only
      rw [hlen]
      by_cases hm : w &&& 0x8000 ≠ 0
      · rw [if_pos hm, if_pos (decide_eq_true hm)]
        omega
      · rw [if_neg hm, if_neg (by simpa using hm)]
  · rintro ⟨more, h, rfl⟩
    have hlen := h.length
    rw [hw] at hlen
    have hin := h.inside
    have hmore := h.more_iff
    rw [hw] at hmore
    have h₁ : ¬ frame.length < off + ecDatagramHeaderSize + ecDatagramFooterSize := by omega
    have h₂ : ¬ frame.length < off + ecDatagramHeaderSize + (w &&& 0x07FF).toNat + ecDatagramFooterSize := by omega
    rw [if_neg h₁, if_neg h₂]
    obtain ⟨command, index, workingCounter, data⟩ := r
    refine congrArg some (Prod.ext ?_ ?_)
    · have hc := h.command
      have hi := h.index
      have hd := h.data
      have hk := h.workingCounter
      dsimp only at hc hi hd hk hlen
      rw [hh, ← hc, ← hi, ← hlen, ← hd, ← hk]
    · dsimp only at hlen ⊢
      cases more with
      | false => rw [if_neg fun hm => absurd (hmore.mpr hm) (by decide), if_neg (by decide)]
      | true =>
        rw [if_pos (hmore.mp rfl), if_pos rfl]
        omega

theorem DatagramAt.unique {frame : List UInt8} {off : ℕ} {r r' : Reply} {more more' : Bool}
    (h : DatagramAt frame off r more) (h' : DatagramAt frame off r' more') : r = r' ∧ more = more' := by
  have hp := (parseAt_iff.mpr ⟨more, h, rfl⟩).symm.trans (parseAt_iff.mpr ⟨more', h', rfl⟩)
  exact ⟨congrArg Prod.fst (Option.some.inj hp), Bool.eq_iff_iff.mpr (h.more_iff.trans h'.more_iff.symm)⟩

theorem Reads.unique {frame : List UInt8} {rs rs' : List Reply} {off : ℕ} (h : Reads frame off rs)
    (h' : Reads frame off rs') (hl : rs.length = rs'.length) : rs = rs' := by
  induction rs generalizing off rs' with
  | nil => exact (List.length_eq_zero_iff.mp hl.symm).symm
  | cons r rs ih =>
    cases rs' with
    | nil => exact absurd hl (by simp)
    | cons r' rs' =>
      obtain ⟨more, hd, hr⟩ := h
      obtain ⟨more', hd', hr'⟩ := h'
      obtain ⟨rfl, rfl⟩ := hd.unique hd'
      rw [ih hr hr' (Nat.succ.inj hl)]

theorem ChainAt.reads {frame : List UInt8} {rs : List Reply} {off : ℕ} (h : ChainAt frame off rs) :
    Reads frame off rs := by
  induction rs generalizing off with
  | nil => trivial
  | cons r rs ih =>
    obtain ⟨more, hd, hm, hc⟩ := h
    refine ⟨more, hd, ?_⟩
    cases rs with
    | nil => trivial
    | cons r' rs =>
      rw [hm (List.cons_ne_nil _ _)]
      exact ih hc

theorem nextDatagram_iff {frame : List UInt8} {off : ℕ} {d : Reply × ℕ} :
    nextDatagram frame off = .ok d ↔ parseAt frame off = some d := by
  refine ⟨nextDatagram_ok, fun h => ?_⟩
  rw [nextDatagram, h]

theorem readPorts_iff {data : List UInt8} {ports : List UInt32} :
    readPorts data = .ok ports ↔ 16 ≤ data.length ∧ ports = portsOf data := by
  rw [readPorts]
  split_ifs with h
  · exact iff_of_false nofun fun he => absurd h (not_lt.mpr he.1)
  · rw [Except.ok.injEq, portsOf]
    exact ⟨fun he => ⟨not_lt.mp h, he.symm⟩, fun he => he.2.symm⟩

theorem readU64_iff {data : List UInt8} {t : UInt64} :
    readU64 data = .ok t ↔ 8 ≤ data.length ∧ t = u64Le (data.take 8) := by
  refine ⟨readU64_ok, fun ⟨hl, ht⟩ => ?_⟩
  rw [readU64, if_neg (not_lt.mpr hl), ht]

theorem except_bind_iff {ε α β : Type} {x : Except ε α} {f : α → Except ε β} {b : β} :
    x >>= f = .ok b ↔ ∃ a, x = .ok a ∧ f a = .ok b := by
  refine ⟨except_bind_ok, ?_⟩
  rintro ⟨a, rfl, h⟩
  exact h

theorem parseTwoPortReads_iff {frame : List UInt8} {v : List UInt32 × List UInt32} :
    parseTwoPortReads frame = .ok v ↔ ∃ d₀ d₁, Reads frame ecFrameHeaderSize [d₀, d₁] ∧ Full 16 d₀ ∧ Full 16 d₁ ∧
      v = (portsOf d₀.data, portsOf d₁.data) := by
  rw [parseTwoPortReads]
  simp only [except_bind_iff, nextDatagram_iff, Prod.exists, parseAt_iff, Reads, and_true]
  constructor
  · rintro ⟨d₀, n₁, ⟨m₀, h₀, rfl⟩, d₁, n₂, ⟨m₁, h₁, rfl⟩, h⟩
    split_ifs at h with hw
    obtain ⟨hw₀, hw₁⟩ := not_or.mp hw
    obtain ⟨p₀, hp₀, p₁, hp₁, hv⟩ := by simpa only [except_bind_iff] using h
    obtain ⟨hl₀, rfl⟩ := readPorts_iff.mp hp₀
    obtain ⟨hl₁, rfl⟩ := readPorts_iff.mp hp₁
    exact ⟨d₀, d₁, ⟨m₀, h₀, m₁, h₁⟩, ⟨not_not.mp hw₀, hl₀⟩, ⟨not_not.mp hw₁, hl₁⟩, (Except.ok.inj hv).symm⟩
  · rintro ⟨d₀, d₁, ⟨m₀, h₀, m₁, h₁⟩, ⟨hw₀, hl₀⟩, ⟨hw₁, hl₁⟩, rfl⟩
    refine ⟨d₀, _, ⟨m₀, h₀, rfl⟩, d₁, _, ⟨m₁, h₁, rfl⟩, ?_⟩
    rw [if_neg (by simp [hw₀, hw₁])]
    exact except_bind_iff.mpr ⟨_, readPorts_iff.mpr ⟨hl₀, rfl⟩, except_bind_iff.mpr ⟨_, readPorts_iff.mpr ⟨hl₁, rfl⟩, rfl⟩⟩

theorem parseThreeU64Reads_iff {frame : List UInt8} {v : DcTimes} :
    parseThreeU64Reads frame = .ok v ↔ ∃ d₀ d₁ d₂, Reads frame ecFrameHeaderSize [d₀, d₁, d₂] ∧ Full 8 d₀ ∧ Full 8 d₁ ∧
      Full 8 d₂ ∧ v = ⟨u64Le (d₀.data.take 8), u64Le (d₁.data.take 8), u64Le (d₂.data.take 8)⟩ := by
  rw [parseThreeU64Reads]
  simp only [except_bind_iff, nextDatagram_iff, Prod.exists, parseAt_iff, Reads, and_true]
  constructor
  · rintro ⟨d₀, n₁, ⟨m₀, h₀, rfl⟩, d₁, n₂, ⟨m₁, h₁, rfl⟩, d₂, n₃, ⟨m₂, h₂, rfl⟩, h⟩
    split_ifs at h with hw
    simp only [not_or, not_not] at hw
    obtain ⟨t₀, ht₀, t₁, ht₁, t₂, ht₂, hv⟩ := by simpa only [except_bind_iff] using h
    obtain ⟨hl₀, rfl⟩ := readU64_iff.mp ht₀
    obtain ⟨hl₁, rfl⟩ := readU64_iff.mp ht₁
    obtain ⟨hl₂, rfl⟩ := readU64_iff.mp ht₂
    exact ⟨d₀, d₁, d₂, ⟨m₀, h₀, m₁, h₁, m₂, h₂⟩, ⟨hw.1, hl₀⟩, ⟨hw.2.1, hl₁⟩, ⟨hw.2.2, hl₂⟩, (Except.ok.inj hv).symm⟩
  · rintro ⟨d₀, d₁, d₂, ⟨m₀, h₀, m₁, h₁, m₂, h₂⟩, ⟨hw₀, hl₀⟩, ⟨hw₁, hl₁⟩, ⟨hw₂, hl₂⟩, rfl⟩
    refine ⟨d₀, _, ⟨m₀, h₀, rfl⟩, d₁, _, ⟨m₁, h₁, rfl⟩, d₂, _, ⟨m₂, h₂, rfl⟩, ?_⟩
    rw [if_neg (by simp [hw₀, hw₁, hw₂])]
    exact except_bind_iff.mpr ⟨_, readU64_iff.mpr ⟨hl₀, rfl⟩, except_bind_iff.mpr ⟨_, readU64_iff.mpr ⟨hl₁, rfl⟩,
      except_bind_iff.mpr ⟨_, readU64_iff.mpr ⟨hl₂, rfl⟩, rfl⟩⟩⟩

theorem Reads.chainAt {frame : List UInt8} {rs rs' : List Reply} (hr : Reads frame ecFrameHeaderSize rs)
    (h : ChainAt frame ecFrameHeaderSize rs') (hl : rs.length = rs'.length) : ChainAt frame ecFrameHeaderSize rs := by
  rw [hr.unique h.reads hl]
  exact h

theorem multiReads_checked_iff (frame : List UInt8) : (TwoChecked frame ↔ ¬ Rereads frame 16 2) ∧
    (ThreeChecked frame ↔ ¬ Rereads frame 8 3) := by
  constructor
  · constructor
    · rintro h ⟨rs, hl, hfull, hr, hn⟩
      obtain ⟨d₀, d₁, rfl⟩ := List.length_eq_two.mp hl
      obtain ⟨e₀, e₁, hc, -⟩ := h _ (parseTwoPortReads_iff.mpr ⟨d₀, d₁, hr, hfull d₀ (by simp), hfull d₁ (by simp), rfl⟩)
      exact hn (hr.chainAt hc rfl)
    · intro h v hv
      obtain ⟨d₀, d₁, hr, h₀, h₁, rfl⟩ := parseTwoPortReads_iff.mp hv
      refine ⟨d₀, d₁, ?_, h₀, h₁, rfl⟩
      by_contra hn
      exact h ⟨[d₀, d₁], rfl, by simp [h₀, h₁], hr, hn⟩
  · constructor
    · rintro h ⟨rs, hl, hfull, hr, hn⟩
      obtain ⟨d₀, d₁, d₂, rfl⟩ := List.length_eq_three.mp hl
      obtain ⟨e₀, e₁, e₂, hc, -⟩ := h _ (parseThreeU64Reads_iff.mpr ⟨d₀, d₁, d₂, hr, hfull d₀ (by simp),
        hfull d₁ (by simp), hfull d₂ (by simp), rfl⟩)
      exact hn (hr.chainAt hc rfl)
    · intro h v hv
      obtain ⟨d₀, d₁, d₂, hr, h₀, h₁, h₂, rfl⟩ := parseThreeU64Reads_iff.mp hv
      refine ⟨d₀, d₁, d₂, ?_, h₀, h₁, h₂, rfl⟩
      by_contra hn
      exact h ⟨[d₀, d₁, d₂], rfl, by simp [h₀, h₁, h₂], hr, hn⟩

def oneAnswer : List UInt8 := [0x1C, 0x10, 0x04, 0, 1, 0x10, 0x10, 0, 16, 0, 0, 0] ++ List.replicate 14 0 ++ [1, 0, 1, 0]

theorem oneAnswer_accepted : ∃ v, parseTwoPortReads oneAnswer = .ok v ∧
    ¬ ∃ d₀ d₁, ChainAt oneAnswer ecFrameHeaderSize [d₀, d₁] := by
  refine ⟨_, rfl, ?_⟩
  rintro ⟨d₀, d₁, more, h, hm, -⟩
  exact absurd (h.more_iff.mp (hm (by simp))) (by decide)

end EcMaster

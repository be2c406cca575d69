import EcMaster.DatagramWalk

namespace EcMaster

open Library.Segment Library.LittleEndian

/-- The arguments of `build` and `append`. -/
structure Request where
  index : UInt8
  command : Command
  adp : UInt16
  ado : UInt16
  payload : List UInt8

namespace Request

def datagram (r : Request) : Datagram := ⟨r.command.code, r.index, r.adp, r.ado, r.payload⟩

def build (r : Request) (buf : List UInt8) : List UInt8 × ℕ :=
  EcMaster.build buf r.index r.command r.adp r.ado r.payload

def append (r : Request) (buf : List UInt8) : List UInt8 × ℕ :=
  EcMaster.append buf r.index r.command r.adp r.ado r.payload

end Request

def packed (buf : List UInt8) (first : Request) (rest : List Request) : List UInt8 × ℕ :=
  rest.foldl (fun f r => r.append f.1) (first.build buf)

def room (rs : List Request) : ℕ := (rs.map fun r => 12 + r.payload.length).sum

/-- A frame reads back as the datagrams that went into it. -/
structure ReadsBack (f : List UInt8 × ℕ) (rs : List Request) : Prop where
  walk : walk (f.1.take f.2) = laidOut 2 (rs.map Request.datagram)
  length : f.2 = max 46 (2 + room rs)
  region : (u16Le (slice f.1 0 2) &&& 0x07FF).toNat = room rs
  type : u16Le (slice f.1 0 2) >>> 12 = 1
  parse : parse (f.1.take f.2) = rs.head?.map fun r => ⟨r.command.code, r.index, 0, r.payload⟩

/-- Of the datagrams already in a frame only the more-follows bit of the last one changes. -/
def KeepsEarlier (before after : List UInt8) (rs : List Request) : Prop :=
  ∀ i, 2 ≤ i → i < 2 + room rs →
    after[i]? = if i = 2 + room rs.dropLast + 7 then before[i]?.map (· ||| 0x80) else before[i]?

@[simp] theorem packed_concat (buf : List UInt8) (first : Request) (rest : List Request) (r : Request) :
    packed buf first (rest ++ [r]) = r.append (packed buf first rest).1 := by
  rw [packed, List.foldl_append]
  rfl

theorem room_concat (rs : List Request) (r : Request) : room (rs ++ [r]) = room rs + (12 + r.payload.length) := by
  simp [room]

theorem length_chain_requests (rs : List Request) (last : Request) :
    (chain (rs.map Request.datagram) last.datagram).length = room (rs ++ [last]) := by
  induction rs with
  | nil => simp [chain, room, Request.datagram, Nat.add_comm]
  | cons r rs ih =>
    rw [List.map_cons, chain_cons, List.length_append, ih, Datagram.length_bytes, List.cons_append]
    simp [room, Request.datagram]
    omega

@[simp] theorem length_packed (buf : List UInt8) (first : Request) (rest : List Request) :
    (packed buf first rest).1.length = buf.length := by
  induction rest using List.reverseRecOn with
  | nil => exact length_build _ _ _ _ _ _
  | append_singleton rest r ih =>
    rw [packed_concat]
    exact (length_append _ _ _ _ _ _).trans ih

theorem packed_encodes {buf : List UInt8} (first : Request) (rest : List Request)
    (hs : room (first :: rest) ≤ 2047) (hb : 2 + room (first :: rest) ≤ buf.length) :
    ∃ init last, init ++ [last] = first :: rest ∧
      Encodes (packed buf first rest) (init.map Request.datagram) last.datagram := by
  induction rest using List.reverseRecOn with
  | nil =>
    refine ⟨[], first, rfl, build_encodes _ _ _ _ _ ?_⟩
    simp only [room, List.map_cons, List.map_nil, List.sum_cons, List.sum_nil] at hb
    omega
  | append_singleton rest r ih =>
    rw [← List.cons_append, room_concat] at hs hb
    obtain ⟨init, last, he, henc⟩ := ih (by omega) (by omega)
    have hl := length_chain_requests init last
    rw [he] at hl
    refine ⟨init ++ [last], r, by rw [he, List.cons_append], ?_⟩
    rw [packed_concat, List.map_append]
    exact append_encodes henc.starts _ _ _ _ _ (by omega) (by rw [length_packed]; omega)

theorem frameHdr_type {n : ℕ} : frameHdr n >>> 12 = 1 := by
  have hm : (UInt16.ofNat n &&& 0x07FF).toNat < 2048 := by
    rw [toNat_and_mask]
    omega
  apply UInt16.toNat_inj.mp
  rw [frameHdr, UInt16.toNat_shiftRight, UInt16.toNat_or]
  change ((UInt16.ofNat n &&& 0x07FF).toNat ||| 4096) >>> 12 = 1
  rw [Nat.shiftRight_eq_div_pow, Nat.or_div_two_pow, Nat.div_eq_of_lt (by omega)]
  rfl

theorem encodes_readsBack {f : List UInt8 × ℕ} {init : List Request} {last : Request}
    (h : Encodes f (init.map Request.datagram) last.datagram) (hs : room (init ++ [last]) ≤ 2047) :
    ReadsBack f (init ++ [last]) := by
  have hl := length_chain_requests init last
  have hwalk := h.walk (by omega)
  have hmap : (init ++ [last]).map Request.datagram = init.map Request.datagram ++ [last.datagram] := by simp
  obtain ⟨tail, htail⟩ := h.starts
  have hhdr : slice f.1 0 2 = leBytes 2 (frameHdr (room (init ++ [last]))).toNat := by
    rw [← htail, frameBytes, hl]
    rfl
  refine ⟨by rw [hwalk, hmap], ?_, ?_, ?_, ?_⟩
  · rw [h.length_eq, length_frameBytes, hl, ecMinEcatFrame, max_comm]
  · rw [hhdr, u16Le_leBytes, frameHdr_length (by omega)]
  · rw [hhdr, u16Le_leBytes, frameHdr_type]
  · rw [← hmap] at hwalk
    cases hrs : init ++ [last] with
    | nil => exact absurd hrs (by simp)
    | cons r rs =>
      rw [hrs, List.map_cons, laidOut] at hwalk
      exact parse_of_walk hwalk

theorem leBytes_more (plen : ℕ) :
    leBytes 2 (moreWord plen true).toNat = [UInt8.ofNat (moreWord plen false).toNat,
      UInt8.ofNat ((moreWord plen false).toNat / 256) ||| 0x80] := by
  have hm : (moreWord plen true).toNat = (moreWord plen false).toNat ||| 0x8000 := by
    rw [← moreWord_true, UInt16.toNat_or]
    rfl
  have hlow : ((moreWord plen false).toNat ||| 0x8000) % 2 ^ 8 = (moreWord plen false).toNat % 2 ^ 8 := by
    rw [Nat.or_mod_two_pow]
    exact Nat.or_zero _
  have hhigh : ((moreWord plen false).toNat ||| 0x8000) / 2 ^ 8 = (moreWord plen false).toNat / 2 ^ 8 ||| 0x80 :=
    Nat.or_div_two_pow
  rw [leBytes, leBytes, leBytes, hm]
  congr 1
  · apply UInt8.toNat_inj.mp
    rw [UInt8.toNat_ofNat', UInt8.toNat_ofNat', hlow]
  · congr 1
    apply UInt8.toNat_inj.mp
    rw [UInt8.toNat_ofNat', UInt8.toNat_or, UInt8.toNat_ofNat']
    change ((moreWord plen false).toNat ||| 0x8000) / 2 ^ 8 % 2 ^ 8 = _
    rw [hhigh, Nat.or_mod_two_pow]
    rfl

theorem getElem?_bytes_more (d : Datagram) (j : ℕ) :
    (d.bytes true)[j]? = if j = 7 then (d.bytes false)[j]?.map (· ||| 0x80) else (d.bytes false)[j]? := by
  have hb : d.bytes true = [d.command, d.index] ++ (leBytes 2 d.adp.toNat ++ (leBytes 2 d.ado.toNat ++
      ([UInt8.ofNat (moreWord d.data.length false).toNat,
        UInt8.ofNat ((moreWord d.data.length false).toNat / 256) ||| 0x80] ++
          (leBytes 2 0 ++ (d.data ++ leBytes 2 0))))) := by
    rw [Datagram.bytes, leBytes_more]
  rw [hb]
  rcases Nat.lt_or_ge j 8 with hj | hj
  · interval_cases j <;> rfl
  · obtain ⟨j, rfl⟩ := Nat.exists_eq_add_of_le' hj
    rw [if_neg (by omega)]
    rfl

theorem keepsEarlier_of_front {before after : List UInt8} {init : List Request} {last new : Request}
    (hb : frameBytes (init.map Request.datagram) last.datagram <+: before)
    (ha : frameBytes ((init ++ [last]).map Request.datagram) new.datagram <+: after) :
    KeepsEarlier before after (init ++ [last]) := by
  obtain ⟨tb, rfl⟩ := hb
  obtain ⟨ta, rfl⟩ := ha
  intro i h₂ hi
  set front := (init.map Request.datagram).flatMap fun d => d.bytes true with hfront
  have hroom : front.length = room init := by
    rw [hfront, room, List.length_flatMap, List.map_map]
    congr 1
    apply List.map_congr_left
    intro r _
    simp [Request.datagram, Nat.add_comm]
  rw [room_concat] at hi
  rw [List.dropLast_concat]
  have hbefore : frameBytes (init.map Request.datagram) last.datagram ++ tb =
      leBytes 2 (frameHdr (chain (init.map Request.datagram) last.datagram).length).toNat ++
        (front ++ (last.datagram.bytes false ++ tb)) := by
    simp [frameBytes, chain, hfront]
  have hafter : frameBytes ((init ++ [last]).map Request.datagram) new.datagram ++ ta =
      leBytes 2 (frameHdr (chain ((init ++ [last]).map Request.datagram) new.datagram).length).toNat ++
        (front ++ (last.datagram.bytes true ++ (new.datagram.bytes false ++ ta))) := by
    simp [frameBytes, chain, hfront]
  have hlast : ∀ more, (last.datagram.bytes more).length = 12 + last.payload.length := by
    intro more
    rw [Datagram.length_bytes, Nat.add_comm]
    rfl
  have hskip : ∀ v (xs : List UInt8), (leBytes 2 v ++ xs)[i]? = xs[i - 2]? := by
    intro v xs
    rw [List.getElem?_append_right (by rw [length_leBytes]; exact h₂), length_leBytes]
  rw [hbefore, hafter, hskip, hskip]
  by_cases hin : i - 2 < front.length
  · rw [List.getElem?_append_left hin, List.getElem?_append_left hin, if_neg (by omega)]
  · have hinside : ∀ more xs, (front ++ (last.datagram.bytes more ++ xs))[i - 2]? =
        (last.datagram.bytes more)[i - 2 - front.length]? := by
      intro more xs
      rw [List.getElem?_append_right (not_lt.mp hin), List.getElem?_append_left (by rw [hlast]; omega)]
    rw [hinside, hinside, getElem?_bytes_more]
    have hiff : i - 2 - front.length = 7 ↔ i = 2 + room init + 7 := by omega
    simp only [hiff]

/-- A frame built from any requests reads back as them, and its last append kept the ones before it. -/
theorem codec_roundTrip (buf : List UInt8) (first : Request) (rest : List Request)
    (hs : room (first :: rest) ≤ 2047) (hb : max 46 (2 + room (first :: rest)) ≤ buf.length) :
    ReadsBack (packed buf first rest) (first :: rest) ∧ ∀ init new, rest = init ++ [new] →
      KeepsEarlier (packed buf first init).1 (packed buf first rest).1 (first :: init) := by
  have hbuf : 2 + room (first :: rest) ≤ buf.length := (le_max_right _ _).trans hb
  constructor
  · obtain ⟨init, last, he, henc⟩ := packed_encodes first rest hs hbuf
    rw [← he] at hs ⊢
    exact encodes_readsBack henc hs
  · rintro init new rfl
    rw [← List.cons_append, room_concat] at hs hbuf
    have hfits : 2 + room (first :: init) ≤ buf.length := by omega
    obtain ⟨is, last, he, henc⟩ := packed_encodes first init (by omega) hfits
    have hl := length_chain_requests is last
    rw [he] at hl
    have hnew := append_encodes henc.starts new.index new.command new.adp new.ado new.payload (by omega)
      (by rw [length_packed]; omega)
    have hfront : frameBytes ((is ++ [last]).map Request.datagram) new.datagram <+:
        (new.append (packed buf first init).1).1 := by
      rw [List.map_append]
      exact hnew.starts
    rw [packed_concat, ← he]
    exact keepsEarlier_of_front henc.starts hfront

def threeRequests : List Request :=
  [⟨2, .armw, autoincAdp 1, 0x0910, [0, 0, 0, 0, 0, 0, 0, 0]⟩, ⟨3, .fprd, 0x1001, 0x0130, [0, 0]⟩]

theorem codec_roundTrip_three :
    ReadsBack (packed (List.replicate 64 0) ⟨1, .lrw, 0, 0, [7, 8, 9]⟩ threeRequests)
      (⟨1, .lrw, 0, 0, [7, 8, 9]⟩ :: threeRequests) :=
  (codec_roundTrip _ _ _ (by decide) (by decide)).1

end EcMaster

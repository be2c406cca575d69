import EcMaster.Datagram

namespace EcMaster

open Library.Segment Library.LittleEndian

structure Datagram where
  command : UInt8
  index : UInt8
  adp : UInt16
  ado : UInt16
  data : List UInt8
  deriving DecidableEq

def moreWord (plen : ℕ) (more : Bool) : UInt16 := if more then lengthWord plen ||| 0x8000 else lengthWord plen

namespace Datagram

def bytes (d : Datagram) (more : Bool) : List UInt8 :=
  [d.command, d.index] ++ (leBytes 2 d.adp.toNat ++ (leBytes 2 d.ado.toNat ++
    (leBytes 2 (moreWord d.data.length more).toNat ++ (leBytes 2 0 ++ (d.data ++ leBytes 2 0)))))

@[simp] theorem length_bytes (d : Datagram) (more : Bool) : (d.bytes more).length = d.data.length + 12 := by
  simp [bytes]
  omega

end Datagram

def chain (ds : List Datagram) (last : Datagram) : List UInt8 :=
  (ds.flatMap fun d => d.bytes true) ++ last.bytes false

def frameBytes (ds : List Datagram) (last : Datagram) : List UInt8 :=
  leBytes 2 (frameHdr (chain ds last).length).toNat ++ chain ds last

@[simp] theorem length_frameBytes (ds : List Datagram) (last : Datagram) :
    (frameBytes ds last).length = 2 + (chain ds last).length := by
  simp [frameBytes]

structure Encodes (f : List UInt8 × ℕ) (ds : List Datagram) (last : Datagram) : Prop where
  starts : frameBytes ds last <+: f.1
  length_eq : f.2 = max (frameBytes ds last).length ecMinEcatFrame

theorem toNat_and_mask (w : UInt16) : (w &&& 0x07FF).toNat = w.toNat % 2048 := by
  rw [UInt16.toNat_and]
  exact Nat.and_two_pow_sub_one_eq_mod w.toNat 11

theorem lengthWord_toNat {plen : ℕ} (h : plen < 2048) : (lengthWord plen).toNat = plen := by
  rw [lengthWord, toNat_and_mask, UInt16.toNat_ofNat']
  omega

theorem and_or_distrib_right (a b c : UInt16) : (a ||| b) &&& c = (a &&& c) ||| (b &&& c) := by
  apply UInt16.toNat_inj.mp
  simp only [UInt16.toNat_and, UInt16.toNat_or]
  exact Nat.and_or_distrib_right _ _ _

theorem moreWord_length {plen : ℕ} (h : plen < 2048) (more : Bool) :
    (moreWord plen more &&& 0x07FF).toNat = plen := by
  have hw : (lengthWord plen &&& 0x07FF).toNat = plen := by
    rw [toNat_and_mask, lengthWord_toNat h, Nat.mod_eq_of_lt h]
  have hz : (0x8000 : UInt16) &&& 0x07FF = 0 := by decide
  cases more with
  | false => exact hw
  | true => rw [moreWord, if_pos rfl, and_or_distrib_right, hz, UInt16.or_zero, hw]

theorem moreWord_more (plen : ℕ) (more : Bool) : moreWord plen more &&& 0x8000 ≠ 0 ↔ more = true := by
  have hz : (0x07FF : UInt16) &&& 0x8000 = 0 := by decide
  have hl : lengthWord plen &&& 0x8000 = 0 := by
    rw [lengthWord, UInt16.and_assoc, hz, UInt16.and_zero]
  have hs : (0x8000 : UInt16) &&& 0x8000 = 0x8000 := by decide
  cases more with
  | false => simp [moreWord, hl]
  | true =>
    rw [moreWord, if_pos rfl, and_or_distrib_right, hl, hs, UInt16.zero_or]
    simp

theorem moreWord_true (plen : ℕ) : moreWord plen false ||| 0x8000 = moreWord plen true := rfl

theorem frameHdr_length {n : ℕ} (h : n < 2048) : (frameHdr n &&& 0x07FF).toNat = n := by
  have hw : (lengthWord n &&& 0x07FF).toNat = n := moreWord_length h false
  have hz : (0x1000 : UInt16) &&& 0x07FF = 0 := by decide
  change ((lengthWord n ||| 0x1000) &&& 0x07FF).toNat = n
  rw [and_or_distrib_right, hz, UInt16.or_zero, hw]

theorem length_writeDatagram (buf : List UInt8) (off : ℕ) (index : UInt8) (cmd : Command) (adp ado : UInt16)
    (payload : List UInt8) : (writeDatagram buf off index cmd adp ado payload).length = buf.length := by
  simp [writeDatagram]

theorem writeDatagram_extends {pre buf : List UInt8} (h : pre <+: buf) (index : UInt8) (cmd : Command)
    (adp ado : UInt16) (payload : List UInt8) (hl : pre.length + (payload.length + 12) ≤ buf.length) :
    pre ++ Datagram.bytes ⟨cmd.code, index, adp, ado, payload⟩ false <+:
      writeDatagram buf pre.length index cmd adp ado payload := by
  have h₁ := prefix_overwrite [cmd.code, index] h (by simp; omega)
  have h₂ := prefix_overwrite (leBytes 2 adp.toNat) h₁ (by simp; omega)
  have h₃ := prefix_overwrite (leBytes 2 ado.toNat) h₂ (by simp; omega)
  have h₄ := prefix_overwrite (leBytes 2 (lengthWord payload.length).toNat) h₃ (by simp; omega)
  have h₅ := prefix_overwrite (leBytes 2 0) h₄ (by simp; omega)
  have h₆ := prefix_overwrite payload h₅ (by simp; omega)
  have h₇ := prefix_overwrite (leBytes 2 0) h₆ (by simp; omega)
  have hn : 2 + (2 + (2 + (2 + (payload.length + 2)))) = 10 + payload.length := by omega
  simpa [writeDatagram, Datagram.bytes, moreWord, Nat.add_assoc, hn] using h₇

theorem encodes_padFrame {buf : List UInt8} {ds : List Datagram} {last : Datagram} (h : frameBytes ds last <+: buf) :
    Encodes (padFrame buf (frameBytes ds last).length) ds last :=
  ⟨prefix_overwrite_of_le _ h le_rfl, rfl⟩

@[simp] theorem length_padFrame (buf : List UInt8) (total : ℕ) : (padFrame buf total).1.length = buf.length :=
  length_overwrite _ _ _

@[simp] theorem length_build (buf : List UInt8) (index : UInt8) (cmd : Command) (adp ado : UInt16)
    (payload : List UInt8) : (build buf index cmd adp ado payload).1.length = buf.length := by
  simp [build, length_writeDatagram]

@[simp] theorem length_append (buf : List UInt8) (index : UInt8) (cmd : Command) (adp ado : UInt16)
    (payload : List UInt8) : (append buf index cmd adp ado payload).1.length = buf.length := by
  simp [append, length_writeDatagram]

theorem build_encodes {buf : List UInt8} (index : UInt8) (cmd : Command) (adp ado : UInt16) (payload : List UInt8)
    (hl : payload.length + 14 ≤ buf.length) :
    Encodes (build buf index cmd adp ado payload) [] ⟨cmd.code, index, adp, ado, payload⟩ := by
  have h₁ := prefix_overwrite (leBytes 2 (frameHdr (10 + payload.length + 2)).toNat) (List.nil_prefix (l := buf))
    (by simp; omega)
  rw [List.length_nil, List.nil_append] at h₁
  have h₂ := writeDatagram_extends h₁ index cmd adp ado payload (by simp; omega)
  have hc : payload.length + 12 = 10 + payload.length + 2 := by omega
  have hf : frameBytes [] ⟨cmd.code, index, adp, ado, payload⟩ =
      leBytes 2 (frameHdr (10 + payload.length + 2)).toNat ++
        Datagram.bytes ⟨cmd.code, index, adp, ado, payload⟩ false := by
    simp [frameBytes, chain, hc]
  rw [length_leBytes, ← hf] at h₂
  have h₃ := encodes_padFrame h₂
  rw [length_frameBytes] at h₃
  simpa [chain, build, ecFrameHeaderSize, ecDatagramHeaderSize, ecDatagramFooterSize, hc] using h₃

theorem slice_lengthWord (pre post : List UInt8) (d : Datagram) (more : Bool) :
    u16Le (slice (pre ++ (d.bytes more ++ post)) (pre.length + 6) 2) = moreWord d.data.length more := by
  rw [slice_append_right]
  exact u16Le_leBytes _

theorem overwrite_lengthWord (pre post : List UInt8) (d : Datagram) :
    overwrite (pre ++ (d.bytes false ++ post)) (pre.length + 6) (leBytes 2 (moreWord d.data.length true).toNat) =
      pre ++ (d.bytes true ++ post) := by
  rw [overwrite_append_right]
  rfl

theorem chain_cons (d : Datagram) (ds : List Datagram) (last : Datagram) :
    chain (d :: ds) last = d.bytes true ++ chain ds last := by
  simp [chain]

theorem chain_concat (ds : List Datagram) (last d : Datagram) :
    chain (ds ++ [last]) d = (ds.flatMap fun d => d.bytes true) ++ (last.bytes true ++ d.bytes false) := by
  simp [chain]

theorem lastDatagram_chain (pre rest : List UInt8) (ds : List Datagram) (last : Datagram) (fuel : ℕ)
    (hf : ds.length < fuel) (hs : (chain ds last).length < 2048) :
    lastDatagram (pre ++ (chain ds last ++ rest)) (pre.length + (chain ds last).length) fuel pre.length =
      pre.length + (ds.flatMap fun d => d.bytes true).length := by
  induction ds generalizing pre fuel with
  | nil =>
    obtain ⟨k, rfl⟩ := Nat.exists_eq_succ_of_ne_zero (Nat.ne_of_gt hf)
    have hl : (chain [] last).length = last.data.length + 12 := by simp [chain]
    have hr := slice_lengthWord pre rest last false
    rw [lastDatagram, show chain [] last = last.bytes false from rfl, hr, moreWord_length (by omega), if_pos]
    · simp
    · simp only [ecDatagramHeaderSize, ecDatagramFooterSize, Datagram.length_bytes]
      omega
  | cons d ds ih =>
    obtain ⟨k, rfl⟩ := Nat.exists_eq_succ_of_ne_zero (Nat.ne_zero_of_lt hf)
    have hc : (chain (d :: ds) last).length = d.data.length + 12 + (chain ds last).length := by
      simp [chain_cons]
    have hpos : 0 < (chain ds last).length := by simp [chain]
    have hr := slice_lengthWord pre (chain ds last ++ rest) d true
    have hp : (pre ++ d.bytes true).length = pre.length + d.data.length + 12 := by simp [Nat.add_assoc]
    have hi := ih (pre ++ d.bytes true) k (by simpa using hf) (by omega)
    have hn : pre.length + ecDatagramHeaderSize + d.data.length + ecDatagramFooterSize =
        (pre ++ d.bytes true).length := by
      simp only [ecDatagramHeaderSize, ecDatagramFooterSize]
      omega
    have he : pre.length + (chain (d :: ds) last).length = (pre ++ d.bytes true).length + (chain ds last).length := by
      omega
    rw [chain_cons, List.append_assoc, ← chain_cons, he, lastDatagram, hr, moreWord_length (by omega), hn,
      if_neg (by omega), ← List.append_assoc, hi]
    simp only [List.length_append, List.flatMap_cons]
    omega

theorem length_le_chain (ds : List Datagram) (last : Datagram) : ds.length ≤ (chain ds last).length := by
  induction ds with
  | nil => exact Nat.zero_le _
  | cons d ds ih =>
    rw [chain_cons, List.length_append, List.length_cons, Datagram.length_bytes]
    omega

theorem append_encodes {buf : List UInt8} {ds : List Datagram} {last : Datagram} (h : frameBytes ds last <+: buf)
    (index : UInt8) (cmd : Command) (adp ado : UInt16) (payload : List UInt8)
    (hs : (chain ds last).length + (payload.length + 12) < 2048)
    (hl : 2 + (chain ds last).length + (payload.length + 12) ≤ buf.length) :
    Encodes (append buf index cmd adp ado payload) (ds ++ [last]) ⟨cmd.code, index, adp, ado, payload⟩ := by
  obtain ⟨rest, hbuf⟩ := h
  set hdr := leBytes 2 (frameHdr (chain ds last).length).toNat with hhdr
  set front := hdr ++ ds.flatMap fun d => d.bytes true with hfront
  set new : Datagram := ⟨cmd.code, index, adp, ado, payload⟩ with hnew
  have hlen : hdr.length = 2 := length_leBytes _ _
  have hds := length_le_chain ds last
  have hchain : (chain ds last).length + 2 = front.length + last.data.length + 12 := by
    simp [hfront, chain, hlen]
    omega
  have hall : buf = hdr ++ (chain ds last ++ rest) := by
    rw [← hbuf, frameBytes, List.append_assoc]
  have hbuf' : buf = front ++ (last.bytes false ++ rest) := by
    simp [hall, hfront, chain]
  have hregion : (u16Le (slice buf 0 2) &&& 0x07FF).toNat = (chain ds last).length := by
    have hsl : slice buf 0 2 = hdr := by rw [hall]; rfl
    rw [hsl, hhdr, u16Le_leBytes, frameHdr_length (by omega)]
  have hlast : lastDatagram buf (2 + (chain ds last).length) (2 + (chain ds last).length) 2 = front.length := by
    have hw := lastDatagram_chain hdr rest ds last (2 + (chain ds last).length) (by omega) (by omega)
    rw [← hall, hlen] at hw
    rw [hw, hfront, List.length_append, hlen]
  have hraw : u16Le (slice buf (front.length + 6) 2) = moreWord last.data.length false := by
    rw [hbuf']
    exact slice_lengthWord front rest last false
  have hset : overwrite buf (front.length + 6) (leBytes 2 (moreWord last.data.length true).toNat) =
      front ++ (last.bytes true ++ rest) := by
    rw [hbuf']
    exact overwrite_lengthWord front rest last
  have hpre : front ++ last.bytes true <+: front ++ (last.bytes true ++ rest) := by
    rw [← List.append_assoc]
    exact List.prefix_append _ _
  have hend : front.length + ecDatagramHeaderSize + last.data.length + ecDatagramFooterSize =
      (front ++ last.bytes true).length := by
    simp only [ecDatagramHeaderSize, ecDatagramFooterSize, List.length_append, Datagram.length_bytes]
    omega
  have hw := writeDatagram_extends hpre index cmd adp ado payload (by
    have hlb := congrArg List.length hbuf'
    simp only [List.length_append, Datagram.length_bytes] at hlb ⊢
    omega)
  obtain ⟨tail, htail⟩ := hw
  have hchain' : (chain (ds ++ [last]) new).length = (chain ds last).length + (payload.length + 12) := by
    rw [chain_concat]
    simp [chain, hnew]
    omega
  have hregion' : (chain ds last).length + ecDatagramHeaderSize + payload.length + ecDatagramFooterSize =
      (chain (ds ++ [last]) new).length := by
    simp only [hchain', ecDatagramHeaderSize, ecDatagramFooterSize]
    omega
  have hframe : front ++ last.bytes true ++ new.bytes false ++ tail = hdr ++ (chain (ds ++ [last]) new ++ tail) := by
    simp only [hfront, chain_concat, List.append_assoc]
  have hhead : overwrite (front ++ last.bytes true ++ new.bytes false ++ tail) 0
      (leBytes 2 (frameHdr (chain (ds ++ [last]) new).length).toNat) = frameBytes (ds ++ [last]) new ++ tail := by
    rw [hframe, overwrite_zero_append _ _ _ (by rw [hlen, length_leBytes]), frameBytes, List.append_assoc]
  have hres : append buf index cmd adp ado payload =
      padFrame (frameBytes (ds ++ [last]) new ++ tail) (frameBytes (ds ++ [last]) new).length := by
    rw [append, hregion]
    simp only [ecFrameHeaderSize, hlast, hraw, moreWord_true, hset,
      moreWord_length (show last.data.length < 2048 by omega) false, hend, ← htail, hregion', length_frameBytes]
    rw [hhead]
  rw [hres]
  exact encodes_padFrame (List.prefix_append _ _)

/-- The datagrams of a frame, read from `off` on as `parse_at` walks them. -/
def datagramsFrom (frame : List UInt8) : ℕ → ℕ → List Datagram
  | 0, _ => []
  | fuel + 1, off =>
    match parseAt frame off with
    | none => []
    | some (r, next) =>
      ⟨r.command, r.index, u16Le (slice frame (off + 2) 2), u16Le (slice frame (off + 4) 2), r.data⟩ ::
        if next = 0 then [] else datagramsFrom frame fuel next

def datagrams (frame : List UInt8) : List Datagram := datagramsFrom frame frame.length ecFrameHeaderSize

theorem bytes_eq (d : Datagram) (more : Bool) :
    ∃ head, head.length = 10 ∧ d.bytes more = head ++ (d.data ++ leBytes 2 0) :=
  ⟨[d.command, d.index] ++ (leBytes 2 d.adp.toNat ++ (leBytes 2 d.ado.toNat ++
    (leBytes 2 (moreWord d.data.length more).toNat ++ leBytes 2 0))), by simp, by simp [Datagram.bytes]⟩

theorem parseAt_bytes (pre post : List UInt8) (d : Datagram) (more : Bool) (hd : d.data.length < 2048) :
    parseAt (pre ++ (d.bytes more ++ post)) pre.length =
      some (⟨d.command, d.index, 0, d.data⟩, if more then (pre ++ d.bytes more).length else 0) := by
  have hl : (pre ++ (d.bytes more ++ post)).length = pre.length + (d.data.length + 12 + post.length) := by simp
  have hw := slice_lengthWord pre post d more
  have hm := moreWord_length hd more
  have hc : (pre ++ (d.bytes more ++ post)).getD pre.length 0 = d.command := by
    rw [List.getD_eq_getElem?_getD, List.getElem?_append_right le_rfl, Nat.sub_self]
    rfl
  have hi : (pre ++ (d.bytes more ++ post)).getD (pre.length + 1) 0 = d.index := by
    rw [List.getD_eq_getElem?_getD, List.getElem?_append_right (Nat.le_add_right _ _), Nat.add_sub_cancel_left]
    rfl
  obtain ⟨head, hh, hb⟩ := bytes_eq d more
  have hp : slice (pre ++ (d.bytes more ++ post)) (pre.length + 10) d.data.length = d.data := by
    rw [slice_append_right, hb, ← hh, List.append_assoc, List.append_assoc]
    exact slice_append head d.data _
  have hk : slice (pre ++ (d.bytes more ++ post)) (pre.length + 10 + d.data.length) 2 = leBytes 2 0 := by
    have hlen : (head ++ d.data).length = 10 + d.data.length := by rw [List.length_append, hh]
    have hs := slice_append (head ++ d.data) (leBytes 2 0) post
    rw [Nat.add_assoc, slice_append_right, hb, ← hlen, ← List.append_assoc head, List.append_assoc]
    exact hs
  rw [parseAt, hl, if_neg (by simp only [ecDatagramHeaderSize, ecDatagramFooterSize]; omega)]
  simp only [hw, hm, hc, hi, ecDatagramHeaderSize, ecDatagramFooterSize, hp, hk]
  rw [if_neg (by omega)]
  have hn : pre.length + 10 + d.data.length + 2 = (pre ++ d.bytes more).length := by
    rw [List.length_append, Datagram.length_bytes]
    omega
  simp only [moreWord_more, hn]
  rfl

theorem datagramsFrom_bytes (pre post : List UInt8) (d : Datagram) (more : Bool) (hd : d.data.length < 2048)
    (fuel : ℕ) :
    datagramsFrom (pre ++ (d.bytes more ++ post)) (fuel + 1) pre.length =
      d :: if more then datagramsFrom (pre ++ (d.bytes more ++ post)) fuel (pre ++ d.bytes more).length else [] := by
  have ha : u16Le (slice (pre ++ (d.bytes more ++ post)) (pre.length + 2) 2) = d.adp := by
    rw [slice_append_right]
    exact u16Le_leBytes _
  have ho : u16Le (slice (pre ++ (d.bytes more ++ post)) (pre.length + 4) 2) = d.ado := by
    rw [slice_append_right]
    exact u16Le_leBytes _
  rw [datagramsFrom, parseAt_bytes pre post d more hd]
  simp only [ha, ho]
  cases more with
  | false => rfl
  | true =>
    have hne : (pre ++ d.bytes true).length ≠ 0 := by
      rw [List.length_append, Datagram.length_bytes]
      omega
    simp only [↓reduceIte, hne]

theorem datagramsFrom_chain (pre post : List UInt8) (ds : List Datagram) (last : Datagram) {fuel : ℕ}
    (hf : ds.length < fuel) (hs : (chain ds last).length < 2048) :
    datagramsFrom (pre ++ (chain ds last ++ post)) fuel pre.length = ds ++ [last] := by
  induction ds generalizing pre fuel with
  | nil =>
    obtain ⟨k, rfl⟩ := Nat.exists_eq_succ_of_ne_zero (Nat.ne_of_gt hf)
    have hl : (chain [] last).length = last.data.length + 12 := by simp [chain]
    exact datagramsFrom_bytes pre post last false (by omega) k
  | cons d ds ih =>
    obtain ⟨k, rfl⟩ := Nat.exists_eq_succ_of_ne_zero (Nat.ne_zero_of_lt hf)
    have hc : (chain (d :: ds) last).length = d.data.length + 12 + (chain ds last).length := by
      simp [chain_cons]
    have hi := ih (pre ++ d.bytes true) (by simpa using hf) (by omega)
    rw [chain_cons, List.append_assoc, datagramsFrom_bytes pre _ d true (by omega), if_pos rfl,
      ← List.append_assoc, hi]
    rfl

theorem datagrams_of_front {frame : List UInt8} {ds : List Datagram} {last : Datagram}
    (h : frameBytes ds last <+: frame) (hs : (chain ds last).length < 2048) : datagrams frame = ds ++ [last] := by
  obtain ⟨rest, rfl⟩ := h
  have hd := length_le_chain ds last
  rw [datagrams, frameBytes, List.append_assoc]
  exact datagramsFrom_chain (leBytes 2 (frameHdr (chain ds last).length).toNat) rest ds last
    (by simp; omega) hs

theorem Encodes.front {f : List UInt8 × ℕ} {ds : List Datagram} {last : Datagram} (h : Encodes f ds last) :
    frameBytes ds last <+: f.1.take f.2 := by
  rw [List.prefix_take_iff]
  refine ⟨h.starts, ?_⟩
  rw [h.length_eq]
  exact le_max_left _ _

theorem Encodes.datagrams {f : List UInt8 × ℕ} {ds : List Datagram} {last : Datagram} (h : Encodes f ds last)
    (hs : (chain ds last).length < 2048) : EcMaster.datagrams (f.1.take f.2) = ds ++ [last] :=
  datagrams_of_front h.front hs

end EcMaster

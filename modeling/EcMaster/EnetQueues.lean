import EcMaster.EnetDriver

namespace EcMaster

open Library.Segment Library.Circular Library.OwnedRing Library.Machine

namespace DescriptorTable

variable {mtu n : ℕ}

def frame (dt : DescriptorTable mtu n) (i : Fin n) : List UInt8 := (dt.bufs i).1.take (dt.desc i).len.toNat

def txEntry (dt : DescriptorTable mtu n) (i : Fin n) : Option (List UInt8) :=
  if (dt.desc i).flags &&& 0x8000 = 0 then none else some (dt.frame i)

def rxEntry (dt : DescriptorTable mtu n) (i : Fin n) : Option (List UInt8) :=
  if (dt.desc i).flags &&& 0x8000 = 0 then some (dt.frame i) else none

def Wraps (dt : DescriptorTable mtu n) : Prop := ∀ i : Fin n, (dt.desc i).flags &&& 0x2000 ≠ 0 ↔ i.val + 1 = n

theorem frame_put_self (dt : DescriptorTable mtu n) (pos : Fin n) (d : Descriptor) (b : DmaBuffer mtu) :
    (dt.put pos d b).frame pos = b.1.take d.len.toNat := by
  simp [frame, put]

theorem frame_put_of_ne (dt : DescriptorTable mtu n) {pos i : Fin n} (d : Descriptor) (b : DmaBuffer mtu)
    (h : i ≠ pos) : (dt.put pos d b).frame i = dt.frame i := by
  simp [frame, put, h]

theorem desc_put_self (dt : DescriptorTable mtu n) (pos : Fin n) (d : Descriptor) (b : DmaBuffer mtu) :
    (dt.put pos d b).desc pos = d := by
  simp [put]

theorem desc_put_of_ne (dt : DescriptorTable mtu n) {pos i : Fin n} (d : Descriptor) (b : DmaBuffer mtu)
    (h : i ≠ pos) : (dt.put pos d b).desc i = dt.desc i := by
  simp [put, h]

theorem txEntry_put (dt : DescriptorTable mtu n) (pos : Fin n) (d : Descriptor) (b : DmaBuffer mtu) :
    (dt.put pos d b).txEntry =
      Function.update dt.txEntry pos (if d.flags &&& 0x8000 = 0 then none else some (b.1.take d.len.toNat)) := by
  funext i
  rcases eq_or_ne i pos with rfl | h
  · rw [Function.update_self, txEntry, desc_put_self, frame_put_self]
  · rw [Function.update_of_ne h, txEntry, txEntry, desc_put_of_ne _ _ _ h, frame_put_of_ne _ _ _ h]

theorem rxEntry_put (dt : DescriptorTable mtu n) (pos : Fin n) (d : Descriptor) (b : DmaBuffer mtu) :
    (dt.put pos d b).rxEntry =
      Function.update dt.rxEntry pos (if d.flags &&& 0x8000 = 0 then some (b.1.take d.len.toNat) else none) := by
  funext i
  rcases eq_or_ne i pos with rfl | h
  · rw [Function.update_self, rxEntry, desc_put_self, frame_put_self]
  · rw [Function.update_of_ne h, rxEntry, rxEntry, desc_put_of_ne _ _ _ h, frame_put_of_ne _ _ _ h]

theorem Wraps.put {dt : DescriptorTable mtu n} (h : dt.Wraps) {pos : Fin n} {d : Descriptor} (b : DmaBuffer mtu)
    (hd : d.flags &&& 0x2000 = (dt.desc pos).flags &&& 0x2000) : (dt.put pos d b).Wraps := by
  intro i
  rcases eq_or_ne i pos with rfl | hi
  · rw [desc_put_self, hd]
    exact h i
  · rw [desc_put_of_ne _ _ _ hi]
    exact h i

theorem wraps_reset (dt : DescriptorTable mtu n) {base : UInt16} (hb : base &&& 0x2000 = 0)
    (hw : (0x2000 ||| base) &&& 0x2000 ≠ 0) : (dt.reset base).Wraps := by
  intro i
  simp only [reset, resetFlags]
  split
  · simp_all
  · simp_all

end DescriptorTable

section Flags

theorem or_and (f g m : UInt16) : (f ||| g) &&& m = (f &&& m) ||| (g &&& m) :=
  UInt16.toBitVec_inj.1 BitVec.and_or_distrib_right

theorem ready_of_sent (f : UInt16) : (f ||| 0x8C00) &&& 0x8000 ≠ 0 := by
  rw [or_and, Ne, UInt16.or_eq_zero_iff]
  rintro ⟨-, h⟩
  exact absurd h (by decide)

theorem empty_of_returned (f : UInt16) : (f ||| 0x8000) &&& 0x8000 ≠ 0 := by
  rw [or_and, Ne, UInt16.or_eq_zero_iff]
  rintro ⟨-, h⟩
  exact absurd h (by decide)

theorem wrap_of_sent (f : UInt16) : (f ||| 0x8C00) &&& 0x2000 = f &&& 0x2000 := by
  rw [or_and, show (0x8C00 : UInt16) &&& 0x2000 = 0 from rfl, UInt16.or_zero]

theorem wrap_of_returned (f : UInt16) : (f ||| 0x8000) &&& 0x2000 = f &&& 0x2000 := by
  rw [or_and, show (0x8000 : UInt16) &&& 0x2000 = 0 from rfl, UInt16.or_zero]

theorem free_of_transmitted (f : UInt16) : f &&& 0x7FFF &&& 0x8000 = 0 := by
  rw [UInt16.and_assoc, show (0x7FFF : UInt16) &&& 0x8000 = 0 from rfl, UInt16.and_zero]

theorem wrap_of_transmitted (f : UInt16) : f &&& 0x7FFF &&& 0x2000 = f &&& 0x2000 := by
  rw [UInt16.and_assoc, show (0x7FFF : UInt16) &&& 0x2000 = 0x2000 from rfl]

theorem full_of_received (f status : UInt16) : (f &&& 0x7000 ||| status &&& 0x0FFF) &&& 0x8000 = 0 := by
  rw [or_and, UInt16.and_assoc, UInt16.and_assoc, show (0x7000 : UInt16) &&& 0x8000 = 0 from rfl,
    show (0x0FFF : UInt16) &&& 0x8000 = 0 from rfl, UInt16.and_zero, UInt16.and_zero, UInt16.or_zero]

theorem wrap_of_received (f status : UInt16) :
    (f &&& 0x7000 ||| status &&& 0x0FFF) &&& 0x2000 = f &&& 0x2000 := by
  rw [or_and, UInt16.and_assoc, UInt16.and_assoc, show (0x7000 : UInt16) &&& 0x2000 = 0x2000 from rfl,
    show (0x0FFF : UInt16) &&& 0x2000 = 0 from rfl, UInt16.and_zero, UInt16.or_zero]

end Flags

theorem nextEntry_eq {n : ℕ} [NeZero n] (pos : Fin n) : nextEntry pos = slot pos 1 := by
  apply Fin.ext
  rw [nextEntry]
  split
  next h => simp [slot, Nat.mod_eq_of_lt h]
  next h =>
    have hn : pos.val + 1 = n := by omega
    simp [slot, hn]

theorem follow_eq {mtu n : ℕ} [NeZero n] {dt : DescriptorTable mtu n} (h : dt.Wraps) (pos : Fin n) :
    Nic.follow (dt.desc pos).flags pos.val = (slot pos 1).val := by
  rw [← nextEntry_eq, Nic.follow, nextEntry]
  by_cases hw : (dt.desc pos).flags &&& 0x2000 ≠ 0
  · have hn := (h pos).mp hw
    rw [if_pos hw, dif_neg (by omega)]
  · have hn : pos.val + 1 ≠ n := fun hn => hw ((h pos).mpr hn)
    have hl : pos.val + 1 < n := by omega
    rw [if_neg hw, dif_pos hl]

/-- The frame that `send_frame` builds of a header and a payload: cut to the buffer, padded to the
Ethernet minimum. -/
def framed (mtu : ℕ) (header payload : List UInt8) : List UInt8 :=
  let f := (header ++ payload).take mtu
  f ++ List.replicate (min (max f.length 60) mtu - f.length) 0

theorem length_framed {mtu : ℕ} (header payload : List UInt8) :
    (framed mtu header payload).length = min (max (min (header.length + payload.length) mtu) 60) mtu := by
  simp only [framed, List.length_append, List.length_take, List.length_replicate]
  omega

namespace DmaBuffer

variable {mtu : ℕ}

theorem prefix_write {pre : List UInt8} (b : DmaBuffer mtu) {off : ℕ} (src : List UInt8) (h : pre <+: b.1)
    (ho : pre.length = off) (hl : off + src.length ≤ mtu) : pre ++ src <+: (b.write off src).1 := by
  subst ho
  exact prefix_overwrite src h (by rw [b.2]; exact hl)

theorem take_write_zero (b : DmaBuffer mtu) {src : List UInt8} (h : src.length ≤ mtu) :
    (b.write 0 src).1.take src.length = src := by
  have hp : src <+: (b.write 0 src).1 := prefix_write b src List.nil_prefix rfl (by omega)
  exact (List.prefix_iff_eq_take.mp hp).symm

theorem assemble_length (b : DmaBuffer mtu) (header payload : List UInt8) :
    (b.assemble header payload).1 = (framed mtu header payload).length := by
  rw [length_framed]
  simp only [assemble]
  omega

theorem prefix_assemble (b : DmaBuffer mtu) (header payload : List UInt8) :
    framed mtu header payload <+: (b.assemble header payload).2.1 := by
  have hh : header.take mtu = header.take (min header.length mtu) := List.take_eq_take_iff.mpr (by omega)
  have hp : payload.take (mtu - header.length) = payload.take (min payload.length (mtu - min header.length mtu)) :=
    List.take_eq_take_iff.mpr (by omega)
  have hl : (header.take (min header.length mtu) ++
      payload.take (min payload.length (mtu - min header.length mtu))).length =
        min header.length mtu + min payload.length (mtu - min header.length mtu) := by simp
  have h₁ : header.take (min header.length mtu) <+: (b.write 0 (header.take (min header.length mtu))).1 :=
    prefix_write b _ List.nil_prefix rfl (by simp)
  have h₂ := prefix_write _ (payload.take (min payload.length (mtu - min header.length mtu))) h₁
    (show _ = min header.length mtu by simp) (by simp; omega)
  simp only [framed, assemble, List.take_append, hh, hp, hl]
  apply prefix_write _ _ h₂ hl
  rw [List.length_replicate]
  omega

theorem take_assemble (b : DmaBuffer mtu) (header payload : List UInt8) :
    (b.assemble header payload).2.1.take (b.assemble header payload).1 = framed mtu header payload := by
  rw [assemble_length]
  exact (List.prefix_iff_eq_take.mp (prefix_assemble b header payload)).symm

end DmaBuffer

/-- The driver and the DMA engine together as two bounded queues. -/
structure Queues where
  tx : List (List UInt8)
  rx : List (List UInt8)

namespace Queues

variable {mtu : ℕ}

def step (rxLen txLen : ℕ) (q : Queues) : NicEvent mtu → NicOutcome × Queues
  | .send header payload =>
    if q.tx.length < txLen then (.sent true, { q with tx := q.tx ++ [framed mtu header payload] }) else (.sent false, q)
  | .poll => (.polled q.rx.head?, { q with rx := q.rx.tail })
  | .transmit => (.transmitted q.tx.head?, { q with tx := q.tx.tail })
  | .arrive frame _ =>
    if q.rx.length < rxLen then (.arrived true, { q with rx := q.rx ++ [frame.1] }) else (.arrived false, q)
  | .restart => (.restarted, ⟨[], []⟩)

end Queues

namespace Nic

variable {mtu rxLen txLen : ℕ} [NeZero rxLen] [NeZero txLen]

/-- The two tables hold the two queues. -/
structure Represents (nic : Nic mtu rxLen txLen) (q : Queues) : Prop where
  txWraps : nic.enet.txdt.Wraps
  rxWraps : nic.enet.rxdt.Wraps
  tx : ∃ head : Fin txLen, head.val = nic.txNext ∧ Holds nic.enet.txdt.txEntry head nic.enet.txPos q.tx
  rx : ∃ tail : Fin rxLen, tail.val = nic.rxNext ∧ Holds nic.enet.rxdt.rxEntry nic.enet.rxPos tail q.rx

variable {nic : Nic mtu rxLen txLen} {q : Queues}

theorem represents_restart (nic : Nic mtu rxLen txLen) : nic.restart.Represents ⟨[], []⟩ := by
  constructor
  · exact DescriptorTable.wraps_reset _ rfl (by decide)
  · exact DescriptorTable.wraps_reset _ rfl (by decide)
  · refine ⟨0, rfl, holds_nil _ fun i => ?_⟩
    simp only [restart, EnetDevice.resetDescriptorTables, DescriptorTable.txEntry, DescriptorTable.reset,
      DescriptorTable.resetFlags]
    split <;> rfl
  · refine ⟨0, rfl, holds_nil _ fun i => ?_⟩
    simp only [restart, EnetDevice.resetDescriptorTables, DescriptorTable.rxEntry, DescriptorTable.reset,
      DescriptorTable.resetFlags]
    split <;> rfl

theorem send_full (h : nic.Represents q) (hq : ¬ q.tx.length < txLen) (header payload : List UInt8) :
    nic.enet.sendFrame header payload = (false, nic.enet) := by
  obtain ⟨head, -, ht⟩ := h.tx
  have hf := ht.full hq
  rw [EnetDevice.sendFrame, if_pos]
  intro hc
  exact hf (if_pos hc)

theorem send_free (hm : mtu < 2 ^ 16) (h : nic.Represents q) (hq : q.tx.length < txLen) (header payload : List UInt8) :
    (nic.enet.sendFrame header payload).1 = true ∧
      Represents { nic with enet := (nic.enet.sendFrame header payload).2 }
        { q with tx := q.tx ++ [framed mtu header payload] } := by
  obtain ⟨head, hn, ht⟩ := h.tx
  have hc : (nic.enet.txdt.desc nic.enet.txPos).flags &&& 0x8000 = 0 := by
    have hf := ht.free hq
    rw [DescriptorTable.txEntry] at hf
    by_contra hc
    rw [if_neg hc] at hf
    cases hf
  have hl : (framed mtu header payload).length < 2 ^ 16 := by
    rw [length_framed]
    omega
  rw [EnetDevice.sendFrame, if_neg (not_not_intro hc)]
  refine ⟨rfl, h.txWraps.put _ (wrap_of_sent _), h.rxWraps, ⟨head, hn, ?_⟩, h.rx⟩
  have hb := ht.fill (framed mtu header payload) hq
  simp only [DescriptorTable.txEntry_put, nextEntry_eq, if_neg (ready_of_sent _)]
  rw [DmaBuffer.assemble_length, UInt16.toNat_ofNat_of_lt' hl, ← DmaBuffer.assemble_length, DmaBuffer.take_assemble]
  exact hb

theorem poll_empty (h : nic.Represents q) (hq : q.rx = []) : nic.enet.pollRaw = (none, nic.enet) := by
  obtain ⟨tail, -, hr⟩ := h.rx
  have hf := hr.front
  rw [hq, DescriptorTable.rxEntry] at hf
  rw [EnetDevice.pollRaw, if_pos]
  intro hc
  rw [if_pos hc] at hf
  cases hf

theorem poll_front (h : nic.Represents q) {x : List UInt8} {rest : List (List UInt8)} (hq : q.rx = x :: rest) :
    nic.enet.pollRaw.1 = some x ∧
      Represents { nic with enet := nic.enet.pollRaw.2 } { q with rx := rest } := by
  obtain ⟨tail, hn, hr⟩ := h.rx
  rw [hq] at hr
  have hf := hr.front
  rw [DescriptorTable.rxEntry] at hf
  split at hf
  next hc =>
    have hx : nic.enet.rxdt.frame nic.enet.rxPos = x := Option.some.inj hf
    rw [EnetDevice.pollRaw, if_neg (not_not_intro hc)]
    refine ⟨?_, h.txWraps, h.rxWraps.put _ (wrap_of_returned _), h.tx, ⟨tail, hn, ?_⟩⟩
    · rw [← hx, DescriptorTable.frame, List.take_eq_take_iff.mpr]
      rw [(nic.enet.rxdt.bufs nic.enet.rxPos).2]
      omega
    · simp only [DescriptorTable.rxEntry_put, nextEntry_eq, if_neg (empty_of_returned _)]
      exact hr.empty
  next => cases hf

theorem transmit_empty (h : nic.Represents q) (hq : q.tx = []) : nic.transmit = (.transmitted none, nic) := by
  obtain ⟨head, hn, ht⟩ := h.tx
  obtain ⟨enet, txNext, rxNext⟩ := nic
  obtain rfl : head.val = txNext := hn
  have hf := ht.front
  rw [hq, DescriptorTable.txEntry] at hf
  rw [transmit, dif_pos head.isLt, if_pos]
  by_contra hc
  rw [if_neg hc] at hf
  cases hf

theorem transmit_front (h : nic.Represents q) {x : List UInt8} {rest : List (List UInt8)} (hq : q.tx = x :: rest) :
    nic.transmit.1 = .transmitted (some x) ∧ nic.transmit.2.Represents { q with tx := rest } := by
  obtain ⟨head, hn, ht⟩ := h.tx
  obtain ⟨enet, txNext, rxNext⟩ := nic
  obtain rfl : head.val = txNext := hn
  rw [hq] at ht
  have hf := ht.front
  rw [DescriptorTable.txEntry] at hf
  split at hf
  next => cases hf
  next hc =>
    rw [transmit, dif_pos head.isLt, if_neg hc]
    refine ⟨congrArg _ hf, h.txWraps.put _ (wrap_of_transmitted _), h.rxWraps, ⟨slot head 1, ?_, ?_⟩, h.rx⟩
    · exact (follow_eq h.txWraps head).symm
    · simp only [DescriptorTable.txEntry_put, if_pos (free_of_transmitted _)]
      exact ht.empty

theorem arrive_full (h : nic.Represents q) (hq : ¬ q.rx.length < rxLen) (frame : List UInt8) (status : UInt16) :
    nic.arrive frame status = (.arrived false, nic) := by
  obtain ⟨tail, hn, hr⟩ := h.rx
  obtain ⟨enet, txNext, rxNext⟩ := nic
  obtain rfl : tail.val = rxNext := hn
  have hf := hr.full hq
  rw [arrive, dif_pos tail.isLt, if_pos]
  by_contra hc
  exact hf (if_neg hc)

theorem arrive_free (hm : mtu < 2 ^ 16) (h : nic.Represents q) (hq : q.rx.length < rxLen) {frame : List UInt8}
    (hl : frame.length ≤ mtu) (status : UInt16) :
    (nic.arrive frame status).1 = .arrived true ∧
      (nic.arrive frame status).2.Represents { q with rx := q.rx ++ [frame] } := by
  obtain ⟨tail, hn, hr⟩ := h.rx
  obtain ⟨enet, txNext, rxNext⟩ := nic
  obtain rfl : tail.val = rxNext := hn
  have hc : ¬ (enet.rxdt.desc tail).flags &&& 0x8000 = 0 := by
    have hf := hr.free hq
    intro hc
    rw [DescriptorTable.rxEntry, if_pos hc] at hf
    cases hf
  rw [arrive, dif_pos tail.isLt, if_neg hc]
  refine ⟨rfl, h.txWraps, h.rxWraps.put _ (wrap_of_received _ _), h.tx, ⟨slot tail 1, ?_, ?_⟩⟩
  · exact (follow_eq h.rxWraps tail).symm
  · simp only [DescriptorTable.rxEntry_put, if_pos (full_of_received _ _)]
    rw [UInt16.toNat_ofNat_of_lt' (hl.trans_lt hm), DmaBuffer.take_write_zero _ hl]
    exact hr.fill frame hq

theorem step_represents (hm : mtu < 2 ^ 16) (h : nic.Represents q) (e : NicEvent mtu) :
    (nic.step e).1 = (q.step rxLen txLen e).1 ∧ (nic.step e).2.Represents (q.step rxLen txLen e).2 := by
  cases e with
  | send header payload =>
    rw [step, Queues.step]
    split
    next hq =>
      obtain ⟨ho, hr⟩ := send_free hm h hq header payload
      exact ⟨congrArg _ ho, hr⟩
    next hq =>
      rw [send_full h hq]
      exact ⟨rfl, h⟩
  | poll =>
    rw [step, Queues.step]
    rcases hq : q.rx with _ | ⟨x, rest⟩
    · rw [poll_empty h hq]
      refine ⟨rfl, ?_⟩
      rw [List.tail_nil, ← hq]
      exact h
    · obtain ⟨ho, hr⟩ := poll_front h hq
      exact ⟨congrArg _ ho, hr⟩
  | transmit =>
    rw [step, Queues.step]
    rcases hq : q.tx with _ | ⟨x, rest⟩
    · rw [transmit_empty h hq]
      refine ⟨rfl, ?_⟩
      rw [List.tail_nil, ← hq]
      exact h
    · exact transmit_front h hq
  | arrive frame status =>
    rw [step, Queues.step]
    split
    next hq => exact arrive_free hm h hq frame.2 status
    next hq =>
      rw [arrive_full h hq]
      exact ⟨rfl, h⟩
  | restart => exact ⟨rfl, represents_restart nic⟩

theorem simulation (hm : mtu < 2 ^ 16) :
    Simulation (@step mtu rxLen txLen _ _) (Queues.step rxLen txLen) Represents where
  outcome h e := (step_represents hm h e).1
  state h e := (step_represents hm h e).2

theorem outcomes_restart (hm : mtu < 2 ^ 16) (nic : Nic mtu rxLen txLen) (es : List (NicEvent mtu)) :
    outcomes step nic.restart es = outcomes (Queues.step rxLen txLen) ⟨[], []⟩ es :=
  (simulation hm).outcomes (represents_restart nic) es

end Nic

section Traffic

variable {mtu : ℕ}

def NicEvent.accepted : NicEvent mtu → NicOutcome → List (List UInt8)
  | .send header payload, .sent true => [framed mtu header payload]
  | _, _ => []

def NicEvent.kept : NicEvent mtu → NicOutcome → List (List UInt8)
  | .arrive frame _, .arrived true => [frame.1]
  | _, _ => []

def NicOutcome.onWire : NicOutcome → List (List UInt8)
  | .transmitted (some f) => [f]
  | _ => []

def NicOutcome.read : NicOutcome → List (List UInt8)
  | .polled (some f) => [f]
  | _ => []

theorem Queues.tx_step (rxLen txLen : ℕ) (q : Queues) (e : NicEvent mtu) (he : e ≠ .restart) :
    (q.step rxLen txLen e).1.onWire ++ (q.step rxLen txLen e).2.tx = q.tx ++ e.accepted (q.step rxLen txLen e).1 := by
  cases e with
  | send header payload =>
    rw [step]
    split <;> simp [NicEvent.accepted, NicOutcome.onWire]
  | poll => simp [step, NicEvent.accepted, NicOutcome.onWire]
  | transmit => rcases hq : q.tx with _ | ⟨x, rest⟩ <;> simp [step, hq, NicEvent.accepted, NicOutcome.onWire]
  | arrive frame status =>
    rw [step]
    split <;> simp [NicEvent.accepted, NicOutcome.onWire]
  | restart => exact absurd rfl he

theorem Queues.rx_step (rxLen txLen : ℕ) (q : Queues) (e : NicEvent mtu) (he : e ≠ .restart) :
    (q.step rxLen txLen e).1.read ++ (q.step rxLen txLen e).2.rx = q.rx ++ e.kept (q.step rxLen txLen e).1 := by
  cases e with
  | send header payload =>
    rw [step]
    split <;> simp [NicEvent.kept, NicOutcome.read]
  | poll => rcases hq : q.rx with _ | ⟨x, rest⟩ <;> simp [step, hq, NicEvent.kept, NicOutcome.read]
  | transmit => simp [step, NicEvent.kept, NicOutcome.read]
  | arrive frame status =>
    rw [step]
    split <;> simp [NicEvent.kept, NicOutcome.read]
  | restart => exact absurd rfl he

theorem Queues.not_astray (rxLen txLen : ℕ) (q : Queues) (e : NicEvent mtu) :
    (q.step rxLen txLen e).1 ≠ .astray := by
  cases e with
  | send header payload =>
    rw [step]
    split <;> simp
  | arrive frame status =>
    rw [step]
    split <;> simp
  | poll => simp [step]
  | transmit => simp [step]
  | restart => simp [step]

theorem Queues.tx_never_more (rxLen txLen : ℕ) (q : Queues) (e : NicEvent mtu) :
    ((q.step rxLen txLen e).1.onWire ++ (q.step rxLen txLen e).2.tx).Sublist
      (q.tx ++ e.accepted (q.step rxLen txLen e).1) := by
  by_cases he : e = .restart
  · subst he
    simp [step, NicOutcome.onWire]
  · rw [Queues.tx_step _ _ _ _ he]

theorem Queues.rx_never_more (rxLen txLen : ℕ) (q : Queues) (e : NicEvent mtu) :
    ((q.step rxLen txLen e).1.read ++ (q.step rxLen txLen e).2.rx).Sublist
      (q.rx ++ e.kept (q.step rxLen txLen e).1) := by
  by_cases he : e = .restart
  · subst he
    simp [step, NicOutcome.read]
  · rw [Queues.rx_step _ _ _ _ he]

theorem Queues.bounded_step {rxLen txLen : ℕ} {q : Queues} (h : q.tx.length ≤ txLen ∧ q.rx.length ≤ rxLen)
    (e : NicEvent mtu) : (q.step rxLen txLen e).2.tx.length ≤ txLen ∧ (q.step rxLen txLen e).2.rx.length ≤ rxLen := by
  obtain ⟨ht, hr⟩ := h
  cases e with
  | send header payload =>
    rw [step]
    split
    · constructor
      · simpa using ‹q.tx.length < txLen›
      · exact hr
    · exact ⟨ht, hr⟩
  | poll =>
    refine ⟨ht, ?_⟩
    simp only [step, List.length_tail]
    omega
  | transmit =>
    refine ⟨?_, hr⟩
    simp only [step, List.length_tail]
    omega
  | arrive frame status =>
    rw [step]
    split
    · constructor
      · exact ht
      · simpa using ‹q.rx.length < rxLen›
    · exact ⟨ht, hr⟩
  | restart => simp [step]

end Traffic

section Conservation

variable {mtu rxLen txLen : ℕ} [NeZero rxLen] [NeZero txLen]

def Nic.accepted (nic : Nic mtu rxLen txLen) (es : List (NicEvent mtu)) : List (List UInt8) :=
  (List.zipWith NicEvent.accepted es (outcomes Nic.step nic es)).flatten

def Nic.onWire (nic : Nic mtu rxLen txLen) (es : List (NicEvent mtu)) : List (List UInt8) :=
  (outcomes Nic.step nic es).flatMap NicOutcome.onWire

def Nic.kept (nic : Nic mtu rxLen txLen) (es : List (NicEvent mtu)) : List (List UInt8) :=
  (List.zipWith NicEvent.kept es (outcomes Nic.step nic es)).flatten

def Nic.read (nic : Nic mtu rxLen txLen) (es : List (NicEvent mtu)) : List (List UInt8) :=
  (outcomes Nic.step nic es).flatMap NicOutcome.read

theorem Nic.never_more (hm : mtu < 2 ^ 16) (nic : Nic mtu rxLen txLen) (es : List (NicEvent mtu)) :
    (nic.restart.onWire es).Sublist (nic.restart.accepted es) ∧ (nic.restart.read es).Sublist (nic.restart.kept es) := by
  rw [onWire, accepted, read, kept, outcomes_restart hm]
  constructor
  · have h := given_sublist (Queues.tx_never_more rxLen txLen) ⟨[], []⟩ es
    exact (List.sublist_append_left _ _).trans h
  · have h := given_sublist (Queues.rx_never_more rxLen txLen) ⟨[], []⟩ es
    exact (List.sublist_append_left _ _).trans h

theorem Nic.waiting (hm : mtu < 2 ^ 16) (nic : Nic mtu rxLen txLen) {es : List (NicEvent mtu)}
    (hr : ∀ e ∈ es, e ≠ .restart) :
    (∃ waiting, nic.restart.accepted es = nic.restart.onWire es ++ waiting ∧ waiting.length ≤ txLen) ∧
      ∃ unread, nic.restart.kept es = nic.restart.read es ++ unread ∧ unread.length ≤ rxLen := by
  rw [onWire, accepted, read, kept, outcomes_restart hm]
  have hb := final_invariant (I := fun q : Queues => q.tx.length ≤ txLen ∧ q.rx.length ≤ rxLen)
    (fun _ e h => Queues.bounded_step h e) (s := ⟨[], []⟩) ⟨Nat.zero_le _, Nat.zero_le _⟩ es
  constructor
  · exact ⟨_, (given_held (fun q e he => Queues.tx_step rxLen txLen q e he) ⟨[], []⟩ hr).symm, hb.1⟩
  · exact ⟨_, (given_held (fun q e he => Queues.rx_step rxLen txLen q e he) ⟨[], []⟩ hr).symm, hb.2⟩

/-- However the driver and the DMA engine take turns, the two rings do what two queues of bounded
length do, and the engine never leaves a table. -/
theorem Nic.runs_as_queues (hm : mtu < 2 ^ 16) (nic : Nic mtu rxLen txLen) (es : List (NicEvent mtu)) :
    outcomes Nic.step nic.restart es = outcomes (Queues.step rxLen txLen) ⟨[], []⟩ es ∧
      .astray ∉ outcomes Nic.step nic.restart es ∧
      (final Nic.step nic.restart es).Represents (final (Queues.step rxLen txLen) ⟨[], []⟩ es) := by
  refine ⟨outcomes_restart hm nic es, ?_, (simulation hm).final (represents_restart nic) es⟩
  rw [outcomes_restart hm]
  exact never_outcome (fun q e => Queues.not_astray rxLen txLen q e) ⟨[], []⟩ es

theorem Nic.runs_as_queues_ecat :
    outcomes Nic.step (Nic.new (RxDT.default 1536 4) (TxDT.default 1536 4)).restart (List.replicate 5 (.send [1] [2])) =
      [.sent true, .sent true, .sent true, .sent true, .sent false] :=
  (Nic.runs_as_queues (by decide) (Nic.new (RxDT.default 1536 4) (TxDT.default 1536 4))
    (List.replicate 5 (.send [1] [2]))).1.trans (by decide)

/-- No frame is lost, repeated or moved past another on either ring, but for those a restart drops. -/
theorem Nic.conserves (hm : mtu < 2 ^ 16) (nic : Nic mtu rxLen txLen) (es : List (NicEvent mtu)) :
    ((nic.restart.onWire es).Sublist (nic.restart.accepted es) ∧
        (nic.restart.read es).Sublist (nic.restart.kept es)) ∧
      ((∀ e ∈ es, e ≠ .restart) →
        (∃ waiting, nic.restart.accepted es = nic.restart.onWire es ++ waiting ∧ waiting.length ≤ txLen) ∧
          ∃ unread, nic.restart.kept es = nic.restart.read es ++ unread ∧ unread.length ≤ rxLen) :=
  ⟨never_more hm nic es, fun hr => waiting hm nic hr⟩

theorem Nic.conserves_ecat :
    ∃ waiting, (Nic.new (RxDT.default 1536 4) (TxDT.default 1536 4)).restart.accepted
        [.send [1] [2], .send [3] [4], .transmit] =
      (Nic.new (RxDT.default 1536 4) (TxDT.default 1536 4)).restart.onWire
        [.send [1] [2], .send [3] [4], .transmit] ++ waiting ∧ waiting.length ≤ 4 :=
  ((Nic.conserves (by decide) (Nic.new (RxDT.default 1536 4) (TxDT.default 1536 4))
    [.send [1] [2], .send [3] [4], .transmit]).2 (by simp)).1

end Conservation

end EcMaster

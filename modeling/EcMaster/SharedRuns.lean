import EcMaster.Attribution

namespace EcMaster

open Library.Run Library.Segment

namespace Shared

variable {L : Layout}

theorem driven_begins {s : Shared L} (h : s.Sound) (t : Transaction) (txReady : Bool) (hx : s.exchange.tx = none) :
    (s.driven t txReady).2.2.index = s.index + UInt8.ofNat t.request.length ∧
      ((∃ e, (s.driven t txReady).1 = .error e) ∧ (s.driven t txReady).2.2.device = s.nic txReady ∨
        ∃ e : List UInt8, e[17]? = some s.index ∧ (s.driven t txReady).1 = .ok none ∧
          (s.driven t txReady).2.2.device = { s.nic txReady with wire := s.device.wire ++ [e] } ∧
          (s.driven t txReady).2.1 = ⟨⟨true, s.index, 0⟩, some (s.index, t.request)⟩) := by
  have hframe := frame_index t.tx_le s.index t.request_ne
  have hd : (Access.frame t.buffers.tx s.index t.request).getD 3 0 = s.index := by
    rw [List.getD_eq_getElem?_getD, hframe]
    rfl
  rw [driven, Exchange.drive, hx]
  dsimp only
  rw [Device.pump, if_pos (show (!s.exchange.pump.reset.sent) = true from rfl)]
  rcases (s.nic txReady).send_cases h.srcMac hframe with hs | ⟨e, he, hs⟩
  · rw [hs]
    exact ⟨rfl, Or.inl ⟨⟨_, rfl⟩, rfl⟩⟩
  · rw [hs, hd]
    exact ⟨rfl, Or.inr ⟨e, he, rfl, rfl, rfl⟩⟩

theorem driven_waits {s : Shared L} (h : s.Sound) (t : Transaction) (txReady : Bool) {q : UInt8 × List Access}
    (hx : s.exchange.tx = some q) : (s.driven t txReady).2.2.index = s.index ∧
      (∃ k ≤ s.device.rx.length, (s.driven t txReady).2.2.device = { s.nic txReady with rx := s.device.rx.drop k }) ∧
      ((s.driven t txReady).1 = .ok none → (s.driven t txReady).2.1.pump.sent = true ∧
        (s.driven t txReady).2.1.pump.expected = s.exchange.pump.expected) ∧
      ∀ rx, (s.driven t txReady).1 = .ok (some rx) →
        ∃ r rest, s.device.rx = r :: rest ∧ r[17]? = some s.exchange.pump.expected := by
  have hsent := (h.asks q hx).1
  have hmiss : (s.exchange.pump.miss pumpMaxAttempts).1 = .ok none →
      (s.exchange.pump.miss pumpMaxAttempts).2.sent = true ∧
        (s.exchange.pump.miss pumpMaxAttempts).2.expected = s.exchange.pump.expected := by
    rw [Pump.miss]
    dsimp only
    split_ifs
    · exact nofun
    · exact fun _ => ⟨hsent, rfl⟩
  have hnone : ∀ rx, (s.exchange.pump.miss pumpMaxAttempts).1 ≠ .ok (some rx) := by
    intro rx
    rw [Pump.miss]
    dsimp only
    split_ifs <;> exact nofun
  rw [driven, Exchange.drive, hx]
  dsimp only
  rw [Device.pump, hsent, Bool.not_true, if_neg (by decide)]
  rcases (s.nic txReady).poll_cases t.buffers.rx with ⟨hrx, hp⟩ | ⟨r, rest, o, hrx, hp, hindex⟩
  · rw [hp]
    exact ⟨rfl, ⟨0, Nat.zero_le _, rfl⟩, hmiss, fun rx hr => absurd hr (hnone rx)⟩
  · have hone : ({ s.nic txReady with rx := rest } : Device) = { s.nic txReady with rx := s.device.rx.drop 1 } := by
      rw [show s.device.rx = r :: rest from hrx]
      rfl
    have hle : 1 ≤ s.device.rx.length := by
      rw [show s.device.rx = r :: rest from hrx]
      exact Nat.succ_pos _
    rw [hp]
    cases o with
    | none => exact ⟨rfl, ⟨1, hle, hone⟩, hmiss, fun rx hr => absurd hr (hnone rx)⟩
    | some rx =>
      dsimp only
      split_ifs with hm
      · exact ⟨rfl, ⟨1, hle, hone⟩, nofun, fun rx' _ => ⟨r, rest, hrx, hindex rx _ rfl hm⟩⟩
      · exact ⟨rfl, ⟨1, hle, hone⟩, hmiss, fun rx' hr => absurd hr (hnone rx')⟩

theorem Numbered.waiting {s : Shared L} (h : s.Numbered) (exchange : Exchange) (cyclic : Option (Cyclic L))
    (opFrame tickFrame : ℕ) :
    ({ s with exchange := exchange, cyclic := cyclic, opFrame := opFrame, tickFrame := tickFrame } : Shared L).Numbered :=
  ⟨h.srcMac, h.index, h.wire, h.ascending, h.below, h.rx⟩

theorem Sound.driven_numbered {s : Shared L} (h : s.Sound) (t : Transaction) (txReady : Bool) :
    (s.moved (s.driven t txReady).2.2.device (s.driven t txReady).2.2.index
      (if s.exchange.tx.isNone then t.request.length else 0)).Numbered := by
  cases hx : s.exchange.tx with
  | none =>
    obtain ⟨hi, hcase⟩ := driven_begins h t txReady hx
    refine h.toNumbered.moved ?_ hi fun _ => List.length_pos_of_ne_nil t.request_ne
    rcases hcase with ⟨-, hd⟩ | ⟨e, he, -, hd, -⟩
    · rw [hd]
      exact ⟨rfl, ⟨0, Nat.zero_le _, rfl⟩, Or.inl rfl⟩
    · rw [hd]
      exact ⟨rfl, ⟨0, Nat.zero_le _, rfl⟩, Or.inr ⟨e, he, rfl⟩⟩
  | some q =>
    obtain ⟨hi, ⟨k, hk, hd⟩, -, -⟩ := driven_waits h t txReady hx
    rw [hi, hd]
    refine h.toNumbered.moved ⟨rfl, ⟨k, hk, rfl⟩, Or.inl rfl⟩ (UInt8.add_zero _).symm fun hg => ?_
    exact absurd ((s.not_grew _ rfl).symm.trans hg) (by decide)

theorem Sound.drive {s : Shared L} (h : s.Sound) (t : Transaction) (txReady : Bool) : (s.drive t txReady).Sound := by
  have hn := h.driven_numbered t txReady
  obtain ⟨ns, hns⟩ := s.moved_numbers (s.driven t txReady).2.2.device (s.driven t txReady).2.2.index
    (if s.exchange.tx.isNone then t.request.length else 0)
  have hfrom : ∀ {i index}, s.Known i index → (s.drive t txReady).Known i index := fun hk => hk.append hns
  refine ⟨hn.waiting _ _ _ _, fun q hq => ?_, fun c hc ho => hfrom (h.awaits c hc ho)⟩
  have hr : (s.driven t txReady).1 = .ok none ∧ (s.drive t txReady).exchange = (s.driven t txReady).2.1 := by
    rw [Shared.drive] at hq ⊢
    dsimp only at hq ⊢
    split at hq
    · exact ⟨by assumption, rfl⟩
    · exact absurd hq nofun
  have hop : (s.drive t txReady).opFrame =
      if s.grew (s.driven t txReady).2.2.device then s.device.wire.length else s.opFrame := rfl
  rw [hr.2, hop]
  cases hx : s.exchange.tx with
  | none =>
    obtain ⟨-, ⟨⟨e, he⟩, -⟩ | ⟨e, -, -, hd, hp⟩⟩ := driven_begins h t txReady hx
    · exact absurd (he.symm.trans hr.1) nofun
    · have hg : s.grew (s.driven t txReady).2.2.device = true := s.grew_append _ e (by rw [hd])
      rw [hg, if_pos rfl, hp]
      exact ⟨rfl, h.toNumbered.known_next (by simp [Shared.drive, Shared.moved, hg])⟩
  | some q' =>
    obtain ⟨-, ⟨k, -, hd⟩, hwait, -⟩ := driven_waits h t txReady hx
    have hg : s.grew (s.driven t txReady).2.2.device = false := s.not_grew _ (by rw [hd]; rfl)
    obtain ⟨hsent, hexpected⟩ := hwait hr.1
    rw [hg, hexpected]
    exact ⟨hsent, hfrom (h.asks q' hx).2⟩

structure Ticks (s : Shared L) (c c' : Cyclic L) (nic device : Device) (index : UInt8) : Prop where
  leaves : s.device.Leaves device s.index
  index : index = s.index + UInt8.ofNat (1 + c'.appended.length)
  expectedIndex : c'.expectedIndex = s.index
  outstanding : c'.outstanding = true → s.grew device = true
  matched : ∀ reply, c.matched nic = some reply → c.outstanding = true ∧ 0 < s.consumed device ∧
    ∃ r : List UInt8, s.device.rx[s.consumed device - 1]? = some r ∧ r[17]? = some c.expectedIndex

theorem Sound.ticks {s : Shared L} (h : s.Sound) (c : Cyclic L) (txReady : Bool) (latency : UInt32)
    (host : Option (HostBridge L)) : s.Ticks c (engineTick c (s.engineEvent txReady latency host)).1 (s.nic txReady)
      (engineTick c (s.engineEvent txReady latency host)).2.1 (engineTick c (s.engineEvent txReady latency host)).2.2 := by
  obtain ⟨d, hd⟩ := c.engineTick_eq (s.engineEvent txReady latency host)
  obtain ⟨k, hk, hin, hm⟩ := c.intake_drops (s.nic txReady) latency
  have hframe : (d.buildFrame s.index).1.sentFrame[3]? = some s.index := d.sentFrame_index s.device s.index
  have hsend : engineTick c (s.engineEvent txReady latency host) =
      d.send { s.nic txReady with rx := s.device.rx.drop k } s.index :=
    hd.trans (congrArg (fun dev => d.send dev s.index) hin)
  have hconsumed : s.device.rx.length - (s.device.rx.drop k).length = k := by
    rw [List.length_drop]
    exact Nat.sub_sub_self hk
  rw [hsend, Cyclic.send_eq]
  have hmatched : ∀ device : Device, device.rx = s.device.rx.drop k → ∀ reply, c.matched (s.nic txReady) = some reply →
      c.outstanding = true ∧ 0 < s.consumed device ∧
        ∃ r : List UInt8, s.device.rx[s.consumed device - 1]? = some r ∧ r[17]? = some c.expectedIndex := by
    intro device hrx reply hreply
    rw [consumed, hrx, hconsumed]
    exact hm reply hreply
  rcases Device.send_cases { s.nic txReady with rx := s.device.rx.drop k } h.srcMac hframe with hs | ⟨e, he, hs⟩
  · rw [hs]
    exact ⟨⟨rfl, ⟨k, hk, rfl⟩, Or.inl rfl⟩, d.buildFrame_index s.index, d.expectedIndex_buildFrame s.index, fun ho => (by cases ho),
      hmatched _ rfl⟩
  · rw [hs]
    exact ⟨⟨rfl, ⟨k, hk, rfl⟩, Or.inr ⟨e, he, rfl⟩⟩, d.buildFrame_index s.index, d.expectedIndex_buildFrame s.index,
      fun _ => s.grew_append _ e rfl, hmatched _ rfl⟩

theorem Sound.tick {s : Shared L} (h : s.Sound) (txReady : Bool) (latency : UInt32) (host : Option (HostBridge L)) :
    (s.tick (s.engineEvent txReady latency host)).Sound := by
  rw [Shared.tick]
  cases hc : s.cyclic with
  | none => exact h
  | some c =>
    have ht := h.ticks c txReady latency host
    dsimp only
    generalize engineTick c (s.engineEvent txReady latency host) = r at ht ⊢
    obtain ⟨ns, hns⟩ := s.moved_numbers r.2.1 r.2.2 (1 + r.1.appended.length)
    refine ⟨(h.toNumbered.moved ht.leaves ht.index fun _ => Nat.succ_le_iff.mpr (by omega)).waiting _ _ _ _, ?_, ?_⟩
    · exact fun q hq => ⟨(h.asks q hq).1, (h.asks q hq).2.append hns⟩
    · intro c' hc' ho
      obtain rfl := Option.some.inj hc'
      have hg := ht.outstanding ho
      rw [ht.expectedIndex]
      change Shared.Known _ (if s.grew r.2.1 then s.device.wire.length else s.tickFrame) s.index
      rw [hg, if_pos rfl]
      exact h.toNumbered.known_next (by simp [Shared.moved, hg])

theorem Sound.step {s : Shared L} (h : s.Sound) (e : SharedEvent L) : (s.step e).Sound := by
  cases e with
  | arrive sent reply => exact h.arrive sent reply
  | abandon => exact ⟨h.toNumbered.waiting _ _ _ _, fun _ hq => (by cases hq), h.awaits⟩
  | drive t txReady => exact h.drive t txReady
  | start slaves refRingPos cycleNs =>
    refine ⟨h.toNumbered.waiting _ _ _ _, h.asks, fun c hc ho => ?_⟩
    obtain rfl := Option.some.inj hc
    exact absurd ho (by simp [Cyclic.new])
  | stop => exact ⟨h.toNumbered.waiting _ _ _ _, h.asks, fun _ hc => by cases hc⟩
  | tick txReady latency host => exact h.tick txReady latency host

end Shared

end EcMaster

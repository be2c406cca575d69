import EcMaster.SharedRuns

namespace EcMaster

open Library.Run Library.Segment

namespace Shared

variable {L : Layout}

theorem Numbered.tagged {s : Shared L} (h : s.Numbered) {k : ℕ} {r : List UInt8} (hr : s.device.rx[k]? = some r)
    {index : UInt8} (hi : r[17]? = some index) : ∃ i ∈ s.tags, s.tags[k]? = some i ∧ s.Known i index := by
  obtain ⟨hlt, hget⟩ := List.getElem?_eq_some_iff.mp hr
  have hlt' : k < s.tags.length := by rw [h.rx.length_eq]; exact hlt
  obtain ⟨index', hk, hi'⟩ := h.rx.get hlt' hlt
  rw [List.get_eq_getElem, hget, hi] at hi'
  obtain rfl := Option.some.inj hi'
  exact ⟨s.tags[k], List.getElem_mem hlt', List.getElem?_eq_getElem hlt', hk⟩

theorem Sound.attributed {s : Shared L} (h : s.Sound) {e : SharedEvent L} (hf : s.Fresh e) : s.Attributed e := by
  cases e with
  | drive t txReady =>
    intro rx hr
    cases hx : s.exchange.tx with
    | none =>
      obtain ⟨-, ⟨⟨e, he⟩, -⟩ | ⟨-, -, hok, -⟩⟩ := driven_begins h t txReady hx
      · exact absurd (he.symm.trans hr) nofun
      · exact absurd (hok.symm.trans hr) nofun
    | some q =>
      obtain ⟨-, -, -, hacc⟩ := driven_waits h t txReady hx
      obtain ⟨r, rest, hrx, hi⟩ := hacc rx hr
      obtain ⟨i, -, hhead, hk⟩ := h.toNumbered.tagged (k := 0) (by rw [hrx]; rfl) hi
      rw [← List.head?_eq_getElem?] at hhead
      have hn := hf (by rw [hx]; rfl) i hhead
      rw [hhead, h.toNumbered.unique (h.asks q hx).2 hk hn]
  | tick txReady latency host =>
    intro c hc reply hm
    have ht := h.ticks c txReady latency host
    obtain ⟨ho, hpos, r, hr, hi⟩ := ht.matched reply hm
    obtain ⟨i, hmem, htag, hk⟩ := h.toNumbered.tagged hr hi
    rw [htag, h.toNumbered.unique (h.awaits c hc ho) hk (hf c hc ho i hmem)]
  | arrive | abandon | start | stop => exact trivial

theorem sound_run {srcMac : List UInt8} (hm : srcMac.length = 6) (es : List (SharedEvent L)) :
    (run step (Shared.init L srcMac) es).Sound :=
  run_invariant step (Sound.init L hm) (fun _ e h => h.step e) es

/-- In a run in which nobody who waits finds a reply whose frame lies 256 or more indices away from the awaited one,
every frame that is accepted answers the frame that is waited for. -/
theorem replies_attributed {srcMac : List UInt8} (hm : srcMac.length = 6) {es : List (SharedEvent L)}
    (hf : ∀ s e, Takes step (Shared.init L srcMac) es s e → s.Fresh e) :
    ∀ s e, Takes step (Shared.init L srcMac) es s e → s.Attributed e := by
  intro s e ht
  obtain ⟨pre, rfl⟩ := ht.reached
  exact (sound_run hm pre).attributed (hf _ e ht)

theorem Sound.fresh {s : Shared L} (h : s.Sound) (ha : s.allocated ≤ 256) (e : SharedEvent L) : s.Fresh e := by
  have hnear : ∀ i j, s.Near i j := by
    intro i j m n hm hn
    have hm' := h.below m (List.mem_of_getElem? hm)
    have hn' := h.below n (List.mem_of_getElem? hn)
    omega
  cases e with
  | drive t txReady => exact fun _ i _ => hnear _ i
  | tick txReady latency host => exact fun c _ _ i _ => hnear _ i
  | arrive | abandon | start | stop => exact trivial

def someMac : List UInt8 := [0x02, 0, 0, 0, 0, 0x01]

def readStatus : Transaction := ⟨⟨60, 60⟩, [⟨.fprd, 1, regAlStatus, [0, 0]⟩], by decide, by decide⟩

def ethernet : List UInt8 := List.replicate 12 0xFF ++ [0x88, 0xA4]

def statusReply (index : UInt8) : List UInt8 :=
  ethernet ++ [0x0E, 0x10, 0x04, index, 1, 0, 0x30, 0x01, 2, 0, 0, 0, 0x08, 0, 1, 0]

def lrwEcho (index : UInt8) : List UInt8 :=
  ethernet ++ [0x11, 0x10, 0x0C, index, 0, 0, 0, 0, 5, 0, 0, 0, 0, 0, 0, 0, 0, 3, 0]

def axis : CyclicSlave := ⟨1, 0⟩

def answered : List (SharedEvent (oneDrive 1)) :=
  [.drive readStatus true, .arrive 0 (statusReply 0), .drive readStatus true, .start [axis] 0 1000000, .tick true 0 none,
    .arrive 1 (lrwEcho 1), .tick true 0 none]

theorem replies_attributed_both : (∀ s e, Takes step (Shared.init _ someMac) answered s e → s.Attributed e) ∧
    (run step (Shared.init _ someMac) answered).exchange.tx = none ∧
      (run step (Shared.init _ someMac) answered).cyclic.map (·.domain.lastWkc) = some 3 := by
  refine ⟨replies_attributed rfl ?_, by decide +kernel, by decide +kernel⟩
  have ha : Along step (fun s _ => s.allocated ≤ 256) (Shared.init _ someMac) answered := by decide +kernel
  intro s e ht
  obtain ⟨pre, hs⟩ := ht.reached
  exact (hs ▸ sound_run rfl pre : s.Sound).fresh (along_iff.mp ha s e ht) e

def IsLrw (f : List UInt8) : Prop := slice f 16 1 = [0x0C] ∧ slice f 18 4 = [0, 0, 0, 0]

instance (f : List UInt8) : Decidable (IsLrw f) := by unfold IsLrw; infer_instance

structure Wrapping (s : Shared L) (n : ℕ) : Prop where
  srcMac : s.device.srcMac.length = 6
  sent : s.device.wire ≠ []
  lrw : ∀ f ∈ s.device.wire.tail, IsLrw f
  rx : s.device.rx = []
  engine : ∃ c, s.cyclic = some c ∧ c.phase = .priming
  allocated : s.allocated = n
  numbers : s.numbers = List.range n
  asks : s.exchange.tx ≠ none
  opFrame : s.opFrame = 0

theorem received_silent (c : Cyclic L) {dev : Device} (h : dev.rx = []) (latency : UInt32) :
    (c.intake dev latency).2 = dev ∧ (c.received dev latency).phase = c.phase := by
  obtain ⟨k, -, hin, hm⟩ := c.intake_drops dev latency
  have hmatched : c.matched dev = none := by
    rw [Option.eq_none_iff_forall_not_mem]
    intro reply hreply
    obtain ⟨-, -, r, hr, -⟩ := hm reply hreply
    rw [h] at hr
    exact absurd hr nofun
  constructor
  · rw [hin, h, List.drop_nil, ← h]
  · rw [c.received_eq, Cyclic.processed, hmatched]
    rfl

theorem isLrw_frame (dev : Device) (h : dev.srcMac.length = 6) {frame : List UInt8} {index : UInt8}
    (hf : slice frame 2 6 = [0x0C, index, 0, 0, 0, 0]) (pad : List UInt8) : IsLrw (dev.header ++ frame ++ pad) := by
  have hl := dev.length_header h
  have hlen : 8 ≤ frame.length := by
    have h6 := congrArg List.length hf
    rw [length_slice] at h6
    simp at h6
    omega
  have hs : ∀ off n, off + n ≤ 6 → slice (dev.header ++ frame ++ pad) (16 + off) n =
      slice [0x0C, index, 0, 0, 0, 0] off n := by
    intro off n ho
    have h16 : 16 + off = dev.header.length + (2 + off) := by omega
    rw [← hf, slice_slice ho, List.append_assoc, h16, slice_append_right,
      slice_prefix (List.prefix_append _ _) (by omega)]
  exact ⟨hs 0 1 (by decide), hs 2 4 (by decide)⟩

theorem IsLrw.answered {f : List UInt8} (h : IsLrw f) {index : UInt8} (hi : f[17]? = some index) :
    IsReply f (lrwEcho index) := by
  have hslice : ∀ off n, off + n ≤ 4 → slice f (18 + off) n = slice [0, 0, 0, 0] off n := by
    intro off n ho
    rw [← h.2, slice_slice ho]
  have hhead : slice f 16 2 = [0x0C, index] := by
    apply List.ext_getElem?
    intro i
    have h16 := congrArg (fun xs : List UInt8 => xs[0]?) h.1
    simp [getElem?_slice] at h16
    rw [getElem?_slice]
    match i with
    | 0 => simpa using h16
    | 1 => simpa using hi
    | i + 2 => rfl
  exact ⟨rfl, le_trans (by decide) (le_of_eq (show 33 = (lrwEcho index).length from rfl)), hhead.symm, (hslice 2 2 (by decide)).symm, Or.inr (hslice 0 2 (by decide)).symm⟩

theorem Wrapping.tick {s : Shared L} {n : ℕ} (h : s.Wrapping n) :
    (s.step (.tick true 0 none)).Wrapping (n + 1) := by
  obtain ⟨c, hc, hp⟩ := h.engine
  obtain ⟨hdev, hphase⟩ := received_silent c (show (s.nic true).rx = [] from h.rx) 0
  generalize hd : c.received (s.nic true) 0 = d at hphase
  have happended : (d.buildFrame s.index).1.appended = [] := by
    rw [(d.buildFrame_builds s.index).appended, Cyclic.appendix, hphase, hp]
    rfl
  have hlen : ethHeaderLen + (d.buildFrame s.index).1.sentFrame.length ≤ ecatMtu := by
    have hl := d.txLen_buildFrame s.index
    rw [Cyclic.sentFrame, List.length_take]
    simp only [ethHeaderLen, ecatMtu, cyclicBuf, maxImage] at hl ⊢
    omega
  obtain ⟨pad, he⟩ := (s.nic true).send_taken rfl hlen
  have hlrw : IsLrw ((s.nic true).header ++ (d.buildFrame s.index).1.sentFrame ++ pad) :=
    isLrw_frame _ h.srcMac (d.slice_buildFrame s.index) pad
  generalize (s.nic true).header ++ (d.buildFrame s.index).1.sentFrame ++ pad = e at he hlrw
  have hr : engineTick c (s.engineEvent true 0 none) = ({ (d.buildFrame s.index).1 with outstanding := true },
      { s.nic true with wire := s.device.wire ++ [e] }, (d.buildFrame s.index).2) := by
    change (c.received (s.nic true) 0).send (c.intake (s.nic true) 0).2 s.index = _
    rw [hd, hdev, Cyclic.send_eq, he]
    rfl
  have hg : s.grew { s.nic true with wire := s.device.wire ++ [e] } = true := s.grew_append _ e rfl
  rw [step, Shared.tick, hc]
  dsimp only
  rw [hr]
  refine ⟨h.srcMac, List.append_ne_nil_of_left_ne_nil h.sent [e], ?_, h.rx, ⟨_, rfl, ?_⟩, ?_, ?_, h.asks, h.opFrame⟩
  · intro f hf
    change f ∈ (s.device.wire ++ [e]).tail at hf
    rw [List.tail_append_of_ne_nil h.sent] at hf
    rcases List.mem_append.mp hf with hf | hf
    · exact h.lrw f hf
    · rw [List.mem_singleton.mp hf]
      exact hlrw
  · exact ((d.buildFrame_keeps s.index).phase.trans hphase).trans hp
  · change s.allocated + (1 + (d.buildFrame s.index).1.appended.length) = n + 1
    rw [h.allocated, happended]
    rfl
  · change (if s.grew _ then s.numbers ++ [s.allocated] else s.numbers) = _
    rw [hg, if_pos rfl, h.numbers, h.allocated, List.range_succ]

theorem Wrapping.ticks {s : Shared L} {n : ℕ} (h : s.Wrapping n) (k : ℕ) :
    (run step s (List.replicate k (.tick true 0 none))).Wrapping (n + k) := by
  induction k with
  | zero => exact h
  | succ k ih =>
    rw [List.replicate_succ', run_concat, ← Nat.add_assoc]
    exact ih.tick

theorem Wrapping.arrives {s : Shared L} (h : s.Wrapping 257) (hs : s.Sound) : s.step (.arrive 256 (lrwEcho 0)) =
    { s with device := { s.device with rx := [lrwEcho 0] }, tags := [256] } := by
  have hlt : 256 < s.device.wire.length := by rw [← hs.length, h.numbers, List.length_range]; decide
  have hindex : s.device.wire[256][17]? = some 0 := by
    have hw := hs.wire.get (i := 256) (by rw [h.numbers, List.length_range]; decide) hlt
    simpa [h.numbers] using hw
  have hlrw : IsLrw s.device.wire[256] := by
    apply h.lrw
    rw [List.mem_iff_getElem]
    exact ⟨255, by rw [List.length_tail]; omega, by rw [List.getElem_tail]⟩
  have htags : s.tags = [] := List.eq_nil_of_length_eq_zero (by rw [hs.rx.length_eq, h.rx]; rfl)
  rw [step, Shared.arrive, List.getElem?_eq_getElem hlt]
  dsimp only
  rw [if_pos ⟨hlrw.answered hindex, by rw [h.rx]; decide⟩, h.rx, htags]
  rfl

theorem Wrapping.misattributes {s : Shared L} (h : s.Wrapping 257) (hs : s.Sound) :
    s.Prompt (.arrive 256 (lrwEcho 0)) ∧ ¬ (s.step (.arrive 256 (lrwEcho 0))).Attributed (.drive readStatus true) := by
  refine ⟨fun n hn => ?_, fun hattr => ?_⟩
  · rw [h.numbers, List.getElem?_range (by decide)] at hn
    rw [h.allocated, ← Option.some.inj hn]
    decide
  · have harrive := h.arrives hs
    obtain ⟨q, hq⟩ := Option.ne_none_iff_exists'.mp h.asks
    obtain ⟨hsent, n, hn, hexpected⟩ := hs.asks q hq
    rw [h.opFrame, h.numbers, List.getElem?_range (by decide)] at hn
    obtain rfl := Option.some.inj hn
    have hdriven : ∃ rx, ((s.step (.arrive 256 (lrwEcho 0))).driven readStatus true).1 = .ok (some rx) := by
      rw [harrive, driven, Exchange.drive]
      dsimp only
      rw [hq]
      dsimp only
      rw [Device.pump, hsent, Bool.not_true, if_neg (by decide), hexpected]
      exact ⟨(lrwEcho 0).drop ethHeaderLen, rfl⟩
    obtain ⟨rx, hrx⟩ := hdriven
    have hhead := hattr rx hrx
    rw [harrive] at hhead
    change some 256 = some s.opFrame at hhead
    rw [h.opFrame] at hhead
    exact absurd hhead (by decide)

def outwaited : List (SharedEvent (oneDrive 1)) :=
  [.drive readStatus true, .start [axis] 0 1000000] ++ List.replicate 256 (.tick true 0 none)

def wrapped : List (SharedEvent (oneDrive 1)) := outwaited ++ [.arrive 256 (lrwEcho 0)]

theorem answers_outwaited : outwaited.filterMap SharedEvent.answers = [] := by
  rw [outwaited, List.filterMap_append, List.filterMap_replicate]
  rfl

theorem outwaited_wrapping : (run step (Shared.init (oneDrive 1) someMac) outwaited).Wrapping 257 := by
  have hw : (run step (Shared.init (oneDrive 1) someMac) [.drive readStatus true, .start [axis] 0 1000000]).Wrapping 1 :=
    ⟨by decide +kernel, by decide +kernel, by decide +kernel, by decide +kernel, ⟨_, rfl, rfl⟩, by decide +kernel, by decide +kernel, by decide +kernel, by decide +kernel⟩
  rw [outwaited, run_append]
  exact hw.ticks 256

theorem reply_misattributed : (wrapped.filterMap SharedEvent.answers).Nodup ∧
    (∀ s e, Takes step (Shared.init _ someMac) wrapped s e → s.Prompt e) ∧
    ¬ (run step (Shared.init _ someMac) wrapped).Attributed (.drive readStatus true) := by
  obtain ⟨hprompt, hmis⟩ := outwaited_wrapping.misattributes (sound_run rfl outwaited)
  refine ⟨?_, fun s e ht => ?_, ?_⟩
  · rw [wrapped, List.filterMap_append, answers_outwaited]
    exact List.nodup_singleton 256
  · rcases takes_concat.mp ht with ⟨pre, post, he, -⟩ | ⟨hs, he⟩
    · have hnone : e.answers = none := by
        have hmem : e ∈ outwaited := by
          rw [he]
          exact List.mem_append_right pre List.mem_cons_self
        have hall := List.filterMap_eq_nil_iff.mp answers_outwaited
        exact hall e hmem
      cases e with
      | arrive sent reply => exact absurd hnone nofun
      | abandon | drive | start | stop | tick => exact trivial
    · rw [hs, he]
      exact hprompt
  · rw [wrapped, run_concat]
    exact hmis

end Shared

end EcMaster

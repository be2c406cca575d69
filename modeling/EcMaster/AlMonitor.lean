import EcMaster.Library.RoundRobin
import EcMaster.OpGating
import EcMaster.Pairing

namespace EcMaster

open Library.Run Library.RoundRobin

def Walked.AsksStatus (w : Walked) : Prop := w.reply.command = Command.code .fprd ∧ w.ado = regAlStatus

instance (w : Walked) : Decidable w.AsksStatus := by unfold Walked.AsksStatus; infer_instance

/-- Each read of the AL status of `station` in the sent frame was answered as `P` says. -/
def StatusRead (sent reply : List UInt8) (station : UInt16) (P : Reply → Prop) : Prop :=
  ∀ p ∈ (walk sent).zip (walk reply), p.1.AsksStatus → p.1.adp = station → P p.2.reply

instance (sent reply : List UInt8) (station : UInt16) (P : Reply → Prop) [DecidablePred P] :
    Decidable (StatusRead sent reply station P) := by unfold StatusRead; infer_instance

instance (sent reply : List UInt8) : Decidable (KeepsStructure sent reply) := by unfold KeepsStructure; infer_instance

namespace Cyclic

variable {L : Layout}

def asked (c : Cyclic L) : List UInt16 := ((walk c.sentFrame).filter Walked.AsksStatus).map Walked.adp

structure SameMonitor (c c' : Cyclic L) : Prop where
  monToggle : c'.monToggle = c.monToggle
  monCursor : c'.monCursor = c.monCursor

theorem SameMonitor.trans {a b c : Cyclic L} (h : a.SameMonitor b) (h' : b.SameMonitor c) : a.SameMonitor c :=
  ⟨h'.monToggle.trans h.monToggle, h'.monCursor.trans h.monCursor⟩

theorem foldl_sameMonitor (c : Cyclic L) (actions : List AppliedReply) :
    c.SameMonitor (actions.foldl applyAction c) := by
  induction actions generalizing c with
  | nil => exact ⟨rfl, rfl⟩
  | cons a actions ih =>
    apply SameMonitor.trans _ (ih (c.applyAction a))
    cases a <;> exact ⟨rfl, rfl⟩

theorem primed_sameMonitor (c : Cyclic L) : c.SameMonitor c.primed := by
  rw [primed]
  split_ifs <;> exact ⟨rfl, rfl⟩

theorem entered_sameMonitor (c : Cyclic L) : c.SameMonitor c.entered := by
  rw [entered]
  split_ifs <;> exact ⟨rfl, rfl⟩

theorem absorb_sameMonitor (c : Cyclic L) (lrw : Reply) (answers : List (Appended × Reply)) :
    c.SameMonitor (c.absorb lrw answers) := by
  set d := ({ c with domain := (c.domain.applyReply lrw).2 : Cyclic L }.countGood lrw.workingCounter) with hd
  have h₀ : c.SameMonitor d := ⟨rfl, rfl⟩
  have h₁ := d.primed_sameMonitor
  have h₂ := d.primed.foldl_sameMonitor (answers.map fun p => decodeAppended p.1 p.2)
  have h₃ := ((answers.map fun p => decodeAppended p.1 p.2).foldl applyAction d.primed).entered_sameMonitor
  exact ((h₀.trans h₁).trans h₂).trans h₃

theorem received_sameMonitor (c : Cyclic L) (dev : Device) (latency : UInt32) :
    c.SameMonitor (c.received dev latency) := by
  rw [received_eq]
  cases c.processed dev with
  | none => exact ⟨rfl, rfl⟩
  | some p =>
    have h := (c.beginTick latency).absorb_sameMonitor p.1 (c.answered dev)
    exact ⟨h.monToggle, h.monCursor⟩

def nextCursor (c : Cyclic L) : ℕ := if c.monToggle then c.monCursor else (c.monCursor + 1) % c.slaves.length

structure Monitors (r c' : Cyclic L) : Prop where
  monToggle : c'.monToggle = !r.monToggle
  monCursor : c'.monCursor = r.nextCursor
  frame : ∃ lrw armw tele, walk c'.sentFrame = laidOut ecFrameHeaderSize [lrw, armw, tele] ∧
    lrw.command = Command.code .lrw ∧ armw.command = Command.code .armw ∧
    if r.monToggle then c'.appended = [.dcArmw, .dcDiff] ∧ tele.ado = regDcSysTimeDiff
    else c'.appended = [.dcArmw, .alPoll] ∧ tele.command = Command.code .fprd ∧ tele.ado = regAlStatus ∧
      (r.slaves.map SlaveRt.station)[r.nextCursor]? = some tele.adp

theorem appendTelemetry_toggle (c : Cyclic L) (index : UInt8) : (c.appendTelemetry index).monToggle = c.monToggle := by
  rw [appendTelemetry]
  split_ifs <;> rfl

theorem appendMonitor_flag (c : Cyclic L) (index : UInt8) (hn : 1 < c.slaves.length) :
    (c.appendMonitor index).1.monToggle = !c.monToggle ∧ (c.appendMonitor index).1.monCursor = c.nextCursor := by
  rw [appendMonitor, if_neg (Nat.not_le.mpr hn)]
  exact ⟨congrArg not (appendTelemetry_toggle _ _), appendTelemetry_cursor _ _⟩

theorem send_monitors {c : Cyclic L} (hp : c.phase = .operational) (hn : 1 < c.slaves.length) (dev : Device)
    (index : UInt8) : c.Monitors (c.send dev index).1 := by
  have hb : c.buildFrame index = (c.startFrame index).appendMonitor (index + 1) := by
    have hphase : (c.startFrame index).phase = .operational := hp
    rw [buildFrame, hphase]
  obtain ⟨ht, hc⟩ := appendMonitor_flag (c.startFrame index) (index + 1) hn
  have hw := c.walk_buildFrame index
  have ha := c.appended_send dev index
  have hm : c.appendix (index + 1) = c.monitor (index + 1) := by rw [appendix, hp]
  rw [hm, monitor, if_neg (by omega)] at hw ha
  refine ⟨?_, ?_, c.lrwDatagram index, _, _, hw, rfl, rfl, ?_⟩
  · change (c.buildFrame index).1.monToggle = _
    rw [hb, ht]
    rfl
  · change (c.buildFrame index).1.monCursor = _
    rw [hb, hc]
    rfl
  · rw [ha]
    cases hf : c.monToggle with
    | true => simp [telemetry, hf]
    | false =>
      obtain ⟨s, hs⟩ := advanceMonitor_slave hn
      have hcur : c.nextCursor = c.advanceMonitor.monCursor := by
        rw [nextCursor, hf]
        rfl
      have hst : (c.slaves.map SlaveRt.station)[c.nextCursor]? = some c.advanceMonitor.pollStation := by
        have hs' : c.slaves[c.nextCursor]? = some s := by rw [hcur]; exact hs
        rw [List.getElem?_map, hs', pollStation_of_slave hs]
        rfl
      simp [telemetry, hf, hst]

theorem Monitors.congr {r d c' : Cyclic L} (h : d.Monitors c') (hs : d.slaves = r.slaves) (hm : r.SameMonitor d) :
    r.Monitors c' := by
  have hc : d.nextCursor = r.nextCursor := by rw [nextCursor, nextCursor, hm.monToggle, hm.monCursor, hs]
  have hf := h.frame
  rw [hm.monToggle, hc, hs] at hf
  exact ⟨by rw [h.monToggle, hm.monToggle], h.monCursor.trans hc, hf⟩

theorem engineStep_send (c : Cyclic L) (e : EngineTick L) :
    ∃ d dev, d.slaves = (c.received e.dev e.latency).slaves ∧ d.phase = (c.received e.dev e.latency).phase ∧
      (c.received e.dev e.latency).SameMonitor d ∧ engineStep c e = (d.send dev e.index).1 := by
  obtain ⟨image, hi, drives, dev, he⟩ := c.engineStep_controlled e
  refine ⟨_, dev, ?_, ?_, ?_, he⟩
  · rfl
  · rfl
  · exact ⟨rfl, rfl⟩

theorem engineStep_monitors {c : Cyclic L} {e : EngineTick L} (hp : (engineStep c e).phase = .operational)
    (hn : 1 < c.slaves.length) : (c.received e.dev e.latency).Monitors (engineStep c e) := by
  obtain ⟨d, dev, hs, hphase, hm, he⟩ := c.engineStep_send e
  have hd : d.phase = .operational := by rw [hphase, ← (c.engineStep_requests e).phase, hp]
  have hlen : 1 < d.slaves.length := by rw [hs, (c.received_holds e.dev e.latency).1.slaveCount]; exact hn
  rw [he]
  exact (send_monitors hd hlen dev e.index).congr hs hm

theorem Monitors.asked {r c' : Cyclic L} (h : r.Monitors c') :
    c'.asked = (if r.monToggle then [] else [r.nextCursor]).filterMap fun i => (r.slaves.map SlaveRt.station)[i]? := by
  obtain ⟨lrw, armw, tele, hw, hl, ha, ht⟩ := h.frame
  have hlrw : Command.code .lrw ≠ Command.code .fprd := by decide
  have harmw : Command.code .armw ≠ Command.code .fprd := by decide
  rw [Cyclic.asked, hw]
  cases hf : r.monToggle with
  | true =>
    rw [hf, if_pos rfl] at ht
    have hdiff : regDcSysTimeDiff ≠ regAlStatus := by decide
    simp [laidOut, Walked.AsksStatus, hl, ha, ht.2, hlrw, harmw, hdiff]
  | false =>
    rw [hf, if_neg (by decide)] at ht
    rw [if_neg (by decide), List.filterMap_cons, ht.2.2.2]
    simp [laidOut, Walked.AsksStatus, hl, ha, ht.2.1, ht.2.2.1, hlrw, harmw]

theorem tick_monitors {c : Cyclic L} {st : List UInt16} (hst : c.slaves.map SlaveRt.station = st) (hn : 2 ≤ st.length)
    {e : EngineTick L} (hp : (engineStep c e).phase = .operational) :
    (engineStep c e).monToggle = (!c.monToggle) ∧ (engineStep c e).monCursor = c.nextCursor ∧
      (engineStep c e).asked = (if c.monToggle then [] else [c.nextCursor]).filterMap fun i => st[i]? := by
  have hlen : 1 < c.slaves.length := by rw [← List.length_map SlaveRt.station, hst]; exact hn
  have hm := engineStep_monitors hp hlen
  have hs := c.received_sameMonitor e.dev e.latency
  have hold := (c.received_holds e.dev e.latency).1
  have hc : (c.received e.dev e.latency).nextCursor = c.nextCursor := by
    rw [nextCursor, nextCursor, hs.monToggle, hs.monCursor, hold.slaveCount]
    rfl
  have ha := hm.asked
  rw [hs.monToggle, hc, hold.stations] at ha
  refine ⟨by rw [hm.monToggle, hs.monToggle], hm.monCursor.trans hc, ?_⟩
  rw [← hst]
  exact ha

theorem nextCursor_eq {c : Cyclic L} {st : List UInt16} (hst : c.slaves.map SlaveRt.station = st) :
    c.nextCursor = if c.monToggle then c.monCursor else (c.monCursor + 1) % st.length := by
  rw [nextCursor, ← hst, List.length_map]

theorem engineStep_stations (c : Cyclic L) (e : EngineTick L) :
    (engineStep c e).slaves.map SlaveRt.station = c.slaves.map SlaveRt.station := by
  rw [(c.engineStep_requests e).slaves]
  exact (c.received_holds e.dev e.latency).1.stations

theorem asked_visits {c : Cyclic L} {st : List UInt16} (hst : c.slaves.map SlaveRt.station = st) (hn : 2 ≤ st.length)
    {fs : List (EngineTick L)} (hp : ∀ c' ∈ visited engineStep c fs, c'.phase = .operational) :
    (visited engineStep c fs).flatMap asked =
      (visits st.length c.monToggle c.monCursor fs.length).filterMap fun i => st[i]? := by
  induction fs generalizing c with
  | nil => rfl
  | cons f fs ih =>
    obtain ⟨ht, hc, ha⟩ := tick_monitors hst hn (hp _ List.mem_cons_self)
    have hr := ih ((c.engineStep_stations f).trans hst) fun c' h => hp c' (List.mem_cons_of_mem _ h)
    rw [nextCursor_eq hst] at hc ha
    rw [visited, List.flatMap_cons, hr, ha, ht, hc, List.length_cons]
    cases c.monToggle with
    | true => rfl
    | false =>
      exact (List.filterMap_append (f := fun i => st[i]?) (l := [(c.monCursor + 1) % st.length])).symm

theorem polls_after {c : Cyclic L} {st : List UInt16} (hst : c.slaves.map SlaveRt.station = st) (hn : 2 ≤ st.length)
    {e : EngineTick L} (ho : (engineStep c e).phase = .operational) {j k : ℕ} {station : UInt16}
    (hj : st[j]? = some station) (hv : j ∈ visits st.length c.monToggle c.monCursor (k + 1)) :
    station ∈ (engineStep c e).asked ∨
      j ∈ visits st.length (engineStep c e).monToggle (engineStep c e).monCursor k := by
  obtain ⟨ht, hc, ha⟩ := tick_monitors hst hn ho
  rw [nextCursor_eq hst] at hc ha
  rw [ht, hc, ha]
  cases hf : c.monToggle with
  | true =>
    rw [hf, visits] at hv
    exact Or.inr hv
  | false =>
    rw [hf, visits, List.mem_cons] at hv
    rcases hv with rfl | hv
    · refine Or.inl ?_
      simp [hj]
    · exact Or.inr hv

end Cyclic

end EcMaster

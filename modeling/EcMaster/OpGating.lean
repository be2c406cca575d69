import EcMaster.OpCursor
import EcMaster.OpRequest

namespace EcMaster

open Library.Run

namespace Cyclic

variable {L : Layout}

theorem Requests.reached {r c' : Cyclic L} {index : UInt8} (h : r.Requests c' index) (j : ℕ) :
    c'.reached j = r.reached j := by
  rw [Cyclic.reached, h.slaves]
  rfl

theorem Gated.step {c : Cyclic L} (h : c.Gated) (hn : c.slaves ≠ []) (e : EngineTick L) : (engineStep c e).Gated := by
  have hq := c.engineStep_requests e
  have hold := (c.received_holds e.dev e.latency).1
  obtain ⟨hle, hskip, -⟩ := (c.received e.dev e.latency).seekOp_spec
  have hbehind := h.received_behind e.dev e.latency
  have hcursor : (c.received e.dev e.latency).opCursor = c.opCursor := hold.opCursor
  refine ⟨?_, ?_, ?_, ?_, ?_, ?_⟩
  · intro j hj
    rw [hq.reached]
    rw [hq.opCursor] at hj
    split_ifs at hj
    · by_cases hjc : j < c.opCursor
      · exact hbehind j hjc
      · exact hskip j (by omega) hj
    · exact hbehind j (hcursor ▸ hj)
  · intro j hj
    rw [hq.reached] at hj
    have hj := h.received_ahead e.dev e.latency j hj
    rw [hq.opCursor]
    split_ifs <;> omega
  · intro j hj
    rw [hq.appended] at hj
    obtain ⟨p, hp, hk⟩ := List.mem_map.mp hj
    rcases mem_appendix hp with ⟨hr, -, ⟨hc, -⟩ | ⟨hs, -⟩⟩ | ⟨-, hc | hc | hc, -⟩
    · exact absurd (hk.symm.trans hc) (by simp)
    · rw [hq.opCursor, if_pos hr, hq.phase]
      exact ⟨Appended.status.inj (hk.symm.trans hs), hr⟩
    all_goals exact absurd (hk.symm.trans hc) (by simp)
  · intro hj
    rw [hq.appended] at hj
    obtain ⟨p, hp, hk⟩ := List.mem_map.mp hj
    rcases mem_appendix hp with ⟨-, -, ⟨hc, -⟩ | ⟨hs, -⟩⟩ | ⟨ho, -⟩
    · exact absurd (hk.symm.trans hc) (by simp)
    · exact absurd (hk.symm.trans hs) (by simp)
    · exact hq.phase.trans ho
  · intro hp j
    rw [hq.reached]
    have hr : (c.received e.dev e.latency).phase = .priming := hq.phase.symm.trans hp
    exact h.received_unprimed e.dev e.latency ((h.received_phase hn e.dev e.latency).to_priming hr) j
  · intro hp j hj
    rw [hq.slaves, hold.slaveCount] at hj
    rw [hq.reached]
    exact h.received_complete e.dev e.latency (hq.phase.symm.trans hp) j hj

theorem new_slaves (slaves : List CyclicSlave) (refRingPos : UInt16) (cycleNs : UInt64) :
    (Cyclic.new L slaves refRingPos cycleNs).slaves =
      (slaves.take ecMaxSlaves).map fun s => ⟨s.station, s.ringPos, false⟩ := by
  rw [new, Library.Segment.foldl_pushWithin _ _ _ (Nat.zero_le _), List.nil_append, List.map_take]
  rfl

theorem new_gated (slaves : List CyclicSlave) (refRingPos : UInt16) (cycleNs : UInt64) :
    (Cyclic.new L slaves refRingPos cycleNs).Gated := by
  have hr : ∀ j, (Cyclic.new L slaves refRingPos cycleNs).reached j = false := by
    intro j
    rw [reached, new_slaves, List.getElem?_map]
    cases (slaves.take ecMaxSlaves)[j]? <;> rfl
  have hp : (Cyclic.new L slaves refRingPos cycleNs).phase = .priming := rfl
  refine ⟨fun j hj => absurd hj (Nat.not_lt_zero j), ?_, fun j hj => absurd hj List.not_mem_nil,
    fun hj => absurd hj List.not_mem_nil, fun _ => hr, fun ho => absurd (hp.symm.trans ho) (by decide)⟩
  intro j hj
  exact absurd (hj.symm.trans (hr j)) (by decide)

def stations (slaves : List CyclicSlave) : List UInt16 := (slaves.take ecMaxSlaves).map CyclicSlave.station

def ReportsOp (start : Cyclic L) (es : List (EngineTick L)) (j : ℕ) : Prop :=
  ∃ c e dg, Takes engineStep start es c e ∧ (.status j, dg) ∈ c.answered e.dev ∧ SaysOp dg

structure OpRun (slaves : List CyclicSlave) (start : Cyclic L) (es : List (EngineTick L)) (c : Cyclic L) : Prop where
  gated : c.Gated
  stations : c.slaves.map SlaveRt.station = stations slaves
  reports : ∀ j, c.reached j = true → ReportsOp start es j

theorem stations_ne_nil {slaves : List CyclicSlave} (hn : slaves ≠ []) : stations slaves ≠ [] := by
  cases slaves with
  | nil => exact absurd rfl hn
  | cons s slaves => exact List.cons_ne_nil _ _

theorem OpRun.slaves_ne_nil {slaves : List CyclicSlave} (hn : slaves ≠ []) {start c : Cyclic L}
    {es : List (EngineTick L)} (h : OpRun slaves start es c) : c.slaves ≠ [] := by
  intro hc
  have hs := h.stations
  rw [hc] at hs
  exact stations_ne_nil hn hs.symm

theorem OpRun.tick {slaves : List CyclicSlave} (hn : slaves ≠ []) {start : Cyclic L} {es : List (EngineTick L)}
    (h : OpRun slaves start es (run engineStep start es)) (e : EngineTick L) :
    OpRun slaves start (es ++ [e]) (engineStep (run engineStep start es) e) := by
  set c := run engineStep start es with hc
  have hq := c.engineStep_requests e
  refine ⟨h.gated.step (h.slaves_ne_nil hn) e, ?_, ?_⟩
  · rw [hq.slaves]
    exact (c.received_holds e.dev e.latency).1.stations.trans h.stations
  · intro j hj
    rw [hq.reached] at hj
    rcases (c.received_moves e.dev e.latency).reached_of j hj with hr | ⟨dg, ha, hok⟩
    · obtain ⟨t, f, dg, ht, hr⟩ := h.reports j hr
      exact ⟨t, f, dg, ht.append _, hr⟩
    · exact ⟨c, e, dg, hc ▸ takes_last start es e, ha, hok⟩

theorem opRun {slaves : List CyclicSlave} (hn : slaves ≠ []) (refRingPos : UInt16) (cycleNs : UInt64)
    (es : List (EngineTick L)) :
    OpRun slaves (Cyclic.new L slaves refRingPos cycleNs) es
      (run engineStep (Cyclic.new L slaves refRingPos cycleNs) es) := by
  apply run_history engineStep (P := OpRun slaves (Cyclic.new L slaves refRingPos cycleNs))
  · have hg := new_gated (L := L) slaves refRingPos cycleNs
    refine ⟨hg, ?_, ?_⟩
    · rw [new_slaves, stations, List.map_map]
      rfl
    · intro j hj
      exact absurd (hj.symm.trans (hg.unprimed rfl j)) (by decide)
  · intro es e h
    exact h.tick hn e

def AsksStatus (slaves : List CyclicSlave) (j : ℕ) (d : Datagram) : Prop :=
  d.command = Command.code .fprd ∧ d.ado = regAlStatus ∧ (stations slaves)[j]? = some d.adp

def FirstShort (slaves : List CyclicSlave) (c : Cyclic L) (station : UInt16) : Prop :=
  ∃ j, (stations slaves)[j]? = some station ∧ c.reached j = false ∧ ∀ i < j, c.reached i = true

theorem op_gating {slaves : List CyclicSlave} (hn : slaves ≠ []) (refRingPos : UInt16) (cycleNs : UInt64)
    (es : List (EngineTick L)) (e : EngineTick L) :
    let start := Cyclic.new L slaves refRingPos cycleNs
    let c := run engineStep start es
    let c' := engineStep c e
    PhaseStep c.phase c'.phase ∧
      (c'.phase = .operational → ∀ j < (stations slaves).length, ReportsOp start (es ++ [e]) j) ∧
      (∃ (asked : List (Appended × Datagram)) (lrw : Datagram), c'.appended = asked.map Prod.fst ∧ datagrams c'.sentFrame = lrw :: asked.map Prod.snd ∧
        lrw.command = Command.code .lrw ∧ ∀ j d, (.status j, d) ∈ asked → AsksStatus slaves j d) ∧
      (∀ d ∈ datagrams c'.sentFrame, d.ado = regAlControl →
        c'.phase = .requestingOp ∧ FirstShort slaves c' d.adp) ∧
      ∃ k, ∀ j, c'.reached j = true ↔ j < k := by
  intro start c c'
  have h : OpRun slaves start es c := opRun hn refRingPos cycleNs es
  have h' : OpRun slaves start (es ++ [e]) c' := h.tick hn e
  have hq : (c.received e.dev e.latency).Requests c' e.index := c.engineStep_requests e
  have hst : (c.received e.dev e.latency).slaves.map SlaveRt.station = stations slaves := by
    rw [← hq.slaves]
    exact h'.stations
  obtain ⟨image, hd⟩ := hq.datagrams
  refine ⟨?_, ?_, ?_, ?_, ?_⟩
  · rw [hq.phase]
    exact h.gated.received_phase (h.slaves_ne_nil hn) e.dev e.latency
  · intro hp j hj
    rw [← h'.stations, List.length_map] at hj
    exact h'.reports j (h'.gated.complete hp j hj)
  · refine ⟨_, _, hq.appended, hd, rfl, ?_⟩
    intro j d hjd
    rcases mem_appendix hjd with ⟨-, hs, ⟨hc, -⟩ | ⟨hk, hcmd, hado⟩⟩ | ⟨-, hc | hc | hc, -⟩
    · exact absurd hc (by simp)
    · obtain rfl := Appended.status.inj hk
      exact ⟨hcmd, hado, hst ▸ hs⟩
    all_goals exact absurd hc (by simp)
  · intro d hm hado
    rw [hd] at hm
    rcases List.mem_cons.mp hm with rfl | hm
    · exact absurd hado (by decide : (0x0000 : UInt16) ≠ regAlControl)
    · obtain ⟨p, hp, rfl⟩ := List.mem_map.mp hm
      rcases mem_appendix hp with ⟨hr, hs, -⟩ | ⟨-, -, hne⟩
      · obtain ⟨-, hskip, hshort⟩ := (c.received e.dev e.latency).seekOp_spec
        have hcur : c'.opCursor = (c.received e.dev e.latency).seekOp.opCursor := by rw [hq.opCursor, if_pos hr]
        refine ⟨hq.phase.trans hr, _, hst ▸ hs, (hq.reached _).trans hshort, ?_⟩
        intro i hi
        exact h'.gated.behind i (hcur ▸ hi)
      · exact absurd hado hne
  · by_cases hk : c'.reached c'.opCursor = true
    · refine ⟨c'.opCursor + 1, fun j => ⟨fun hj => Nat.lt_succ_of_le (h'.gated.ahead j hj), fun hj => ?_⟩⟩
      rcases Nat.lt_succ_iff_lt_or_eq.mp hj with hj | rfl
      · exact h'.gated.behind j hj
      · exact hk
    · refine ⟨c'.opCursor, fun j => ⟨fun hj => ?_, h'.gated.behind j⟩⟩
      exact lt_of_le_of_ne (h'.gated.ahead j hj) fun he => hk (he ▸ hj)

def bringUp : List (EngineTick (oneDrive 1)) :=
  let lrw := answerFrame .lrw 7 [0, 0, 0, 0, 0] 3 []
  [[], [lrw], [lrw], [lrw], [lrw]].map fun rx => ⟨Device.receiving rx, 7, 0, none⟩

def reportsOp : EngineTick (oneDrive 1) :=
  let status := [0x04, 8, 0x01, 0x10, 0x30, 0x01, 2, 0, 0, 0, 0x08, 0, 1, 0]
  ⟨Device.receiving [answerFrame .lrw 7 [0, 0, 0, 0, 0] 3 status], 7, 0, none⟩

theorem op_gating_bringUp :
    ReportsOp (Cyclic.new (oneDrive 1) [⟨0x1001, 0⟩] 0 1000000) (bringUp ++ [reportsOp]) 0 :=
  (op_gating (L := oneDrive 1) (List.cons_ne_nil ⟨0x1001, 0⟩ []) 0 1000000 bringUp reportsOp).2.1
    (by decide +kernel) 0 (by decide)

end Cyclic

end EcMaster

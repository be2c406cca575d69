import EcMaster.AlMonitor

namespace EcMaster

open Library.Run Library.RoundRobin

namespace Cyclic

variable {L : Layout}

theorem Monitors.fault {r c : Cyclic L} (h : r.Monitors c) {station : UInt16} (ha : station ∈ c.asked) {dev : Device}
    {reply : List UInt8} (hm : c.matched dev = some reply) (hk : KeepsStructure c.sentFrame reply)
    (hr : StatusRead c.sentFrame reply station SaysFault) (latency : UInt32) :
    (c.received dev latency).phase = .faulted := by
  rw [h.asked] at ha
  obtain ⟨lrw, armw, tele, hw, -, -, ht⟩ := h.frame
  cases hf : r.monToggle with
  | true =>
    rw [hf] at ha
    exact absurd ha List.not_mem_nil
  | false =>
    rw [hf, if_neg (by decide)] at ht
    obtain ⟨happ, hcmd, hado, hst⟩ := ht
    simp only [hf, Bool.false_eq_true, ↓reduceIte, List.filterMap_cons, hst, List.filterMap_nil,
      List.mem_singleton] at ha
    have hlen : (walk reply).length = 3 := by
      have hc := congrArg List.length hk
      rwa [List.length_map, List.length_map, hw, length_laidOut] at hc
    obtain ⟨w, w₁, w₂, hwalk⟩ := List.length_eq_three.mp hlen
    have hanswered := (answered_of_walk hm hwalk (by rw [happ]; rfl)).2
    rw [happ] at hanswered
    have hsays : SaysFault w₂.reply := by
      rw [StatusRead, hw, hwalk] at hr
      exact hr _ (List.mem_cons_of_mem _ (List.mem_cons_of_mem _ List.mem_cons_self)) ⟨hcmd, hado⟩ ha.symm
    apply (c.received_moves dev latency).fault
    refine ⟨(.alPoll, w₂.reply), ?_, decodeAppended_alPoll hsays⟩
    rw [hanswered]
    exact List.mem_cons_of_mem _ List.mem_cons_self

theorem phase_faulted {c : Cyclic L} (h : c.Gated) (hn : c.slaves ≠ []) (hp : c.phase = .faulted) (e : EngineTick L) :
    (engineStep c e).phase = .faulted := by
  rw [(c.engineStep_requests e).phase]
  have hs := h.received_phase hn e.dev e.latency
  rw [hp] at hs
  generalize (c.received e.dev e.latency).phase = q at hs
  cases hs
  rfl

structure Runs (st : List UInt16) (c : Cyclic L) : Prop where
  gated : c.Gated
  stations : c.slaves.map SlaveRt.station = st

theorem Runs.slaves_ne_nil {st : List UInt16} {c : Cyclic L} (h : Runs st c) (hn : 2 ≤ st.length) : c.slaves ≠ [] := by
  intro hc
  rw [← h.stations, hc] at hn
  exact absurd hn (by decide)

theorem Runs.step {st : List UInt16} {c : Cyclic L} (h : Runs st c) (hn : 2 ≤ st.length) (e : EngineTick L) :
    Runs st (engineStep c e) :=
  ⟨h.gated.step (h.slaves_ne_nil hn) e, (c.engineStep_stations e).trans h.stations⟩

theorem Runs.stays_faulted {st : List UInt16} {c : Cyclic L} (h : Runs st c) (hn : 2 ≤ st.length)
    (hp : c.phase = .faulted) (fs : List (EngineTick L)) : (run engineStep c fs).phase = .faulted := by
  induction fs generalizing c with
  | nil => exact hp
  | cons f fs ih => exact ih (h.step hn f) (phase_faulted h.gated (h.slaves_ne_nil hn) hp f)

theorem Runs.operational_or_faulted {st : List UInt16} {c : Cyclic L} (h : Runs st c) (hn : 2 ≤ st.length)
    (hp : c.phase = .operational) (e : EngineTick L) :
    (engineStep c e).phase = .operational ∨ (engineStep c e).phase = .faulted := by
  rw [(c.engineStep_requests e).phase]
  have hs := h.gated.received_phase (h.slaves_ne_nil hn) e.dev e.latency
  rw [hp] at hs
  generalize (c.received e.dev e.latency).phase = q at hs
  cases hs with
  | stay => exact Or.inl rfl
  | drop => exact Or.inr rfl

/-- The tick gets an intact reply in which the slave at `station` shows that it is out of OP. -/
def ShowsFault (station : UInt16) (c : Cyclic L) (e : EngineTick L) : Prop :=
  ∃ reply, c.matched e.dev = some reply ∧ KeepsStructure c.sentFrame reply ∧
    StatusRead c.sentFrame reply station SaysFault

theorem Runs.faults {st : List UInt16} {c : Cyclic L} (h : Runs st c) (hn : 2 ≤ st.length) {r : Cyclic L}
    (hm : r.Monitors c) (hp : c.phase = .operational) {j : ℕ} {station : UInt16} (hj : st[j]? = some station)
    {fs : List (EngineTick L)} {k : ℕ} (hk : fs.length = k + 1)
    (hpoll : station ∈ c.asked ∨ j ∈ visits st.length c.monToggle c.monCursor k)
    (hs : ∀ c' f, Takes engineStep c fs c' f → ShowsFault station c' f) : (run engineStep c fs).phase = .faulted := by
  induction fs generalizing c r k with
  | nil => exact absurd hk (Nat.succ_ne_zero k).symm
  | cons f fs ih =>
    obtain rfl : fs.length = k := Nat.succ.inj hk
    rcases h.operational_or_faulted hn hp f with ho | hf
    · obtain ⟨reply, hmatch, hkeep, hread⟩ := hs c f (takes_head c f fs)
      rcases hpoll with ha | hv
      · have hfault := hm.fault ha hmatch hkeep hread f.latency
        rw [← (c.engineStep_requests f).phase, ho] at hfault
        exact absurd hfault (by decide)
      · cases hfs : fs with
        | nil =>
          rw [hfs] at hv
          exact absurd hv List.not_mem_nil
        | cons f' fs' =>
          have hlen : fs.length = fs'.length + 1 := by rw [hfs, List.length_cons]
          have hm' := engineStep_monitors ho
            (by rw [← List.length_map SlaveRt.station, h.stations]; exact hn)
          rw [hlen] at hv
          rw [← hfs]
          exact ih (h.step hn f) hm' ho hlen (polls_after h.stations hn ho hj hv) fun c' g hg => hs c' g hg.tail
    · exact (h.step hn f).stays_faulted hn hf fs

def FaultRead (c : Cyclic L) (p : Appended × Reply) : Prop :=
  p.2.workingCounter ≠ 0 ∧
    (((∃ j, p.1 = .status j) ∨ p.1 = .alPoll) ∧ p.2.data.headD 0 &&& alStateError ≠ 0 ∨
      p.1 = .alPoll ∧ c.phase = .operational ∧ p.2.data.headD 0 &&& alStateMask ≠ alStateOp)

theorem decodeAppended_status_fault {j : ℕ} {dg : Reply} (h : decodeAppended (.status j) dg = .fault) :
    dg.workingCounter ≠ 0 ∧ dg.data.headD 0 &&& alStateError ≠ 0 := by
  simp only [decodeAppended] at h
  split_ifs at h with h₁ h₂
  exact ⟨h₁, h₂⟩

theorem Gated.fault_cause {c : Cyclic L} (h : c.Gated) {e : EngineTick L} (hp : c.phase ≠ .faulted)
    (hf : (engineStep c e).phase = .faulted) : ∃ p ∈ c.answered e.dev, c.FaultRead p := by
  rw [(c.engineStep_requests e).phase] at hf
  have hm := c.received_moves e.dev e.latency
  by_cases hx : ∃ p ∈ c.answered e.dev, decodeAppended p.1 p.2 = .fault
  · obtain ⟨⟨kind, dg⟩, ha, hd⟩ := hx
    refine ⟨(kind, dg), ha, ?_⟩
    rcases decodeAppended_fault hd with ⟨j, rfl⟩ | ⟨rfl, hw, he | hs⟩
    · obtain ⟨hw, he⟩ := decodeAppended_status_fault hd
      exact ⟨hw, Or.inl ⟨Or.inl ⟨j, rfl⟩, he⟩⟩
    · exact ⟨hw, Or.inl ⟨Or.inr rfl, he⟩⟩
    · exact ⟨hw, Or.inr ⟨rfl, h.polled (mem_answered ha), hs⟩⟩
  · rcases hm.noFault (fun p hp hd => hx ⟨p, hp, hd⟩) with hs | ⟨-, hr⟩ | ⟨-, hr, -⟩
    · exact absurd (hs.symm.trans hf) hp
    · exact absurd (hr.symm.trans hf) (by decide)
    · exact absurd (hr.symm.trans hf) (by decide)

theorem runs_run {slaves : List CyclicSlave} (hn : 2 ≤ (stations slaves).length) (refRingPos : UInt16)
    (cycleNs : UInt64) (es : List (EngineTick L)) :
    Runs (stations slaves) (run engineStep (Cyclic.new L slaves refRingPos cycleNs) es) := by
  have hne : slaves ≠ [] := by
    rintro rfl
    exact absurd hn (by decide)
  have h := opRun (L := L) hne refRingPos cycleNs es
  exact ⟨h.gated, h.stations⟩

/-- AL monitoring of two or more slaves: any 2n frames in OP read each AL status once, a slave out of OP faults
the engine within 2n + 1 answered ticks, and nothing but an AL-status answer does. -/
theorem al_monitoring {slaves : List CyclicSlave} (hn : 2 ≤ (stations slaves).length) (refRingPos : UInt16)
    (cycleNs : UInt64) (es : List (EngineTick L)) :
    let n := (stations slaves).length
    let c := run engineStep (Cyclic.new L slaves refRingPos cycleNs) es
    (∀ fs, fs.length = 2 * n → (∀ c' ∈ visited engineStep c fs, c'.phase = .operational) →
        ((visited engineStep c fs).flatMap asked).Perm (stations slaves)) ∧
      (∀ e fs, fs.length = 2 * n → ∀ station ∈ stations slaves, (engineStep c e).phase = .operational →
        (∀ c' f, Takes engineStep (engineStep c e) fs c' f → ShowsFault station c' f) →
        (run engineStep c (e :: fs)).phase = .faulted) ∧
      ∀ e, c.phase ≠ .faulted → (engineStep c e).phase = .faulted → ∃ p ∈ c.answered e.dev, c.FaultRead p := by
  intro n c
  have h : Runs (stations slaves) c := runs_run hn refRingPos cycleNs es
  refine ⟨?_, ?_, fun e => h.gated.fault_cause⟩
  · intro fs hl hp
    rw [asked_visits h.stations hn hp, hl]
    exact visited_perm _ _ _
  · intro e fs hl station hs ho hf
    obtain ⟨j, hj, hst⟩ := List.mem_iff_getElem.mp hs
    have hj' : (stations slaves)[j]? = some station := by rw [List.getElem?_eq_getElem hj, hst]
    have hlen : 1 < c.slaves.length := by
      rw [← List.length_map SlaveRt.station, h.stations]
      exact hn
    obtain ⟨k, hk⟩ : ∃ k, 2 * n = k + 1 := ⟨2 * n - 1, by omega⟩
    have hv : j ∈ visits n c.monToggle c.monCursor (k + 1) := hk ▸ mem_visits hj c.monToggle c.monCursor
    have hpoll := polls_after h.stations hn ho hj' hv
    exact (h.step hn e).faults hn (engineStep_monitors ho hlen) ho hj' (hl.trans hk) hpoll hf

def twoSlaves : List CyclicSlave := [⟨0x1001, 0⟩, ⟨0x1002, 1⟩]

def answer (rest : List UInt8) : List UInt8 := answerFrame .lrw 7 [0, 0, 0, 0, 0] 3 rest

def statusAnswer (index slave state : UInt8) : List UInt8 :=
  [0x04, index, slave, 0x10, 0x30, 0x01, 2, 0, 0, 0, state, 0, 1, 0]

def monitorAnswer (rest : List UInt8) : List UInt8 :=
  answer ([0x0D, 8, 0, 0, 0x10, 0x09, 8, 0x80, 0, 0, 0, 0, 0, 0, 0, 0, 0, 0, 2, 0] ++ rest)

def driftAnswer : List UInt8 := [0x04, 9, 0x02, 0x10, 0x2C, 0x09, 4, 0, 0, 0, 0, 0, 0, 0, 1, 0]

def ticks (frames : List (List UInt8)) : List (EngineTick (oneDrive 1)) :=
  frames.map fun f => ⟨Device.receiving [f], 7, 0, none⟩

def twoUp : List (EngineTick (oneDrive 1)) :=
  ticks [[], answer [], answer [], answer [], answer [], answer (statusAnswer 8 1 8), answer []]

def secondUp : EngineTick (oneDrive 1) := ⟨Device.receiving [answer (statusAnswer 8 2 8)], 7, 0, none⟩

def firstDrops : List (List UInt8) :=
  [monitorAnswer driftAnswer, monitorAnswer (statusAnswer 9 2 8), monitorAnswer driftAnswer,
    monitorAnswer (statusAnswer 9 1 4)]

theorem al_monitoring_two :
    let start := Cyclic.new (oneDrive 1) twoSlaves 0 1000000
    ((visited engineStep (run engineStep start (twoUp ++ [secondUp])) (ticks [[], [], [], []])).flatMap asked).Perm
        (stations twoSlaves) ∧
      (run engineStep (run engineStep start twoUp) (secondUp :: ticks firstDrops)).phase = .faulted ∧
      ∃ p ∈ (run engineStep start (twoUp ++ secondUp :: ticks (firstDrops.take 3))).answered
          (Device.receiving [monitorAnswer (statusAnswer 9 1 4)]),
        (run engineStep start (twoUp ++ secondUp :: ticks (firstDrops.take 3))).FaultRead p := by
  intro start
  refine ⟨?_, ?_, ?_⟩
  · exact (al_monitoring (by decide) 0 1000000 (twoUp ++ [secondUp])).1 (ticks [[], [], [], []]) rfl (by decide +kernel)
  · refine (al_monitoring (by decide) 0 1000000 twoUp).2.1 secondUp (ticks firstDrops) rfl 0x1001 (by decide)
      (by decide +kernel) ?_
    intro c f ht
    rcases takes_cons ht with ⟨rfl, rfl⟩ | ht
    · exact ⟨monitorAnswer driftAnswer, by decide +kernel⟩
    rcases takes_cons ht with ⟨rfl, rfl⟩ | ht
    · exact ⟨monitorAnswer (statusAnswer 9 2 8), by decide +kernel⟩
    rcases takes_cons ht with ⟨rfl, rfl⟩ | ht
    · exact ⟨monitorAnswer driftAnswer, by decide +kernel⟩
    rcases takes_cons ht with ⟨rfl, rfl⟩ | ht
    · exact ⟨monitorAnswer (statusAnswer 9 1 4), by decide +kernel⟩
    · exact absurd ht not_takes_nil
  · exact (al_monitoring (by decide) 0 1000000 (twoUp ++ secondUp :: ticks (firstDrops.take 3))).2.2
      ⟨Device.receiving [monitorAnswer (statusAnswer 9 1 4)], 7, 0, none⟩ (by decide +kernel) (by decide +kernel)

end Cyclic

end EcMaster

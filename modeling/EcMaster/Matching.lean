import EcMaster.Conduct
import EcMaster.Operations

namespace EcMaster

open Library.Dialogue Library.Dialogue.Script Library.Segment Library.LittleEndian

def WritesTo (slaves : List SlaveInfo) (cfgs : List SlaveSetup) (request : List Access) : Prop :=
  ∀ a ∈ request, a.command = .fpwr → ∃ cfg ∈ cfgs, ∃ info, slaveAt slaves cfg.position = some info ∧
    a.adp = info.stationAddr

theorem lawful_configureDc {rule : Exchanged → List Access → Prop} {station : UInt16} {cfg : DcCfg} {dcRef : DcRef}
    (hread : ∀ log q, (∀ a ∈ q, a.command ≠ .fpwr) → rule log q)
    (hwrite : ∀ log ado payload, rule log [⟨.fpwr, station, ado, payload⟩]) : Lawful rule (configureDc station cfg dcRef) := by
  have hsync : ∀ start, Lawful rule (writeSync station cfg start) := fun start =>
    lawful_put (fun log => hwrite log _ _) (lawful_put (fun log => hwrite log _ _)
      (lawful_put (fun log => hwrite log _ _) fun _ => trivial))
  rw [configureDc]
  split_ifs
  · refine fun log => obeys_replied (hread log _ (by simp)) fun rx reply _ => ?_
    split_ifs
    · trivial
    refine obeys_exchange (hread _ _ (by simp)) fun rx => ?_
    cases parseTwoPortReads rx with
    | error e => trivial
    | ok ports =>
      refine obeys_put (hwrite _ _ _) fun rx => obeys_exchange (hread _ _ (by simp)) fun rx => ?_
      cases parseThreeU64Reads rx with
      | error e => trivial
      | ok t => exact obeys_put (hwrite _ _ _) fun _ => hsync _ _
  · exact lawful_put (fun log => hwrite log _ _) fun log => obeys_replied (hread log _ (by simp)) fun _ _ _ => hsync _ _

section

variable {B : Bus} {slaves : List SlaveInfo}

theorem lawful_slaveFsm {cfgs : List SlaveSetup} {cfg : SlaveSetup} {info : SlaveInfo} (hcfg : cfg ∈ cfgs)
    (hinfo : slaveAt slaves cfg.position = some info) :
    Lawful (fun _ => WritesTo slaves cfgs) (B.slaveFsm slaves info cfg).script := by
  have hwrite : ∀ ado payload, WritesTo slaves cfgs [⟨.fpwr, info.stationAddr, ado, payload⟩] := by
    intro ado payload a ha _
    obtain rfl := List.mem_singleton.mp ha
    exact ⟨cfg, hcfg, info, hinfo, rfl⟩
  have hread : ∀ q : List Access, (∀ a ∈ q, a.command ≠ .fpwr) → WritesTo slaves cfgs q :=
    fun q hq a ha hw => absurd hw (hq a ha)
  refine lawful_slaveConfig (fun _ q hq => ?_) (fun _ _ => hwrite _ _) fun dc _ =>
    lawful_configureDc (fun _ => hread) fun _ => hwrite
  cases hq with
  | status => exact hread _ (by simp)
  | statusCode => exact hread _ (by simp)
  | mailboxStatus => exact hread _ (by simp)
  | sdoResponse => exact hread _ (by simp)
  | _ => exact hwrite _ _

theorem lawful_bringUpAll {all cfgs : List SlaveSetup} (hall : ∀ cfg ∈ cfgs, cfg ∈ all) (ready : List CyclicSlave) :
    Lawful (fun _ => WritesTo slaves all) (bringUpAll B slaves cfgs ready) := by
  induction cfgs generalizing ready with
  | nil => exact fun _ => trivial
  | cons cfg cfgs ih =>
    obtain ⟨hcfg, hcfgs⟩ := List.forall_mem_cons.mp hall
    rw [bringUpAll]
    cases hinfo : slaveAt slaves cfg.position with
    | none => exact fun _ => trivial
    | some info => exact (lawful_slaveFsm hcfg hinfo).bind fun _ => ih hcfgs _

theorem bringUpAll_missing {cfgs : List SlaveSetup} {i : ℕ} {cfg : SlaveSetup} (hi : cfgs[i]? = some cfg)
    (hnone : slaveAt slaves cfg.position = none) (ready : List CyclicSlave) :
    bringUpAll B slaves cfgs ready =
      (bringUpAll B slaves (cfgs.take i) ready).bind fun _ => .skip (.fail .noSuchSlave) := by
  induction cfgs generalizing i ready with
  | nil => exact absurd hi nofun
  | cons c cfgs ih =>
    cases i with
    | zero =>
      obtain rfl := Option.some.inj hi
      rw [bringUpAll, hnone]
      rfl
    | succ i =>
      rw [List.take_succ_cons, bringUpAll, bringUpAll]
      cases slaveAt slaves c.position with
      | none => rfl
      | some info =>
        dsimp only
        rw [bind_assoc]
        exact congrArg _ (funext fun _ => ih hi _)

end

def SlaveInfo.unidentified (s : SlaveInfo) : SlaveInfo := { s with vendorId := 0, productCode := 0, revision := 0 }

theorem slaveAt_unidentified (slaves : List SlaveInfo) (position : ℕ) :
    slaveAt (slaves.map SlaveInfo.unidentified) position = (slaveAt slaves position).map SlaveInfo.unidentified :=
  List.find?_map

theorem dcRef_unidentified (B : Bus) (slaves : List SlaveInfo) (info : SlaveInfo) :
    B.dcRef (slaves.map SlaveInfo.unidentified) info.unidentified = B.dcRef slaves info := by
  rw [Bus.dcRef, slaveAt_unidentified, Bus.dcRef]
  cases slaveAt slaves B.layout.bus.refClockSlave.toNat with
  | none => rfl
  | some r => rfl

theorem step_unidentified (B : Bus) (slaves : List SlaveInfo) (s : ConfigSeq) (k : Link) :
    s.step B (slaves.map SlaveInfo.unidentified) k = s.step B slaves k := by
  rw [ConfigSeq.step, ConfigSeq.step]
  cases B.slaves[s.idx]? with
  | none => rfl
  | some cfg =>
    dsimp only
    cases s.fsm with
    | some fsm => rfl
    | none =>
      dsimp only
      rw [slaveAt_unidentified]
      cases slaveAt slaves cfg.position with
      | none => rfl
      | some info =>
        have hfsm : B.slaveFsm (slaves.map SlaveInfo.unidentified) info.unidentified cfg = B.slaveFsm slaves info cfg := by
          rw [Bus.slaveFsm, dcRef_unidentified]
          rfl
        rw [Option.map_some]
        dsimp only
        rw [hfsm]
        rfl

namespace Master

variable {B : Bus}

theorem begin_startCyclic {m m' : Master B} {cycleNs : UInt64} (h : m.begin (.startCyclic cycleNs) = (.ok (), m')) :
    m' = { m with op := some (.startCyclic .new cycleNs) } := by
  rw [begin, prepare] at h
  by_cases hnone : m.slaves = []
  · rw [if_pos hnone] at h
    cases h
  · rw [if_neg hnone] at h
    exact (Prod.mk.inj h).2.symm

theorem start_reaches {m m' m'' : Master B} {cycleNs : UInt64} (h : m.begin (.startCyclic cycleNs) = (.ok (), m'))
    {es : ℕ → List (PitTick B.layout) × Device} {r : Except EcError Outcome} (he : Ends m' es r m'') :
    ∃ lines, m''.log = m'.log ++ lines ∧
      ((ConfigSeq.new.script B m.slaves).map fun _ => Outcome.cyclicStarted).Reaches lines (polled (some r) m'').1 := by
  obtain ⟨lines, hlog, hreach⟩ := he.reaches (begin_active h)
  obtain rfl := begin_startCyclic h
  exact ⟨lines, hlog, hreach⟩

/-- What a start from `m'` to `m''` has found: a slave at each configured ring position when it completes. Where there is
none it fails, and writes only to the matches of the slaves configured before. -/
structure Matched (slaves : List SlaveInfo) (m' : Master B) (r : Except EcError Outcome) (m'' : Master B) : Prop where
  complete : r = .ok .cyclicStarted → ∀ cfg ∈ B.slaves, ∃ info, slaveAt slaves cfg.position = some info
  missing : ∀ (i : ℕ) (cfg : SlaveSetup), B.slaves[i]? = some cfg → slaveAt slaves cfg.position = none →
    (∃ e, r = .error e) ∧
      ∃ lines, m''.log = m'.log ++ lines ∧ ∀ x ∈ lines, WritesTo slaves (B.slaves.take i) x.1

theorem matched_of_ends {m m' m'' : Master B} {cycleNs : UInt64} (h : m.begin (.startCyclic cycleNs) = (.ok (), m'))
    {es : ℕ → List (PitTick B.layout) × Device} {r : Except EcError Outcome} (he : Ends m' es r m'') :
    Matched m.slaves m' r m'' := by
  obtain ⟨lines, hlog, hreach⟩ := start_reaches h he
  have hmissing : ∀ (i : ℕ) (cfg : SlaveSetup), B.slaves[i]? = some cfg → slaveAt m.slaves cfg.position = none →
      ConfigSeq.new.script B m.slaves =
        (bringUpAll B m.slaves (B.slaves.take i) []).bind fun _ => .skip (.fail .noSuchSlave) := by
    intro i cfg hi hnone
    have hne : B.slaves ≠ [] := fun hnil => absurd (hnil ▸ hi) nofun
    rw [ConfigSeq.script_new, if_neg hne]
    exact bringUpAll_missing hi hnone []
  have hfails : ∀ (i : ℕ) (cfg : SlaveSetup), B.slaves[i]? = some cfg → slaveAt m.slaves cfg.position = none →
      ∀ outcome, r ≠ .ok outcome := by
    rintro i cfg hi hnone outcome rfl
    obtain ⟨ready, hret, -⟩ := returns_map.mp hreach
    rw [hmissing i cfg hi hnone] at hret
    obtain ⟨l, l', a, -, -, hfail⟩ := returns_bind.mp hret
    exact not_returns_fail (returns_skip.mp hfail)
  refine ⟨fun hr cfg hcfg => ?_, fun i cfg hi hnone => ⟨?_, lines, hlog, fun x hx => ?_⟩⟩
  · cases hinfo : slaveAt m.slaves cfg.position with
    | some info => exact ⟨info, rfl⟩
    | none =>
      obtain ⟨i, hi⟩ := List.mem_iff_getElem?.mp hcfg
      exact absurd hr (hfails i cfg hi hinfo _)
  · cases r with
    | error e => exact ⟨e, rfl⟩
    | ok outcome => exact absurd rfl (hfails i cfg hi hnone outcome)
  · obtain ⟨before, after, hsplit⟩ := List.append_of_mem hx
    rw [hmissing i cfg hi hnone] at hreach
    have hlaw : Lawful (fun _ => WritesTo m.slaves (B.slaves.take i))
        (((bringUpAll B m.slaves (B.slaves.take i) []).bind fun _ => Script.skip (.fail .noSuchSlave)).map
          fun _ : List CyclicSlave => Outcome.cyclicStarted) :=
      Lawful.bind (Lawful.bind (lawful_bringUpAll (fun _ h => h) []) fun _ _ => trivial) fun _ _ => trivial
    exact Obeys.reaches hreach (hlaw []) hsplit

/-- A start is refused on an empty list; on any other it ends and the ring positions have been matched. The
identities make no difference. -/
theorem start_matches (m : Master B) (cycleNs : UInt64) :
    (m.slaves = [] ∧ m.begin (.startCyclic cycleNs) = (.error .noSuchSlave, m) ∨
      m.slaves ≠ [] ∧ ∃ m', m.begin (.startCyclic cycleNs) = (.ok (), m') ∧
        ∀ es, (∃ r m'', Ends m' es r m'') ∧ ∀ r m'', Ends m' es r m'' → Matched m.slaves m' r m'') ∧
      ∀ others s k, others.map SlaveInfo.unidentified = m.slaves.map SlaveInfo.unidentified →
        ConfigSeq.step B others s k = ConfigSeq.step B m.slaves s k := by
  constructor
  · by_cases hnone : m.slaves = []
    · refine Or.inl ⟨hnone, ?_⟩
      rw [begin, prepare, if_pos hnone]
    · right
      have h : m.begin (.startCyclic cycleNs) = (.ok (), { m with op := some (.startCyclic .new cycleNs) }) := by
        rw [begin, prepare, if_neg hnone]
        rfl
      exact ⟨hnone, _, h, fun es => ⟨active_ends (begin_active h) es, fun r m'' he => matched_of_ends h he⟩⟩
  · intro others s k hs
    rw [← step_unidentified B others, hs, step_unidentified]

end Master

def bareSlave : SlaveSetup := { valuesSlave 0 with vendorId := 0x994, productCode := 0x1B00, sms := [], fmmus := [] }

def stranger : SlaveInfo := ⟨0, 1, 1, 0, 0, 0, 7, 7, 0, 0x1000, 64, 0x1080, 64, 4, true⟩

namespace Master

variable {B : Bus}

def replaced : Master (.plain [bareSlave]) := ⟨[stranger], 0, none, [], none, []⟩

def strangerReplies (n : ℕ) : Device :=
  let data := [zeros 48, [0, 0], zeros 8, zeros 8, [2, 0], [2, 0], [0xC2, 0x09], [0xD0, 0x07], [4, 0], [4, 0]]
  let request := [0, 0, 0, 1, 1, 2, 2, 3, 3, 4, 4, 5, 5, 5, 5, 5, 5, 6, 6, 7, 7, 7, 7, 8, 8, 9].getD n 0
  Device.receiving [answerFrame .fprd (UInt8.ofNat request) (data.getD request []) 1 []]

def ended (m : Master B) (es : ℕ → List (PitTick B.layout) × Device) (n : ℕ) : Option (Except EcError Outcome) :=
  (playing continued m es n).bind fun s => ((s.ticked (es n).1).pollOp (es n).2).1

theorem ends_of_ended {m : Master B} {es : ℕ → List (PitTick B.layout) × Device} {n : ℕ} {r : Except EcError Outcome}
    (h : m.ended es n = some r) : ∃ m'', Ends m es r m'' := by
  obtain ⟨s, hs, hr⟩ := Option.bind_eq_some_iff.mp h
  exact ⟨_, n, s, _, hs, Prod.ext hr rfl⟩

theorem stranger_started : ∃ m' es m'', replaced.begin (.startCyclic 1000000) = (.ok (), m') ∧
    Ends m' es (.ok .cyclicStarted) m'' ∧
      ∃ cfg ∈ (Bus.plain [bareSlave]).slaves, ∀ info, slaveAt replaced.slaves cfg.position = some info →
        info.vendorId ≠ cfg.vendorId ∧ info.productCode ≠ cfg.productCode := by
  obtain ⟨m'', hends⟩ := ends_of_ended (m := (replaced.begin (.startCyclic 1000000)).2) (n := 25)
    (r := .ok .cyclicStarted) (show ended _ (fun n => ([], strangerReplies n)) 25 = _ by decide +kernel)
  refine ⟨_, _, m'', rfl, hends, bareSlave, List.mem_singleton_self _, fun info hinfo => ?_⟩
  obtain rfl : stranger = info := Option.some.inj hinfo
  decide

end Master

end EcMaster

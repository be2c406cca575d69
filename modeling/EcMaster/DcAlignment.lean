import EcMaster.Conduct
import EcMaster.MultiRead

namespace EcMaster

open Library.Dialogue Library.Dialogue.Script Library.Segment Library.LittleEndian

def DcTimes.newOffset (t : DcTimes) : UInt64 := t.oldOff + (t.refSys - t.folSys)

/-- A clock that shows its local time with an offset. -/
structure DcClock where
  localTime : UInt64
  offset : UInt64

namespace DcClock

def systemTime (c : DcClock) : UInt64 := c.localTime + c.offset

def sampled (c : DcClock) (ref : UInt64) : DcTimes := ⟨ref, c.systemTime, c.offset⟩

def aligned (c : DcClock) (ref : UInt64) : DcClock := { c with offset := (c.sampled ref).newOffset }

def programmed (c : DcClock) (payload : List UInt8) : DcClock := { c with offset := UInt64.ofNat (leNat payload) }

def later (c : DcClock) (time : UInt64) : DcClock := { c with localTime := c.localTime + time }

theorem systemTime_aligned (c : DcClock) (ref : UInt64) : (c.aligned ref).systemTime = ref := by
  rw [systemTime, aligned, sampled, DcTimes.newOffset, systemTime]
  dsimp only
  rw [← UInt64.add_assoc]
  exact add_sub_cancel _ _

theorem systemTime_programmed {c : DcClock} {t : DcTimes} (hfol : c.systemTime = t.folSys) (hold : c.offset = t.oldOff) :
    (c.programmed (leBytes 8 t.newOffset.toNat)).systemTime = t.refSys := by
  have ht : c.sampled t.refSys = t := by rw [sampled, hfol, hold]
  have hword : UInt64.ofNat (leNat (leBytes 8 t.newOffset.toNat)) = t.newOffset := by
    have hlt := t.newOffset.toNat_lt
    rw [leNat_leBytes, Nat.mod_eq_of_lt (by simpa using hlt), UInt64.ofNat_toNat]
  have ha := c.systemTime_aligned t.refSys
  rw [aligned, ht] at ha
  rw [programmed, hword]
  exact ha

theorem newOffset_of_shown {c : DcClock} {ref : UInt64} (h : c.systemTime = ref) :
    (c.sampled ref).newOffset = c.offset := by
  rw [DcTimes.newOffset, sampled, h]
  dsimp only
  rw [UInt64.sub_self, UInt64.add_zero]

theorem systemTime_later (c : DcClock) (time : UInt64) : (c.later time).systemTime = c.systemTime + time := by
  rw [systemTime, later, systemTime]
  dsimp only
  rw [UInt64.add_assoc, UInt64.add_comm time, ← UInt64.add_assoc]

theorem aligned_later (c : DcClock) (ref time : UInt64) :
    ((c.aligned ref).later time).aligned (ref + time) = (c.aligned ref).later time := by
  have hshown : ((c.aligned ref).later time).systemTime = ref + time := by
    rw [systemTime_later, systemTime_aligned]
  rw [aligned, newOffset_of_shown hshown]

end DcClock

namespace DcCfg

def cycle (cfg : DcCfg) : ℕ := max cfg.sync0CycleNs.toNat 1

theorem startFrom_modEq (cfg : DcCfg) (target : ℕ) : cfg.startFrom target ≡ cfg.sync0ShiftNs.toNat [MOD cfg.cycle] := by
  rw [startFrom]
  exact Nat.ModEq.trans (Nat.ModEq.add_right _ (Nat.modEq_zero_iff_dvd.mpr (Dvd.intro_left _ rfl))) (by rw [Nat.zero_add])

theorem startFrom_le (cfg : DcCfg) (target : ℕ) :
    cfg.startFrom target ≤ target + cfg.cycle + cfg.sync0ShiftNs.toNat := by
  rw [startFrom, cycle, Nat.add_mul, Nat.one_mul]
  have hdiv := Nat.div_mul_le_self target (max cfg.sync0CycleNs.toNat 1)
  omega

theorem toNat_start {cfg : DcCfg} {now : UInt64} (h : cfg.InTime now.toNat) :
    (cyclicStart cfg now).toNat = cfg.startFrom (now.toNat + 100000000) := by
  rw [InTime] at h
  have hlt : now.toNat + 100000000 < 2 ^ 64 := (cfg.startFrom_bounds _).1.trans h
  rw [toNat_cyclicStart, Nat.mod_eq_of_lt hlt, Nat.mod_eq_of_lt h]

end DcCfg

def HoldsTimes (rx : List UInt8) (t : DcTimes) : Prop :=
  ∃ d₀ d₁ d₂, Reads rx ecFrameHeaderSize [d₀, d₁, d₂] ∧ Full 8 d₀ ∧ Full 8 d₁ ∧ Full 8 d₂ ∧
    t.refSys.toNat = leNat (d₀.data.take 8) ∧ t.folSys.toNat = leNat (d₁.data.take 8) ∧
      t.oldOff.toNat = leNat (d₂.data.take 8)

theorem eq_u64Le_iff {t : UInt64} {data : List UInt8} : t = u64Le (data.take 8) ↔ t.toNat = leNat (data.take 8) := by
  have hlt : leNat (data.take 8) < 2 ^ 64 := by
    refine (leNat_lt _).trans_le ?_
    rw [show 2 ^ 64 = 256 ^ 8 by norm_num]
    exact Nat.pow_le_pow_right (by decide) (List.length_take_le _ _)
  rw [u64Le, ← UInt64.toNat_inj, UInt64.toNat_ofNat', Nat.mod_eq_of_lt hlt]

theorem holdsTimes_iff {rx : List UInt8} {t : DcTimes} : HoldsTimes rx t ↔ parseThreeU64Reads rx = .ok t := by
  rw [parseThreeU64Reads_iff]
  refine exists_congr fun d₀ => exists_congr fun d₁ => exists_congr fun d₂ => ?_
  obtain ⟨refSys, folSys, oldOff⟩ := t
  simp only [DcTimes.mk.injEq, eq_u64Le_iff]

def TimesHeard (station : UInt16) (dcRef : DcRef) (log : Exchanged) (t : DcTimes) : Prop :=
  ∃ rx, (timesRequest station dcRef, .ok rx) ∈ log ∧ HoldsTimes rx t

def Sampled (station : UInt16) (dcRef : DcRef) (log : Exchanged) (now : UInt64) : Prop :=
  if dcRef.compensate then ∃ t, TimesHeard station dcRef log t ∧ now = t.refSys
  else ∃ rx reply, (timeRequest station, .ok rx) ∈ log ∧ parse rx = some reply ∧
    now.toNat = if reply.data.length ≥ 8 then leNat (reply.data.take 8) else 0

/-- After these exchanges the request may be made: an offset that it writes makes the clock that was sampled show the
time of the reference, and a start comes from that time. -/
def Programs (station : UInt16) (cfg : DcCfg) (dcRef : DcRef) (log : Exchanged) (request : List Access) : Prop :=
  (∀ payload, request = [⟨.fpwr, station, regDcSysTimeOffset, payload⟩] →
    ∃ t, TimesHeard station dcRef log t ∧ payload = leBytes 8 t.newOffset.toNat ∧
      ∀ c : DcClock, c.systemTime = t.folSys → c.offset = t.oldOff → (c.programmed payload).systemTime = t.refSys) ∧
  ∀ payload, request = [⟨.fpwr, station, regDcCycleStart, payload⟩] →
    ∃ now, Sampled station dcRef log now ∧ payload = leBytes 8 (cyclicStart cfg now).toNat

section Session

variable {station : UInt16} {cfg : DcCfg} {dcRef : DcRef} {log : Exchanged}

theorem TimesHeard.append {t : DcTimes} (h : TimesHeard station dcRef log t) (more : Exchanged) :
    TimesHeard station dcRef (log ++ more) t := by
  obtain ⟨rx, hrx, ht⟩ := h
  exact ⟨rx, List.mem_append_left _ hrx, ht⟩

theorem Sampled.append {now : UInt64} (h : Sampled station dcRef log now) (more : Exchanged) :
    Sampled station dcRef (log ++ more) now := by
  rw [Sampled] at h ⊢
  split_ifs at h ⊢
  · obtain ⟨t, ht, rfl⟩ := h
    exact ⟨t, ht.append more, rfl⟩
  · obtain ⟨rx, reply, hrx, hreply, hnow⟩ := h
    exact ⟨rx, reply, List.mem_append_left _ hrx, hreply, hnow⟩

theorem programs_other {request : List Access} (h : ∀ a ∈ request, a.ado ≠ regDcSysTimeOffset ∧ a.ado ≠ regDcCycleStart) :
    Programs station cfg dcRef log request := by
  constructor
  · rintro payload rfl
    exact absurd rfl (h _ (List.mem_singleton_self _)).1
  · rintro payload rfl
    exact absurd rfl (h _ (List.mem_singleton_self _)).2

theorem obeys_writeSync {now : UInt64} (h : Sampled station dcRef log now) :
    Obeys (Programs station cfg dcRef) log (writeSync station cfg (cyclicStart cfg now)) := by
  have hother : ∀ {log : Exchanged} {ado : UInt16} {payload : List UInt8}, ado ≠ regDcSysTimeOffset → ado ≠ regDcCycleStart →
      Programs station cfg dcRef log [⟨.fpwr, station, ado, payload⟩] := fun h₁ h₂ =>
    programs_other (List.forall_mem_singleton.mpr ⟨h₁, h₂⟩)
  refine obeys_put (hother (by decide) (by decide)) fun rx => obeys_put ⟨fun payload he => ?_, fun payload he => ?_⟩ fun rx' =>
    obeys_put (hother (by decide) (by decide)) fun rx'' => trivial
  · exact absurd (congrArg (List.map Access.ado) he) (by simp [regDcCycleStart, regDcSysTimeOffset])
  · refine ⟨now, h.append _, ?_⟩
    obtain ⟨he, -⟩ := List.cons.inj he
    exact (Access.mk.inj he).2.2.2.symm

theorem obeys_uncompensated (hc : dcRef.compensate = false) :
    Obeys (Programs station cfg dcRef) [] (uncompensated station cfg) := by
  refine obeys_put (programs_other (by simp [regDcRecvTime, regDcSysTimeOffset, regDcCycleStart])) fun rx => ?_
  refine obeys_replied (programs_other (by simp [regDcSysTime, regDcSysTimeOffset, regDcCycleStart])) fun rx' reply hp => ?_
  apply obeys_writeSync
  rw [Sampled, hc, if_neg Bool.false_ne_true]
  refine ⟨rx', reply, List.mem_append_right _ (List.mem_singleton_self _), hp, ?_⟩
  split_ifs
  · exact eq_u64Le_iff.mp rfl
  · rfl

theorem obeys_readTimes (hc : dcRef.compensate = true) (log : Exchanged) :
    Obeys (Programs station cfg dcRef) log (readTimes station cfg dcRef) := by
  refine obeys_exchange ⟨nofun, nofun⟩ fun rx => ?_
  cases ht : parseThreeU64Reads rx with
  | error e => trivial
  | ok t =>
    have hheard : TimesHeard station dcRef (log ++ [(timesRequest station dcRef, .ok rx)]) t :=
      ⟨rx, List.mem_append_right _ (List.mem_singleton_self _), holdsTimes_iff.mpr ht⟩
    refine obeys_put ⟨fun payload he => ?_, fun payload he => ?_⟩ fun rx' => obeys_writeSync ?_
    · obtain ⟨he, -⟩ := List.cons.inj he
      obtain rfl := (Access.mk.inj he).2.2.2
      exact ⟨t, hheard, rfl, fun c => DcClock.systemTime_programmed⟩
    · exact absurd (congrArg (List.map Access.ado) he) (by simp [regDcCycleStart, regDcSysTimeOffset])
    · rw [Sampled, if_pos hc]
      exact ⟨t, hheard.append _, rfl⟩

theorem obeys_compensated (hc : dcRef.compensate = true) :
    Obeys (Programs station cfg dcRef) [] (compensated station cfg dcRef) := by
  refine obeys_replied (programs_other (by simp [regDcRecvTime, regDcSysTimeOffset, regDcCycleStart])) fun rx reply _ => ?_
  split_ifs
  · trivial
  refine obeys_exchange ⟨fun _ h => (by cases h), fun _ h => by cases h⟩ fun rx => ?_
  cases parseTwoPortReads rx with
  | error e => trivial
  | ok ports =>
    refine obeys_put (programs_other (by simp [regDcSysTimeDelay, regDcSysTimeOffset, regDcCycleStart])) fun rx => ?_
    exact obeys_readTimes hc _

theorem writes_sampled (es : List (Device × UInt8)) {before after : Exchanged}
    {x : List Access × Except EcError (List UInt8)}
    (h : (calls FsmDc.step (.new station cfg dcRef) [] es).2 = before ++ x :: after) :
    Programs station cfg dcRef before x.1 := by
  obtain ⟨lines, hlog, hreach⟩ := FsmDc.fsm.calls_reaches (s := .new station cfg dcRef) trivial [] es
  change (FsmDc.new station cfg dcRef).script.Reaches lines _ at hreach
  rw [FsmDc.script_new, configureDc] at hreach
  have hlines : lines = before ++ x :: after := hlog.symm.trans h
  cases hc : dcRef.compensate with
  | true =>
    rw [hc, if_pos rfl] at hreach
    exact Obeys.reaches hreach (obeys_compensated hc) hlines
  | false =>
    rw [hc, if_neg Bool.false_ne_true] at hreach
    exact Obeys.reaches hreach (obeys_uncompensated hc) hlines

end Session

theorem starts_congruent {cfg cfg' : DcCfg} (hcycle : cfg'.sync0CycleNs = cfg.sync0CycleNs)
    (hshift : cfg'.sync0ShiftNs = cfg.sync0ShiftNs) {now now' : UInt64} (h : cfg.InTime now.toNat)
    (h' : cfg'.InTime now'.toNat) : (cyclicStart cfg now).toNat ≡ (cyclicStart cfg' now').toNat [MOD cfg.cycle] := by
  have hmod := cfg'.startFrom_modEq (now'.toNat + 100000000)
  rw [DcCfg.cycle, hcycle, hshift] at hmod
  rw [DcCfg.toNat_start h, DcCfg.toNat_start h']
  exact (cfg.startFrom_modEq _).trans hmod.symm

/-- The compensation makes the follower show the reference's time, once and for all, and the starts of SYNC0 are one
phase of the cycle, soon after the margin. -/
theorem dc_aligned :
    (∀ station cfg dcRef es before x after,
      (calls FsmDc.step (.new station cfg dcRef) [] es).2 = before ++ x :: after → Programs station cfg dcRef before x.1) ∧
    (∀ (c : DcClock) (ref : UInt64), (c.aligned ref).systemTime = ref) ∧
    (∀ (c : DcClock) (ref time : UInt64),
      ((c.aligned ref).later time).aligned (ref + time) = (c.aligned ref).later time) ∧
    (∀ (cfg cfg' : DcCfg) (now now' : UInt64), cfg'.sync0CycleNs = cfg.sync0CycleNs →
      cfg'.sync0ShiftNs = cfg.sync0ShiftNs → cfg.InTime now.toNat → cfg'.InTime now'.toNat →
        (cyclicStart cfg now).toNat ≡ (cyclicStart cfg' now').toNat [MOD cfg.cycle]) ∧
    ∀ (cfg : DcCfg) (now : UInt64), cfg.InTime now.toNat →
      now.toNat + 100000000 < (cyclicStart cfg now).toNat ∧
        (cyclicStart cfg now).toNat ≤ now.toNat + 100000000 + cfg.cycle + cfg.sync0ShiftNs.toNat := by
  refine ⟨fun station cfg dcRef es before x after h => writes_sampled es h, DcClock.systemTime_aligned,
    DcClock.aligned_later, fun cfg cfg' now now' hcycle hshift h h' => starts_congruent hcycle hshift h h',
    fun cfg now h => ⟨(cfg.start_after_now now).mpr h, ?_⟩⟩
  rw [DcCfg.toNat_start h]
  exact cfg.startFrom_le _

def readAnswer (data : List UInt8) (more : Bool) : List UInt8 :=
  [0x04, 0, 0x01, 0x10, 0x10, 0x09, UInt8.ofNat data.length, if more then 0x80 else 0, 0, 0] ++ data ++ [1, 0]

def threeTimes : List UInt8 :=
  answerFrame .fprd 0 (leBytes 8 5000) 1 (readAnswer (leBytes 8 1200) true ++ readAnswer (leBytes 8 200) false)

def followerRun : List (Device × UInt8) :=
  let twice := fun rx => List.replicate 2 ((Device.receiving [rx], 0) : Device × UInt8)
  let acked := answerFrame .fpwr 0 [] 1 []
  twice acked ++ twice (answerFrame .fprd 0 (zeros 16) 1 (readAnswer (zeros 16) false)) ++ twice acked ++
    twice threeTimes ++ twice acked

def followerLog : Exchanged := (calls FsmDc.step (.new 0x1002 everyMillisecond ⟨0x1001, true⟩) [] followerRun).2

theorem dc_aligned_follower :
    (∃ payload, (followerLog[4]?).map Prod.fst = some [⟨.fpwr, 0x1002, regDcSysTimeOffset, payload⟩] ∧
      (DcClock.programmed ⟨1000, 200⟩ payload).systemTime = 5000) ∧
    (cyclicStart everyMillisecond 5000).toNat ≡ (cyclicStart everyMillisecond 7654321).toNat [MOD 1000000] ∧
    100005000 < (cyclicStart everyMillisecond 5000).toNat ∧ (cyclicStart everyMillisecond 5000).toNat ≤ 101005000 := by
  have hin : everyMillisecond.InTime (5000 : UInt64).toNat := by unfold DcCfg.InTime; decide
  have hin' : everyMillisecond.InTime (7654321 : UInt64).toNat := by unfold DcCfg.InTime; decide
  obtain ⟨hruns, -, -, hphase, hbounds⟩ := dc_aligned
  have hwrite : (followerLog[4]?).map Prod.fst = some [⟨.fpwr, 0x1002, regDcSysTimeOffset, leBytes 8 4000⟩] := by
    decide +kernel
  refine ⟨⟨leBytes 8 4000, hwrite, ?_⟩, hphase _ _ _ _ rfl rfl hin hin', hbounds _ _ hin⟩
  have hlen : 4 < followerLog.length := by decide +kernel
  rw [List.getElem?_eq_getElem hlen] at hwrite
  have hsplit : followerLog = followerLog.take 4 ++ followerLog[4] :: followerLog.drop 5 := by
    rw [← List.drop_eq_getElem_cons hlen, List.take_append_drop]
  obtain ⟨t, ⟨rx, hrx, ht⟩, -, hshown⟩ := (hruns 0x1002 everyMillisecond ⟨0x1001, true⟩ followerRun _ _ _ hsplit).1
    (leBytes 8 4000) (Option.some.inj hwrite)
  have hreply : ∀ x ∈ followerLog.take 4, x.1 = timesRequest 0x1002 ⟨0x1001, true⟩ → x.2.toOption = some threeTimes := by
    decide +kernel
  obtain rfl : rx = threeTimes := Option.some.inj (hreply _ hrx rfl)
  have hparse : parseThreeU64Reads threeTimes = .ok ⟨5000, 1200, 200⟩ := rfl
  obtain rfl := Except.ok.inj ((holdsTimes_iff.mp ht).symm.trans hparse)
  exact hshown ⟨1000, 200⟩ rfl rfl

end EcMaster

import EcMaster.Agenda

namespace EcMaster

open Library.Dialogue Library.Dialogue.Script Library.Segment Library.LittleEndian

namespace DcCfg

def startFrom (cfg : DcCfg) (target : ℕ) : ℕ :=
  (target / max cfg.sync0CycleNs.toNat 1 + 1) * max cfg.sync0CycleNs.toNat 1 + cfg.sync0ShiftNs.toNat

/-- The start for a time of the clock fits into 64 bits. -/
def InTime (cfg : DcCfg) (now : ℕ) : Prop := cfg.startFrom (now + 100000000) < 2 ^ 64

def Overtakes (cfg : DcCfg) (now t : ℕ) : Prop :=
  (now + 100000000 < 2 ^ 64 ∧ t + 100000000 + 2 ^ 64 < cfg.startFrom (now + 100000000)) ∨
    (2 ^ 64 ≤ now + 100000000 ∧ t + 100000000 < cfg.startFrom (now + 100000000 - 2 ^ 64))

theorem startFrom_bounds (cfg : DcCfg) (target : ℕ) :
    target < cfg.startFrom target ∧ cfg.startFrom target < target + 2 ^ 33 := by
  have hc : max cfg.sync0CycleNs.toNat 1 < 2 ^ 32 := max_lt cfg.sync0CycleNs.toNat_lt (by decide)
  have hpos : 0 < max cfg.sync0CycleNs.toNat 1 := lt_max_of_lt_right Nat.one_pos
  have hs := cfg.sync0ShiftNs.toNat_lt
  rw [startFrom]
  generalize max cfg.sync0CycleNs.toNat 1 = c at *
  have hdiv := Nat.div_add_mod target c
  have hmod := Nat.mod_lt target hpos
  have hmul : (target / c + 1) * c = c * (target / c) + c := by ring
  rw [hmul]
  omega

theorem toNat_cyclicStart (cfg : DcCfg) (now : UInt64) :
    (cyclicStart cfg now).toNat = cfg.startFrom ((now.toNat + 100000000) % 2 ^ 64) % 2 ^ 64 := by
  have hmax : (max cfg.sync0CycleNs 1).toUInt64.toNat = max cfg.sync0CycleNs.toNat 1 := by
    change (if cfg.sync0CycleNs ≤ 1 then 1 else cfg.sync0CycleNs).toNat = _
    rw [max_def]
    split_ifs with h₁ h₂ h₂
    · rfl
    · exact absurd (UInt32.le_iff_toNat_le.mp h₁) h₂
    · exact absurd (UInt32.le_iff_toNat_le.mpr h₂) h₁
    · rfl
  rw [cyclicStart, startFrom]
  simp only [UInt64.toNat_add, UInt64.toNat_mul, UInt64.toNat_div, hmax, UInt32.toNat_toUInt64]
  change ((((now.toNat + 100000000) % 2 ^ 64 / _ + 1) % 2 ^ 64 * _ % 2 ^ 64 + _) % 2 ^ 64) = _
  simp only [Nat.add_mod, Nat.mul_mod, Nat.mod_mod]

theorem start_after (cfg : DcCfg) (now t : UInt64) :
    t.toNat + 100000000 < (cyclicStart cfg now).toNat ↔
      (cfg.InTime now.toNat ∧ t.toNat + 100000000 < cfg.startFrom (now.toNat + 100000000)) ∨
        cfg.Overtakes now.toNat t.toNat := by
  have hn := now.toNat_lt
  rw [toNat_cyclicStart, InTime, Overtakes]
  by_cases hw : now.toNat + 100000000 < 2 ^ 64
  · rw [Nat.mod_eq_of_lt hw]
    have hb := cfg.startFrom_bounds (now.toNat + 100000000)
    generalize cfg.startFrom (now.toNat + 100000000) = x at *
    generalize cfg.startFrom (now.toNat + 100000000 - 2 ^ 64) = y at *
    omega
  · have hm : (now.toNat + 100000000) % 2 ^ 64 = now.toNat + 100000000 - 2 ^ 64 := by omega
    rw [hm]
    have hb := cfg.startFrom_bounds (now.toNat + 100000000)
    have hb' := cfg.startFrom_bounds (now.toNat + 100000000 - 2 ^ 64)
    generalize cfg.startFrom (now.toNat + 100000000) = x at *
    generalize cfg.startFrom (now.toNat + 100000000 - 2 ^ 64) = y at *
    omega

theorem start_after_now (cfg : DcCfg) (now : UInt64) :
    now.toNat + 100000000 < (cyclicStart cfg now).toNat ↔ cfg.InTime now.toNat := by
  have hb := cfg.startFrom_bounds (now.toNat + 100000000)
  have hb' := cfg.startFrom_bounds (now.toNat + 100000000 - 2 ^ 64)
  have hn := now.toNat_lt
  rw [start_after, InTime, Overtakes]
  generalize cfg.startFrom (now.toNat + 100000000) = x at *
  generalize cfg.startFrom (now.toNat + 100000000 - 2 ^ 64) = y at *
  omega

end DcCfg

def replies (rx : List UInt8) : ℕ → List Access → Option (List Reply)
  | _, [] => some []
  | off, _ :: as => (parseAt rx off).bind fun d => (replies rx d.2 as).map (d.1 :: ·)

def Access.Acked (a : Access) (reply : Reply) : Prop :=
  if a.command = .bwr then reply.workingCounter ≠ 0 else reply.workingCounter = 1

def AllAcked (log : Exchanged) : Prop :=
  ∀ x ∈ log, ∃ rx rs, x.2 = .ok rx ∧ replies rx ecFrameHeaderSize x.1 = some rs ∧ List.Forall₂ Access.Acked x.1 rs

def StartWritten (log : Exchanged) (start : UInt64) : Prop :=
  ∃ x ∈ log, ∃ a ∈ x.1, a.command = .fpwr ∧ a.ado = regDcCycleStart ∧ a.payload = leBytes 8 start.toNat

def TimeRead (log : Exchanged) (t : UInt64) : Prop :=
  ∃ x ∈ log, ∃ rx rs, x.2 = .ok rx ∧ replies rx ecFrameHeaderSize x.1 = some rs ∧ ∃ p ∈ x.1.zip rs,
    p.1.command = .fprd ∧ p.1.ado = regDcSysTime ∧ p.2.workingCounter = 1 ∧ 8 ≤ p.2.data.length ∧
      t = u64Le (p.2.data.take 8)

/-- What a DC configuration that says it is done should have done. -/
def DcSound (log : Exchanged) : Prop :=
  AllAcked log ∧ ∃ start t, StartWritten log start ∧ TimeRead log t ∧ t.toNat + 100000000 < start.toNat

theorem replies_single (rx : List UInt8) (a : Access) :
    replies rx ecFrameHeaderSize [a] = (parse rx).map fun reply => [reply] := by
  rw [replies, parse_eq]
  cases parseAt rx ecFrameHeaderSize with
  | none => rfl
  | some d => rfl

theorem allAcked_append {l l' : Exchanged} : AllAcked (l ++ l') ↔ AllAcked l ∧ AllAcked l' := List.forall_mem_append

theorem startWritten_append {l l' : Exchanged} {start : UInt64} :
    StartWritten (l ++ l') start ↔ StartWritten l start ∨ StartWritten l' start := by
  simp only [StartWritten, List.mem_append, or_and_right, exists_or]

theorem timeRead_append {l l' : Exchanged} {t : UInt64} : TimeRead (l ++ l') t ↔ TimeRead l t ∨ TimeRead l' t := by
  simp only [TimeRead, List.mem_append, or_and_right, exists_or]

section

variable {station ado : UInt16} {payload : List UInt8} {l : Exchanged}

theorem Acknowledged.allAcked (h : Acknowledged station ado payload l) : AllAcked l := by
  obtain ⟨rx, reply, rfl, hparse, hwkc⟩ := h
  intro x hx
  obtain rfl := List.mem_singleton.mp hx
  exact ⟨rx, [reply], rfl, by rw [replies_single, hparse]; rfl, .cons hwkc .nil⟩

theorem Acknowledged.register (h : Acknowledged station ado payload l) : ∀ x ∈ l, ∀ a ∈ x.1, a.ado = ado := by
  obtain ⟨rx, reply, rfl, -, -⟩ := h
  simp

theorem Acknowledged.startWritten {start start' : UInt64}
    (h : Acknowledged station regDcCycleStart (leBytes 8 start.toNat) l) : StartWritten l start' ↔ start' = start := by
  obtain ⟨rx, reply, rfl, -, -⟩ := h
  constructor
  · rintro ⟨x, hx, a, ha, -, -, hp⟩
    obtain rfl := List.mem_singleton.mp hx
    obtain rfl := List.mem_singleton.mp ha
    have hlt (u : UInt64) : u.toNat < 256 ^ 8 := u.toNat_lt
    have hn := congrArg leNat hp
    rw [leNat_leBytes, leNat_leBytes, Nat.mod_eq_of_lt (hlt _), Nat.mod_eq_of_lt (hlt _)] at hn
    exact UInt64.toNat_inj.mp hn.symm
  · rintro rfl
    exact ⟨_, List.mem_singleton.mpr rfl, _, List.mem_singleton.mpr rfl, rfl, rfl, rfl⟩

end

def Untouched (ado : UInt16) (log : Exchanged) : Prop := ∀ x ∈ log, ∀ a ∈ x.1, a.ado ≠ ado

theorem untouched_append {ado : UInt16} {l l' : Exchanged} :
    Untouched ado (l ++ l') ↔ Untouched ado l ∧ Untouched ado l' := List.forall_mem_append

theorem Acknowledged.untouched {station ado other : UInt16} {payload : List UInt8} {l : Exchanged}
    (h : Acknowledged station ado payload l) (hne : ado ≠ other) : Untouched other l :=
  fun x hx a ha => by rwa [h.register x hx a ha]

theorem Untouched.not_startWritten {log : Exchanged} (h : Untouched regDcCycleStart log) (start : UInt64) :
    ¬StartWritten log start :=
  fun ⟨x, hx, a, ha, _, hado, _⟩ => h x hx a ha hado

theorem Untouched.not_timeRead {log : Exchanged} (h : Untouched regDcSysTime log) (t : UInt64) : ¬TimeRead log t :=
  fun ⟨x, hx, _, _, _, _, p, hp, _, hado, _⟩ => h x hx p.1 (List.of_mem_zip hp).1 hado

structure SyncStarted (start : UInt64) (log : Exchanged) : Prop where
  acked : AllAcked log
  start : ∀ start', StartWritten log start' ↔ start' = start
  time : Untouched regDcSysTime log

theorem SyncStarted.after {station ado : UInt16} {payload : List UInt8} {l log : Exchanged} {start : UInt64}
    (h : SyncStarted start log) (hl : Acknowledged station ado payload l) (hstart : ado ≠ regDcCycleStart)
    (htime : ado ≠ regDcSysTime) : SyncStarted start (l ++ log) := by
  refine ⟨allAcked_append.mpr ⟨hl.allAcked, h.acked⟩, fun start' => ?_, untouched_append.mpr ⟨hl.untouched htime, h.time⟩⟩
  have hn : Untouched regDcCycleStart l := hl.untouched hstart
  rw [startWritten_append, h.start]
  simp only [hn.not_startWritten, false_or]

theorem returns_writeSync {station : UInt16} {cfg : DcCfg} {start : UInt64} {log : Exchanged}
    (h : (writeSync station cfg start).Returns log ()) : SyncStarted start log := by
  obtain ⟨l₁, log₁, rfl, h₁, hrest⟩ := returns_put h
  obtain ⟨l₂, log₂, rfl, h₂, hrest₂⟩ := returns_put hrest
  obtain ⟨l₃, log₃, rfl, h₃, hrest₃⟩ := returns_put hrest₂
  obtain ⟨rfl, -⟩ := returns_done.mp hrest₃
  rw [List.append_nil]
  refine ⟨?_, fun start' => ?_, ?_⟩
  · exact allAcked_append.mpr ⟨h₁.allAcked, allAcked_append.mpr ⟨h₂.allAcked, h₃.allAcked⟩⟩
  · have hn₁ : Untouched regDcCycleStart l₁ := h₁.untouched (by decide)
    have hn₃ : Untouched regDcCycleStart l₃ := h₃.untouched (by decide)
    rw [startWritten_append, startWritten_append, h₂.startWritten]
    simp only [hn₁.not_startWritten, hn₃.not_startWritten, false_or, or_false]
  · exact untouched_append.mpr ⟨h₁.untouched (by decide),
      untouched_append.mpr ⟨h₂.untouched (by decide), h₃.untouched (by decide)⟩⟩

theorem dcSound_around {before times after : Exchanged} {start : UInt64} (hb : AllAcked before)
    (hs : Untouched regDcCycleStart (before ++ times)) (ht : Untouched regDcSysTime before) (ha : SyncStarted start after) :
    DcSound (before ++ times ++ after) ↔ AllAcked times ∧ ∃ t, TimeRead times t ∧ t.toNat + 100000000 < start.toNat := by
  have hstart (start' : UInt64) : StartWritten (before ++ times ++ after) start' ↔ start' = start := by
    rw [startWritten_append, ha.start]
    simp only [hs.not_startWritten, false_or]
  have htime (t : UInt64) : TimeRead (before ++ times ++ after) t ↔ TimeRead times t := by
    rw [timeRead_append, timeRead_append]
    simp only [ht.not_timeRead, ha.time.not_timeRead, false_or, or_false]
  rw [DcSound, allAcked_append, allAcked_append]
  simp only [hstart, htime, hb, ha.acked, true_and, and_true, exists_and_left, exists_eq_left]

def timeRequest (station : UInt16) : List Access := [⟨.fprd, station, regDcSysTime, zeros 8⟩]

def timesRequest (station : UInt16) (dcRef : DcRef) : List Access :=
  [⟨.fprd, dcRef.refStation, regDcSysTime, zeros 8⟩, ⟨.fprd, station, regDcSysTime, zeros 8⟩,
    ⟨.fprd, station, regDcSysTimeOffset, zeros 8⟩]

def GoodTime (cfg : DcCfg) (reply : Reply) : Prop :=
  reply.workingCounter = 1 ∧ 8 ≤ reply.data.length ∧ cfg.InTime (u64Le (reply.data.take 8)).toNat

/-- The replies with the system time are such that the start written in the end is good. -/
def TimesAnswered (station : UInt16) (cfg : DcCfg) (dcRef : DcRef) (log : Exchanged) : Prop :=
  if dcRef.compensate then
    ∃ rx t, (timesRequest station dcRef, .ok rx) ∈ log ∧ parseThreeU64Reads rx = .ok t ∧
      (cfg.InTime t.refSys.toNat ∨ cfg.Overtakes t.refSys.toNat t.folSys.toNat)
  else ∃ rx reply, (timeRequest station, .ok rx) ∈ log ∧ parse rx = some reply ∧ GoodTime cfg reply

theorem mem_around {before after : Exchanged} {request : List Access} {ado : UInt16} {rx rx' : List UInt8}
    (hb : Untouched ado before) (ha : Untouched ado after) (hr : ∃ a ∈ request, a.ado = ado) :
    (request, Except.ok rx') ∈ before ++ [(request, .ok rx)] ++ after ↔ rx' = rx := by
  obtain ⟨a, ha', hado⟩ := hr
  have hnb : (request, Except.ok rx') ∉ before := fun h => hb _ h a ha' hado
  have hna : (request, Except.ok rx') ∉ after := fun h => ha _ h a ha' hado
  simp [hnb, hna]

theorem allAcked_single {request : List Access} {rx : List UInt8} {rs : List Reply}
    (h : replies rx ecFrameHeaderSize request = some rs) :
    AllAcked [(request, .ok rx)] ↔ List.Forall₂ Access.Acked request rs := by
  constructor
  · intro hall
    obtain ⟨rx', rs', hrx, hrs, hacked⟩ := hall _ (List.mem_singleton.mpr rfl)
    obtain rfl := Except.ok.inj hrx
    obtain rfl := Option.some.inj (h.symm.trans hrs)
    exact hacked
  · intro hacked x hx
    obtain rfl := List.mem_singleton.mp hx
    exact ⟨rx, rs, rfl, h, hacked⟩

theorem timeRead_single {request : List Access} {rx : List UInt8} {rs : List Reply} {t : UInt64}
    (h : replies rx ecFrameHeaderSize request = some rs) :
    TimeRead [(request, .ok rx)] t ↔ ∃ p ∈ request.zip rs, p.1.command = .fprd ∧ p.1.ado = regDcSysTime ∧
      p.2.workingCounter = 1 ∧ 8 ≤ p.2.data.length ∧ t = u64Le (p.2.data.take 8) := by
  constructor
  · rintro ⟨x, hx, rx', rs', hrx, hrs, hp⟩
    obtain rfl := List.mem_singleton.mp hx
    obtain rfl := Except.ok.inj hrx
    obtain rfl := Option.some.inj (h.symm.trans hrs)
    exact hp
  · intro hp
    exact ⟨_, List.mem_singleton.mpr rfl, rx, rs, rfl, h, hp⟩

theorem returns_uncompensated {station : UInt16} {cfg : DcCfg} {log : Exchanged}
    (h : (uncompensated station cfg).Returns log ()) :
    DcSound log ↔ ∃ rx reply, (timeRequest station, .ok rx) ∈ log ∧ parse rx = some reply ∧ GoodTime cfg reply := by
  obtain ⟨l₁, log₁, rfl, h₁, hrest⟩ := returns_put h
  obtain ⟨rx, log₂, rfl, hread⟩ := returns_exchange.mp hrest
  obtain ⟨reply, hparse, hnext⟩ := returns_replied.mp hread
  have hsync := returns_writeSync hnext
  have hb : Untouched regDcSysTime l₁ := h₁.untouched (by decide)
  have hs : Untouched regDcCycleStart (l₁ ++ [(timeRequest station, .ok rx)]) := by
    refine untouched_append.mpr ⟨h₁.untouched (by decide), ?_⟩
    simp [Untouched, timeRequest, regDcSysTime, regDcCycleStart]
  have hlog : l₁ ++ (timeRequest station, Except.ok rx) :: log₂ = l₁ ++ [(timeRequest station, .ok rx)] ++ log₂ := by
    rw [List.append_assoc, List.singleton_append]
  have hreplies : replies rx ecFrameHeaderSize (timeRequest station) = some [reply] := by
    rw [timeRequest, replies_single, hparse]
    rfl
  have hmem (rx' : List UInt8) : (timeRequest station, Except.ok rx') ∈ l₁ ++ [(timeRequest station, .ok rx)] ++ log₂ ↔
      rx' = rx :=
    mem_around hb hsync.time ⟨_, List.mem_singleton_self _, rfl⟩
  change DcSound (l₁ ++ (timeRequest station, Except.ok rx) :: log₂) ↔
    ∃ rx' reply, (timeRequest station, .ok rx') ∈ l₁ ++ (timeRequest station, Except.ok rx) :: log₂ ∧ _
  rw [hlog, dcSound_around h₁.allAcked hs hb hsync, allAcked_single hreplies]
  simp only [hmem, timeRead_single hreplies]
  constructor
  · rintro ⟨-, t, ⟨p, hp, -, -, hwkc, hlen, rfl⟩, hlt⟩
    obtain rfl := List.mem_singleton.mp hp
    rw [if_pos hlen, DcCfg.start_after_now] at hlt
    exact ⟨rx, reply, rfl, hparse, hwkc, hlen, hlt⟩
  · rintro ⟨rx', reply', rfl, hparse', hwkc, hlen, hin⟩
    obtain rfl := Option.some.inj (hparse.symm.trans hparse')
    refine ⟨.cons hwkc .nil, _, ⟨_, List.mem_singleton_self _, rfl, rfl, hwkc, hlen, rfl⟩, ?_⟩
    rw [if_pos hlen, DcCfg.start_after_now]
    exact hin

theorem nextDatagram_ok {rx : List UInt8} {off : ℕ} {d : Reply × ℕ} (h : nextDatagram rx off = .ok d) :
    parseAt rx off = some d := by
  rw [nextDatagram] at h
  cases hp : parseAt rx off with
  | none => rw [hp] at h; exact absurd h (by simp)
  | some d' => rw [hp] at h; rw [Except.ok.inj h]

theorem except_bind_ok {ε α β : Type} {x : Except ε α} {f : α → Except ε β} {b : β} (h : x >>= f = .ok b) :
    ∃ a, x = .ok a ∧ f a = .ok b := by
  cases x with
  | error e => exact nomatch h
  | ok a => exact ⟨a, rfl, h⟩

theorem parseTwoPortReads_ok {rx : List UInt8} {ports : List UInt32 × List UInt32} (h : parseTwoPortReads rx = .ok ports)
    (a b : Access) : ∃ d₀ d₁, replies rx ecFrameHeaderSize [a, b] = some [d₀, d₁] ∧
      d₀.workingCounter = 1 ∧ d₁.workingCounter = 1 := by
  obtain ⟨⟨d₀, n₁⟩, h₀, hrest⟩ := except_bind_ok h
  obtain ⟨⟨d₁, n₂⟩, h₁, hrest⟩ := except_bind_ok hrest
  dsimp only at h₁ hrest
  split_ifs at hrest with hwkc
  obtain ⟨hw₀, hw₁⟩ := not_or.mp hwkc
  refine ⟨d₀, d₁, ?_, not_not.mp hw₀, not_not.mp hw₁⟩
  rw [replies, nextDatagram_ok h₀, Option.bind_some, replies, nextDatagram_ok h₁]
  rfl

theorem readU64_ok {data : List UInt8} {t : UInt64} (h : readU64 data = .ok t) :
    8 ≤ data.length ∧ t = u64Le (data.take 8) := by
  rw [readU64] at h
  split_ifs at h with hlen
  exact ⟨not_lt.mp hlen, (Except.ok.inj h).symm⟩

theorem parseThreeU64Reads_ok {rx : List UInt8} {t : DcTimes} (h : parseThreeU64Reads rx = .ok t) (a b c : Access) :
    ∃ d₀ d₁ d₂, replies rx ecFrameHeaderSize [a, b, c] = some [d₀, d₁, d₂] ∧
      (d₀.workingCounter = 1 ∧ d₁.workingCounter = 1 ∧ d₂.workingCounter = 1) ∧
      (8 ≤ d₀.data.length ∧ t.refSys = u64Le (d₀.data.take 8)) ∧
      (8 ≤ d₁.data.length ∧ t.folSys = u64Le (d₁.data.take 8)) := by
  obtain ⟨⟨d₀, n₁⟩, h₀, hrest⟩ := except_bind_ok h
  obtain ⟨⟨d₁, n₂⟩, h₁, hrest⟩ := except_bind_ok hrest
  obtain ⟨⟨d₂, n₃⟩, h₂, hrest⟩ := except_bind_ok hrest
  dsimp only at h₁ h₂ hrest
  split_ifs at hrest with hwkc
  simp only [not_or, not_not] at hwkc
  obtain ⟨ref, href, hrest⟩ := except_bind_ok hrest
  obtain ⟨fol, hfol, hrest⟩ := except_bind_ok hrest
  obtain ⟨off, -, hrest⟩ := except_bind_ok hrest
  obtain rfl := Except.ok.inj hrest
  refine ⟨d₀, d₁, d₂, ?_, hwkc, readU64_ok href, readU64_ok hfol⟩
  rw [replies, nextDatagram_ok h₀, Option.bind_some, replies, nextDatagram_ok h₁, Option.bind_some, replies,
    nextDatagram_ok h₂]
  rfl

theorem returns_compensated {station : UInt16} {cfg : DcCfg} {dcRef : DcRef} {log : Exchanged}
    (h : (compensated station cfg dcRef).Returns log ()) :
    ∃ before rx t after, log = before ++ [(timesRequest station dcRef, .ok rx)] ++ after ∧ AllAcked before ∧
      Untouched regDcCycleStart before ∧ Untouched regDcSysTime before ∧ parseThreeU64Reads rx = .ok t ∧
      SyncStarted (cyclicStart cfg t.refSys) after := by
  obtain ⟨rx₁, log₁, rfl, hlatch⟩ := returns_exchange.mp h
  obtain ⟨reply, hparse, hports⟩ := returns_replied.mp hlatch
  split_ifs at hports with hwkc
  · exact absurd hports not_returns_fail
  obtain ⟨rx₂, log₂, rfl, hdelay⟩ := returns_exchange.mp hports
  cases hp : parseTwoPortReads rx₂ with
  | error e => rw [hp] at hdelay; exact absurd hdelay not_returns_fail
  | ok ports =>
    rw [hp] at hdelay
    obtain ⟨l₃, log₃, rfl, h₃, htimes⟩ := returns_put hdelay
    obtain ⟨rx₄, log₄, rfl, hoffset⟩ := returns_exchange.mp htimes
    cases ht : parseThreeU64Reads rx₄ with
    | error e => rw [ht] at hoffset; exact absurd hoffset not_returns_fail
    | ok t =>
      rw [ht] at hoffset
      obtain ⟨l₅, log₅, rfl, h₅, hsync⟩ := returns_put hoffset
      have hafter := (returns_writeSync hsync).after h₅ (by decide) (by decide)
      refine ⟨([⟨.bwr, 0x0000, regDcRecvTime, zeros 4⟩], .ok rx₁) ::
        ([⟨.fprd, dcRef.refStation, regDcRecvTime, zeros 16⟩, ⟨.fprd, station, regDcRecvTime, zeros 16⟩], .ok rx₂) :: l₃,
        rx₄, t, l₅ ++ log₅, by simp [timesRequest], ?_, ?_, ?_, ht, hafter⟩
      · refine List.forall_mem_cons.mpr ⟨?_, List.forall_mem_cons.mpr ⟨?_, h₃.allAcked⟩⟩
        · refine ⟨rx₁, [reply], rfl, ?_, .cons hwkc .nil⟩
          rw [replies_single, hparse]
          rfl
        · obtain ⟨d₀, d₁, hrs, hw₀, hw₁⟩ := parseTwoPortReads_ok hp
            ⟨.fprd, dcRef.refStation, regDcRecvTime, zeros 16⟩ ⟨.fprd, station, regDcRecvTime, zeros 16⟩
          exact ⟨rx₂, [d₀, d₁], rfl, hrs, .cons hw₀ (.cons hw₁ .nil)⟩
      · refine List.forall_mem_cons.mpr ⟨?_, List.forall_mem_cons.mpr ⟨?_, h₃.untouched (by decide)⟩⟩
        all_goals simp [regDcRecvTime, regDcCycleStart]
      · refine List.forall_mem_cons.mpr ⟨?_, List.forall_mem_cons.mpr ⟨?_, h₃.untouched (by decide)⟩⟩
        all_goals simp [regDcRecvTime, regDcSysTime]

theorem dcSound_compensated {station : UInt16} {cfg : DcCfg} {dcRef : DcRef} {log : Exchanged}
    (h : (compensated station cfg dcRef).Returns log ()) :
    DcSound log ↔ ∃ rx t, (timesRequest station dcRef, .ok rx) ∈ log ∧ parseThreeU64Reads rx = .ok t ∧
      (cfg.InTime t.refSys.toNat ∨ cfg.Overtakes t.refSys.toNat t.folSys.toNat) := by
  obtain ⟨before, rx, t, after, rfl, hb, hstart, htime, ht, hsync⟩ := returns_compensated h
  obtain ⟨d₀, d₁, d₂, hrs, ⟨hw₀, hw₁, hw₂⟩, ⟨hl₀, href⟩, hl₁, hfol⟩ := parseThreeU64Reads_ok ht
    ⟨.fprd, dcRef.refStation, regDcSysTime, zeros 8⟩ ⟨.fprd, station, regDcSysTime, zeros 8⟩
    ⟨.fprd, station, regDcSysTimeOffset, zeros 8⟩
  have hs : Untouched regDcCycleStart (before ++ [(timesRequest station dcRef, .ok rx)]) := by
    refine untouched_append.mpr ⟨hstart, ?_⟩
    simp [Untouched, timesRequest, regDcSysTime, regDcSysTimeOffset, regDcCycleStart]
  have hmem (rx' : List UInt8) :
      (timesRequest station dcRef, Except.ok rx') ∈ before ++ [(timesRequest station dcRef, .ok rx)] ++ after ↔ rx' = rx :=
    mem_around htime hsync.time ⟨_, List.mem_cons_self, rfl⟩
  change replies rx ecFrameHeaderSize (timesRequest station dcRef) = _ at hrs
  rw [dcSound_around hb hs htime hsync, allAcked_single hrs]
  simp only [hmem, timeRead_single hrs]
  constructor
  · rintro ⟨-, t', ⟨p, hp, -, hado, -, -, rfl⟩, hlt⟩
    refine ⟨rx, t, rfl, ht, ?_⟩
    rcases List.mem_cons.mp hp with rfl | hp
    · rw [← href, DcCfg.start_after_now] at hlt
      exact Or.inl hlt
    rcases List.mem_cons.mp hp with rfl | hp
    · rw [← hfol] at hlt
      exact ((cfg.start_after _ _).mp hlt).imp And.left id
    · obtain rfl := List.mem_singleton.mp hp
      exact absurd (show regDcSysTimeOffset = regDcSysTime from hado) (by decide)
  · rintro ⟨rx', t', rfl, ht', hgood⟩
    obtain rfl := Except.ok.inj (ht.symm.trans ht')
    refine ⟨.cons hw₀ (.cons hw₁ (.cons hw₂ .nil)), ?_⟩
    rcases hgood with hin | hover
    · exact ⟨_, ⟨_, List.mem_cons_self, rfl, rfl, hw₀, hl₀, href⟩, (cfg.start_after_now _).mpr hin⟩
    · refine ⟨_, ⟨_, List.mem_cons_of_mem _ List.mem_cons_self, rfl, rfl, hw₁, hl₁, hfol⟩, ?_⟩
      exact (cfg.start_after _ _).mpr (Or.inr hover)

theorem FsmDc.ends (station : UInt16) (cfg : DcCfg) (dcRef : DcRef) (es : ℕ → Device × UInt8) :
    ∃ n, (∃ s', (calls FsmDc.step (.new station cfg dcRef) [] (polls es n)).1 = .ok (true, s')) ∨
      ∃ e, (calls FsmDc.step (.new station cfg dcRef) [] (polls es n)).1 = .error e := by
  obtain ⟨n, hn⟩ := FsmDc.fsm.calls_end (s := .new station cfg dcRef) trivial es
  refine ⟨n, ?_⟩
  rcases hr : (calls FsmDc.step (.new station cfg dcRef) [] (polls es n)).1 with e | ⟨_ | _, s'⟩
  · exact Or.inr ⟨e, rfl⟩
  · exact absurd hr (hn s')
  · exact Or.inl ⟨s', rfl⟩

/-- A DC configuration that says it is done is sound if and only if its times were answered well. Any other one, however
long it is polled, ends with an error. -/
theorem dcConfigured_sound_iff {station : UInt16} {cfg : DcCfg} {dcRef : DcRef} {es : List (Device × UInt8)} {s : FsmDc}
    {log : Exchanged} (h : calls FsmDc.step (.new station cfg dcRef) [] es = (.ok (true, s), log)) :
    (DcSound log ↔ TimesAnswered station cfg dcRef log) ∧
      ∀ es : ℕ → Device × UInt8, ∃ n, (∃ s', (calls FsmDc.step (.new station cfg dcRef) [] (polls es n)).1 = .ok (true, s')) ∨
        ∃ e, (calls FsmDc.step (.new station cfg dcRef) [] (polls es n)).1 = .error e := by
  refine ⟨?_, FsmDc.ends station cfg dcRef⟩
  have hret := FsmDc.fsm.returns_of_calls trivial h
  change (FsmDc.new station cfg dcRef).script.Returns log () at hret
  rw [FsmDc.script_new, configureDc] at hret
  rw [TimesAnswered]
  cases hc : dcRef.compensate with
  | true =>
    rw [hc, if_pos rfl] at hret
    rw [if_pos rfl]
    exact dcSound_compensated hret
  | false =>
    rw [hc, if_neg (by decide)] at hret
    rw [if_neg (by decide)]
    exact returns_uncompensated hret

def everyMillisecond : DcCfg := ⟨0x0300, 1000000, 0, 0⟩

def dcRun (time : List UInt8) (wkc : UInt16) : Except EcError (Bool × FsmDc) × Exchanged :=
  calls FsmDc.step (.new 1 everyMillisecond .reference) []
    (List.replicate 2 (answering [] 1) ++ List.replicate 2 (answering time wkc) ++ List.replicate 6 (answering [] 1))

theorem dcConfigured_sound_second : ∃ s log, dcRun [0, 202, 154, 59, 0, 0, 0, 0] 1 = (.ok (true, s), log) ∧
    (DcSound log ↔ TimesAnswered 1 everyMillisecond .reference log) := by
  obtain ⟨s, hs⟩ := of_finished (r := dcRun [0, 202, 154, 59, 0, 0, 0, 0] 1) (by decide +kernel)
  exact ⟨s, _, hs, (dcConfigured_sound_iff hs).1⟩

theorem dcConfigured_unsound : ∃ s log, dcRun (zeros 8) 0 = (.ok (true, s), log) ∧ ¬DcSound log := by
  obtain ⟨s, hs⟩ := of_finished (r := dcRun (zeros 8) 0) (by decide +kernel)
  have hread : ∃ x ∈ (dcRun (zeros 8) 0).2, x.1 = timeRequest 1 ∧
      x.2.toOption.bind (fun rx => (parse rx).map Reply.workingCounter) = some 0 := by decide +kernel
  refine ⟨s, _, hs, ?_⟩
  rintro ⟨hacked, -⟩
  obtain ⟨⟨request, answer⟩, hx, rfl, hwkc⟩ := hread
  obtain ⟨rx, rs, rfl, hrs, hall⟩ := hacked _ hx
  obtain ⟨reply, hparse, hzero⟩ := Option.map_eq_some_iff.mp (show (parse rx).map Reply.workingCounter = some 0 from hwkc)
  rw [timeRequest, replies_single, hparse] at hrs
  obtain rfl := Option.some.inj hrs
  obtain ⟨hone, -⟩ := List.forall₂_cons.mp hall
  exact absurd ((show reply.workingCounter = 1 from hone).symm.trans hzero) (by decide)

end EcMaster

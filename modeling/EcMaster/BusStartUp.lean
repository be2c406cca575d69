import EcMaster.Operations
import EcMaster.SlaveStartUp

namespace EcMaster

open Library.Dialogue Library.Dialogue.Script Library.Segment Library.LittleEndian Library.Memory

structure Willing (slaves : List SlaveInfo) (w : Stations) (cfg : SlaveSetup) (info : SlaveInfo) (s : Esc) : Prop where
  found : slaveAt slaves cfg.position = some info
  there : w info.stationAddr = some s
  mailbox : s.make.mailbox = info.mailbox
  state : s.al &&& alStateMask ∈ [alStateInit, alStatePreop, alStateSafeop, alStateOp]
  settled : s.al &&& alStateError ≠ 0 → s.lag = 0
  free : s.server.answer = none
  proper : cfg.Proper
  accepts : ∀ mem, cfg.Held info.mailbox mem → s.make.accepts mem (storedAll s.server.objects cfg.values) = true

/-- Slaves for each of the setups, one each, and the reference clock if there is one. -/
structure Bus.Ready (B : Bus) (slaves : List SlaveInfo) (w : Stations) (cfgs : List SlaveSetup) : Prop where
  willing : ∀ cfg ∈ cfgs, ∃ info s, Willing slaves w cfg info s
  apart : cfgs.Pairwise fun a b => ∀ i j, slaveAt slaves a.position = some i → slaveAt slaves b.position = some j →
    i.stationAddr ≠ j.stationAddr
  clock : ∀ r, slaveAt slaves B.layout.bus.refClockSlave.toNat = some r → (w r.stationAddr).isSome = true

structure Configured (slaves : List SlaveInfo) (w w' : Stations) (cfg : SlaveSetup) (info : SlaveInfo) (s s' : Esc) :
    Prop where
  found : slaveAt slaves cfg.position = some info
  before : w info.stationAddr = some s
  behind : w' info.stationAddr = some s'
  state : s'.al = alStateSafeop
  registers : cfg.Held info.mailbox s'.mem
  objects : s'.server.objects = storedAll s.server.objects cfg.values

/-- The slaves of the setups are configured, and all others are as they were. -/
structure AllConfigured (slaves : List SlaveInfo) (cfgs : List SlaveSetup) (w w' : Stations) : Prop where
  configured : ∀ cfg ∈ cfgs, ∃ info s s', Configured slaves w w' cfg info s s'
  others : ∀ station, (∀ cfg ∈ cfgs, ∀ info, slaveAt slaves cfg.position = some info → info.stationAddr ≠ station) →
    w' station = w station

section

variable {B : Bus} {slaves : List SlaveInfo} {w : Stations}

theorem Willing.put {cfg : SlaveSetup} {info : SlaveInfo} {s s' : Esc} {station : UInt16} (h : Willing slaves w cfg info s)
    (hne : info.stationAddr ≠ station) : Willing slaves (w.put station s') cfg info s :=
  ⟨h.found, (Stations.put_of_ne hne).trans h.there, h.mailbox, h.state, h.settled, h.free, h.proper, h.accepts⟩

theorem Bus.Ready.tail {cfg : SlaveSetup} {cfgs : List SlaveSetup} {info : SlaveInfo} {s' : Esc}
    (h : B.Ready slaves w (cfg :: cfgs)) (hfound : slaveAt slaves cfg.position = some info) :
    B.Ready slaves (w.put info.stationAddr s') cfgs := by
  obtain ⟨hhead, htail⟩ := List.pairwise_cons.mp h.apart
  refine ⟨fun c hc => ?_, htail, fun r hr => ?_⟩
  · obtain ⟨i, s, hi⟩ := h.willing c (List.mem_cons_of_mem _ hc)
    exact ⟨i, s, hi.put (hhead c hc info i hfound hi.found).symm⟩
  · by_cases hs : r.stationAddr = info.stationAddr
    · rw [hs, Stations.put_self]
      rfl
    · rw [Stations.put_of_ne hs]
      exact h.clock r hr

theorem AllConfigured.cons {cfg : SlaveSetup} {cfgs : List SlaveSetup} {info : SlaveInfo} {s s' : Esc} {w' : Stations}
    (h : Configured slaves w (w.put info.stationAddr s') cfg info s s')
    (hne : ∀ c ∈ cfgs, ∀ i, slaveAt slaves c.position = some i → i.stationAddr ≠ info.stationAddr)
    (hrest : AllConfigured slaves cfgs (w.put info.stationAddr s') w') : AllConfigured slaves (cfg :: cfgs) w w' := by
  refine ⟨List.forall_mem_cons.mpr ⟨?_, fun c hc => ?_⟩, fun station hs => ?_⟩
  · have hkept : w' info.stationAddr = some s' := (hrest.others _ hne).trans Stations.put_self
    exact ⟨info, s, s', h.found, h.before, hkept, h.state, h.registers, h.objects⟩
  · obtain ⟨i, s₁, s₂, hc'⟩ := hrest.configured c hc
    have hbefore := hc'.before
    rw [Stations.put_of_ne (hne c hc i hc'.found)] at hbefore
    exact ⟨i, s₁, s₂, hc'.found, hbefore, hc'.behind, hc'.state, hc'.registers, hc'.objects⟩
  · obtain ⟨hhead, htail⟩ := List.forall_mem_cons.mp hs
    rw [hrest.others station htail, Stations.put_of_ne (hhead info h.found).symm]

end

namespace Master

variable {B : Bus}

theorem Ends.secured {W : Type} {P : Partner W (List Access) (List UInt8) EcError} {post : Outcome → W → Prop} {w w' : W}
    {m m' : Master B} (ha : m.Active) (hsec : m.pos.1.Secures P post w) {es : ℕ → List (PitTick B.layout) × Device}
    {r : Except EcError Outcome} (he : Ends m es r m') {lines : Exchanged} (hlog : m'.log = m.log ++ lines)
    (hw : replay P w lines = some w') : ∃ outcome, r = .ok outcome ∧ post outcome w' := by
  obtain ⟨lines', hlog', hreach⟩ := he.reaches ha
  obtain rfl : lines = lines' := List.append_cancel_left (hlog.symm.trans hlog')
  cases r with
  | error e => exact absurd hreach (hsec.not_fail hw)
  | ok outcome => exact ⟨outcome, rfl, hsec.returns hreach hw⟩

/-- The exchanges of an operation are such that its partner may have given the answers. -/
def Answered {W : Type} (P : Partner W (List Access) (List UInt8) EcError) (w : W) (m : Master B)
    (es : ℕ → List (PitTick B.layout) × Device) : Prop :=
  ∀ r m' lines, Ends m es r m' → m'.log = m.log ++ lines → (replay P w lines).isSome

theorem ends_secured {W : Type} {P : Partner W (List Access) (List UInt8) EcError} {post : Outcome → W → Prop} {w : W}
    {m : Master B} (ha : m.Active) (hsec : m.pos.1.Secures P post w) {es : ℕ → List (PitTick B.layout) × Device}
    (hans : m.Answered P w es) :
    ∃ outcome m' lines w', Ends m es (.ok outcome) m' ∧ m'.log = m.log ++ lines ∧ replay P w lines = some w' ∧
      post outcome w' := by
  obtain ⟨r, m', he⟩ := active_ends ha es
  obtain ⟨lines, hlog, -⟩ := he.reaches ha
  obtain ⟨w', hw⟩ := Option.isSome_iff_exists.mp (hans r m' lines he hlog)
  obtain ⟨outcome, rfl, hpost⟩ := he.secured ha hsec hlog hw
  exact ⟨outcome, m', lines, w', he, hlog, hw, hpost⟩

theorem Ends.unique {m m₁ m₂ : Master B} {es : ℕ → List (PitTick B.layout) × Device} {r₁ r₂ : Except EcError Outcome}
    (h₁ : Ends m es r₁ m₁) (h₂ : Ends m es r₂ m₂) : r₁ = r₂ ∧ m₁ = m₂ := by
  have hlast {n : ℕ} {s m' : Master B} {r : Except EcError Outcome} {dev : Device}
      (hs : playing continued m es n = some s) (hr : (s.ticked (es n).1).pollOp (es n).2 = (some r, m', dev)) (k : ℕ) :
      playing continued m es (n + 1 + k) = none := by
    induction k with
    | zero =>
      rw [Nat.add_zero, playing, hs, Option.bind_some, continued, hr]
    | succ k ih => rw [← Nat.add_assoc, playing, ih, Option.bind_none]
  obtain ⟨n₁, s₁, d₁, hs₁, hr₁⟩ := h₁
  obtain ⟨n₂, s₂, d₂, hs₂, hr₂⟩ := h₂
  rcases Nat.lt_trichotomy n₁ n₂ with h | rfl | h
  · obtain ⟨k, rfl⟩ := Nat.exists_eq_add_of_lt h
    have hn := hlast hs₁ hr₁ k
    rw [show n₁ + 1 + k = n₁ + k + 1 by omega, hs₂] at hn
    cases hn
  · obtain rfl := Option.some.inj (hs₁.symm.trans hs₂)
    have he := hr₁.symm.trans hr₂
    exact ⟨Option.some.inj (congrArg Prod.fst he), congrArg (fun p => p.2.1) he⟩
  · obtain ⟨k, rfl⟩ := Nat.exists_eq_add_of_lt h
    have hn := hlast hs₂ hr₂ k
    rw [show n₂ + 1 + k = n₂ + k + 1 by omega, hs₁] at hn
    cases hn

def endedAt (m : Master B) (es : ℕ → List (PitTick B.layout) × Device) (n : ℕ) :
    Option (Except EcError Outcome × Master B) :=
  (playing continued m es n).bind fun s =>
    match (s.ticked (es n).1).pollOp (es n).2 with
    | (some r, m', _) => some (r, m')
    | (none, _, _) => none

theorem ends_of_endedAt {m m' : Master B} {es : ℕ → List (PitTick B.layout) × Device} {n : ℕ}
    {r : Except EcError Outcome} (h : endedAt m es n = some (r, m')) : Ends m es r m' := by
  obtain ⟨s, hs, h⟩ := Option.bind_eq_some_iff.mp h
  rcases hr : (s.ticked (es n).1).pollOp (es n).2 with ⟨_ | r', m'', dev⟩
  all_goals rw [hr] at h
  · cases h
  · obtain ⟨rfl, rfl⟩ := Prod.mk.inj (Option.some.inj h)
    exact ⟨n, s, dev, hs, hr⟩

def exchangedAt (m : Master B) (es : ℕ → List (PitTick B.layout) × Device) (n : ℕ) : Option Exchanged :=
  (endedAt m es n).map fun p => p.2.log.drop m.log.length

theorem answered_of_exchangedAt {W : Type} {P : Partner W (List Access) (List UInt8) EcError} {w : W} {m : Master B}
    {es : ℕ → List (PitTick B.layout) × Device} {n : ℕ}
    (h : (exchangedAt m es n).any (fun lines => (replay P w lines).isSome) = true) : m.Answered P w es := by
  intro r m' lines he hlog
  rw [exchangedAt, Option.any_map] at h
  obtain ⟨⟨r', m''⟩, hended, hw⟩ := (Option.any_eq_true _ _).mp h
  obtain ⟨-, rfl⟩ := he.unique (ends_of_endedAt hended)
  simpa [hlog] using hw

theorem begin_taken {m m' : Master B} {request : Request} (h : m.begin request = (.ok (), m')) :
    ∃ op, m.prepare request = .ok op ∧
      m' = { m with slaves := if request = .rescan then [] else m.slaves, op := some op } := by
  rw [begin] at h
  cases hp : m.prepare request with
  | error e =>
    rw [hp] at h
    exact absurd h (by simp)
  | ok op =>
    rw [hp] at h
    exact ⟨op, rfl, (Prod.mk.inj h).2.symm⟩

theorem begin_pos {m m' : Master B} {request : Request} (h : m.begin request = (.ok (), m')) :
    ∃ op, m.prepare request = .ok op ∧ m'.log = m.log ∧
      m'.pos.1 = op.script B (if request = .rescan then [] else m.slaves) := by
  obtain ⟨op, hop, rfl⟩ := begin_taken h
  exact ⟨op, hop, rfl, rfl⟩

def startedInfo : SlaveInfo := ⟨0, 1, alStateInit, 0, 3, 4, 1, 1, 0, 0x1000, 16, 0x1080, 16, 4, true⟩

def startedEsc : Esc where
  make := {
    mailbox := startedInfo.mailbox
    delays := fun _ => 0
    accepts := fun mem objects => peek mem 0x0810 8 = processPage 0x1100 2 0x24 && objects 0x1C12 0 = [1]
    rx_behind := by decide
    tx_behind := by decide
    rx_fits := by decide
    tx_fits := by decide
    prompt := fun _ => by decide }
  mem := fun _ => 0
  al := alStateInit
  shown := alStateInit
  lag := 0
  server := ⟨fun _ _ => [], 1, none⟩
  busy := 0
  job := 0

def startedStations : Stations := Stations.put (fun _ => none) 1 startedEsc

def attended (first : ℕ) (payloads : List (List UInt8)) : List Device :=
  payloads.zipIdx.flatMap fun p =>
    List.replicate 2 (Device.receiving [answerFrame .fprd (UInt8.ofNat (first + p.2)) p.1 1 []])

end Master

end EcMaster

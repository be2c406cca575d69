import EcMaster.Operations
import EcMaster.PartialScan

namespace EcMaster

open Library.Dialogue Library.Dialogue.Script Library.Segment

def SlaveInfo.untracked (s : SlaveInfo) : SlaveInfo := { s with alState := 0 }

/-- The same slaves in the same order, apart from their tracked AL states. -/
def SameSlaves (slaves found : List SlaveInfo) : Prop := slaves.map SlaveInfo.untracked = found.map SlaveInfo.untracked

theorem SameSlaves.refl (slaves : List SlaveInfo) : SameSlaves slaves slaves := rfl

theorem SameSlaves.trans {a b c : List SlaveInfo} (h : SameSlaves a b) (h' : SameSlaves b c) : SameSlaves a c :=
  Eq.trans h h'

def Op.isRescan : Op → Bool
  | .rescan _ => true
  | _ => false

theorem updateState_same (slaves : List SlaveInfo) (station : UInt16) (target : UInt8) :
    SameSlaves (updateState slaves station target) slaves := by
  rw [SameSlaves, updateState, List.map_map]
  refine List.map_congr_left fun s _ => ?_
  change SlaveInfo.untracked (if s.stationAddr = station then _ else s) = _
  split <;> rfl

theorem foldl_updateState_same (ready : List CyclicSlave) (slaves : List SlaveInfo) :
    SameSlaves (ready.foldl (fun slaves c => updateState slaves c.station alStateSafeop) slaves) slaves := by
  induction ready generalizing slaves with
  | nil => exact .refl _
  | cons c ready ih => exact (ih _).trans (updateState_same slaves c.station alStateSafeop)

namespace Master

variable {B : Bus}

theorem drive_same (m : Master B) {op : Op} (h : ∀ fsm, op ≠ .rescan fsm) (k : Link) :
    SameSlaves (m.drive op k).2.1.slaves m.slaves ∧ (m.drive op k).2.1.op = m.op ∧
      ∀ n, (m.drive op k).1 ≠ .ok (.inl (.rescanned n)) := by
  rcases op with fsm | pre | ⟨slave, pre, _ | coe, request⟩ | ⟨seq, cycleNs⟩ | down
  case rescan => exact absurd rfl (h fsm)
  case state =>
    rw [drive]
    rcases pre.step k with ⟨_ | ⟨_ | _, pre'⟩, k'⟩
    · exact ⟨.refl _, rfl, fun _ h => by cases h⟩
    · exact ⟨.refl _, rfl, fun _ h => by cases h⟩
    · exact ⟨updateState_same _ _ _, rfl, fun _ h => by cases h⟩
  case sdo.none =>
    rw [drive]
    rcases pre.step k with ⟨_ | ⟨_ | _, pre'⟩, k'⟩
    · exact ⟨.refl _, rfl, fun _ h => by cases h⟩
    · exact ⟨.refl _, rfl, fun _ h => by cases h⟩
    · dsimp only
      cases (updateState m.slaves pre'.station pre'.target)[slave.toNat]? with
      | none => exact ⟨updateState_same _ _ _, rfl, fun _ h => by cases h⟩
      | some s => exact ⟨updateState_same _ _ _, rfl, fun _ h => by cases h⟩
  case sdo.some =>
    rw [drive]
    rcases coe.step k with ⟨_ | ⟨_ | _, coe'⟩, k'⟩
    · exact ⟨.refl _, rfl, fun _ h => by cases h⟩
    · exact ⟨.refl _, rfl, fun _ h => by cases h⟩
    · cases request with
      | upload => exact ⟨.refl _, rfl, fun _ h => by cases h⟩
      | download => exact ⟨.refl _, rfl, fun _ h => by cases h⟩
  case startCyclic =>
    rw [drive]
    rcases seq.step B m.slaves k with ⟨_ | ⟨_ | _, seq'⟩, k'⟩
    · exact ⟨.refl _, rfl, fun _ h => by cases h⟩
    · exact ⟨.refl _, rfl, fun _ h => by cases h⟩
    · exact ⟨foldl_updateState_same _ _, rfl, fun _ h => by cases h⟩
  case stopCyclic =>
    rw [drive]
    rcases down.step k with ⟨⟨_ | _, _ | station, down'⟩, k'⟩
    · exact ⟨.refl _, rfl, fun _ h => by cases h⟩
    · exact ⟨updateState_same _ _ _, rfl, fun _ h => by cases h⟩
    · exact ⟨.refl _, rfl, fun _ h => by cases h⟩
    · exact ⟨updateState_same _ _ _, rfl, fun _ h => by cases h⟩

theorem polled_other {m : Master B} {op : Op} (h : m.op = some op) (hne : ∀ fsm, op ≠ .rescan fsm) (dev : Device) :
    SameSlaves (m.pollOp dev).2.1.slaves m.slaves ∧ (∀ fsm, (m.pollOp dev).2.1.op ≠ some (.rescan fsm)) ∧
      (∀ n, (m.pollOp dev).1 ≠ some (.ok (.rescanned n))) ∧
        ((m.pollOp dev).1 ≠ none → (m.pollOp dev).2.1.op = none) := by
  obtain ⟨hs, hop, hr⟩ := drive_same { m with op := none } hne ⟨dev, m.index, m.log⟩
  rw [pollOp, h]
  dsimp only
  rcases hd : drive { m with op := none } op ⟨dev, m.index, m.log⟩ with ⟨e | outcome | op', m', k⟩
  all_goals rw [hd] at hs hop hr
  · refine ⟨hs, fun fsm hf => ?_, fun _ h => (by cases h), fun _ => hop⟩
    exact absurd (hop.symm.trans hf) (by simp)
  · refine ⟨hs, fun fsm hf => ?_, fun n hn => ?_, fun _ => hop⟩
    · exact absurd (hop.symm.trans hf) (by simp)
    · obtain rfl := Except.ok.inj (Option.some.inj hn)
      exact hr n rfl
  · refine ⟨hs, fun fsm hf => ?_, fun _ h => (by cases h), fun hn => absurd rfl hn⟩
    obtain rfl := Option.some.inj hf
    have hf := drive_follows _ (congrArg Prod.fst hd)
    cases op with
    | rescan fsm' => exact hne fsm' rfl
    | _ => exact hf.elim

theorem polled_rescan {m : Master B} {fsm : ScanFsm} (h : m.op = some (.rescan fsm)) (hc : fsm.completed = none)
    (dev : Device) :
    (∃ e, (m.pollOp dev).1 = some (.error e) ∧ (m.pollOp dev).2.1.op = none ∧ (m.pollOp dev).2.1.slaves = m.slaves) ∨
      (∃ fsm' lines, (m.pollOp dev).1 = none ∧ (m.pollOp dev).2.1.op = some (.rescan fsm') ∧
        (m.pollOp dev).2.1.log = m.log ++ lines ∧
          (ScanFsm.rescanScript (fsm, m.slaves)).Reaches lines
            (ScanFsm.rescanScript (fsm', (m.pollOp dev).2.1.slaves)) ∧
          ∀ log, ScanFsm.HandedOver (fsm, m.slaves) log →
            ScanFsm.HandedOver (fsm', (m.pollOp dev).2.1.slaves) (log ++ lines)) ∨
      ∃ n lines, (m.pollOp dev).1 = some (.ok (.rescanned n)) ∧ (m.pollOp dev).2.1.op = none ∧
        (m.pollOp dev).2.1.log = m.log ++ lines ∧
          (ScanFsm.rescanScript (fsm, m.slaves)).Returns lines (m.pollOp dev).2.1.slaves := by
  obtain ⟨lines, hlog, hm⟩ := (ScanFsm.rescan_plays (fsm, m.slaves) ⟨dev, m.index, m.log⟩ hc).turns
  have hr := hm.reaches
  rw [pollOp, h]
  dsimp only
  rw [drive]
  rcases hs : ScanFsm.rescanStep (fsm, m.slaves) ⟨dev, m.index, m.log⟩ with ⟨e | ⟨_ | _, fsm', slaves⟩, k⟩
  all_goals rw [hs] at hlog hr
  · exact Or.inl ⟨e, rfl, rfl, rfl⟩
  · exact Or.inr (Or.inl ⟨fsm', lines, rfl, rfl, hlog, hr, fun log ho =>
      ho.step (congrArg Prod.fst hs) ((congrArg (fun r => r.2.log) hs).trans hlog)⟩)
  · exact Or.inr (Or.inr ⟨slaves.length, lines, rfl, rfl, hlog, hr⟩)

end Master

theorem returns_readField {field : SiiField} {after : Cur → UInt32 → Procedure (List SlaveInfo)} {c : Cur}
    {log : Exchanged} {l : List SlaveInfo} (h : (readField field after c).Returns log l) :
    ∃ c value rest, (after c value).Returns rest l := by
  obtain ⟨l₁, l₂, value, -, -, h⟩ := returns_bind.mp h
  exact ⟨c, value, l₂, h⟩

theorem returns_afterProtocols {next : Procedure (List SlaveInfo)} {c : Cur} {value : UInt32} {log : Exchanged}
    {l : List SlaveInfo} (h : (afterProtocols next c value).Returns log l) :
    ∃ info found, l = info :: found ∧ next.Returns log found := by
  obtain ⟨found, hn, rfl⟩ := returns_map.mp h
  exact ⟨_, found, rfl, hn⟩

theorem returns_scanSlave {next : Procedure (List SlaveInfo)} {c : Cur} {log : Exchanged} {l : List SlaveInfo}
    (h : (scanSlave next c).Returns log l) :
    ∃ info rest found, l = info :: found ∧ next.Returns rest found := by
  obtain ⟨rx, log₁, -, h⟩ := returns_exchange.mp h
  obtain ⟨reply, -, h⟩ := returns_replied.mp h
  obtain ⟨-, h⟩ := returns_confirmed.mp h
  obtain ⟨rx, log₂, -, h⟩ := returns_exchange.mp h
  obtain ⟨reply, -, h⟩ := returns_replied.mp h
  obtain ⟨-, h⟩ := returns_confirmed.mp h
  obtain ⟨rx, log₃, -, h⟩ := returns_exchange.mp h
  obtain ⟨reply, -, h⟩ := returns_replied.mp h
  obtain ⟨-, h⟩ := returns_confirmed.mp h
  obtain ⟨_, _, _, h⟩ := returns_readField h
  obtain ⟨_, _, _, h⟩ := returns_readField h
  obtain ⟨_, _, _, h⟩ := returns_readField h
  obtain ⟨_, _, _, h⟩ := returns_readField h
  obtain ⟨_, _, _, h⟩ := returns_readField h
  obtain ⟨_, _, rest, h⟩ := returns_readField h
  obtain ⟨info, found, rfl, hn⟩ := returns_afterProtocols h
  exact ⟨info, rest, found, rfl, hn⟩

theorem length_scanFrom {count : UInt16} {n : ℕ} {ringPos : UInt16} {log : Exchanged} {l : List SlaveInfo}
    (h : (scanFrom count n ringPos).Returns log l) : l.length ≤ n + 1 := by
  induction n generalizing ringPos log l with
  | zero =>
    obtain ⟨info, rest, found, rfl, hf⟩ := returns_scanSlave h
    obtain ⟨-, rfl⟩ := returns_done.mp (returns_skip.mp hf)
    exact le_rfl
  | succ n ih =>
    obtain ⟨info, rest, found, rfl, hf⟩ := returns_scanSlave h
    split at hf
    · exact Nat.succ_le_succ (ih hf)
    · obtain ⟨-, rfl⟩ := returns_done.mp (returns_skip.mp hf)
      exact Nat.succ_le_succ (Nat.zero_le _)

theorem length_scanBus {log : Exchanged} {l : List SlaveInfo} (h : scanBus.Returns log l) : l.length ≤ ecMaxSlaves := by
  obtain ⟨rx, log₁, -, h⟩ := returns_exchange.mp h
  obtain ⟨reply, -, h⟩ := returns_replied.mp h
  split at h
  · obtain ⟨-, rfl⟩ := returns_done.mp (returns_skip.mp h)
    exact Nat.zero_le _
  · obtain ⟨rx, log₂, -, h⟩ := returns_exchange.mp h
    obtain ⟨reply, -, h⟩ := returns_replied.mp h
    exact length_scanFrom h

namespace Master

variable {B : Bus}

/-- What the master is called with: a request, a poll of the active operation, a tick. -/
inductive Event (L : Layout)
  | request (request : Request)
  | poll (dev : Device)
  | tick (e : PitTick L)

/-- The master, the length of its log when the active operation was begun, and the list found by the last rescan
that was successful, as its exchanges tell it. -/
structure Scanned (B : Bus) where
  m : Master B
  since : ℕ
  found : List SlaveInfo

def rescanning (m : Master B) : Bool := m.op.any Op.isRescan

def failed : Option (Except EcError Outcome) → Bool
  | some (.error _) => true
  | _ => false

theorem rescanning_iff {m : Master B} : m.rescanning = true ↔ ∃ fsm, m.op = some (.rescan fsm) := by
  rw [rescanning]
  constructor
  · intro h
    cases hop : m.op with
    | none =>
      rw [hop] at h
      exact absurd h Bool.false_ne_true
    | some op =>
      rw [hop] at h
      cases op with
      | rescan fsm => exact ⟨fsm, rfl⟩
      | _ => exact absurd h Bool.false_ne_true
  · rintro ⟨fsm, hop⟩
    rw [hop]
    rfl

namespace Scanned

def new (B : Bus) : Scanned B := ⟨.new B, 0, []⟩

def step (t : Scanned B) : Event B.layout → Scanned B
  | .request request =>
    match t.m.begin request with
    | (.ok (), m) => { t with m := m, since := t.m.log.length }
    | (.error _, m) => { t with m := m }
  | .poll dev =>
    let m := (t.m.pollOp dev).2.1
    match (t.m.pollOp dev).1 with
    | some (.ok (.rescanned _)) => { t with m := m, found := (scanBus.result (m.log.drop t.since)).getD [] }
    | _ => { t with m := m }
  | .tick e => { t with m := t.m.tick e }

def run (t : Scanned B) (es : List (Event B.layout)) : Scanned B := es.foldl step t

def Abandons (t : Scanned B) (e : Event B.layout) : Prop :=
  t.m.rescanning = true ∧
    match e with
    | .request request => request ≠ .rescan ∧ (t.m.begin request).1.isOk = true
    | .poll dev => failed (t.m.pollOp dev).1 = true
    | .tick _ => False

def complete (t : Scanned B) : List SlaveInfo := completeSlaves (t.m.log.drop t.since)

/-- In every step, a rescan that is abandoned has found by its exchanges just what was known before. -/
def Spared (t : Scanned B) : List (Event B.layout) → Prop
  | [] => True
  | e :: es => (t.Abandons e → SameSlaves t.complete t.found) ∧ (t.step e).Spared es

structure Inv (t : Scanned B) : Prop where
  active : ∀ op, t.m.op = some op → op.Good
  since : t.since ≤ t.m.log.length
  scanning : ∀ fsm, t.m.op = some (.rescan fsm) →
    (ScanFsm.rescanScript (.new, [])).Reaches (t.m.log.drop t.since) (ScanFsm.rescanScript (fsm, t.m.slaves)) ∧
      ScanFsm.HandedOver (fsm, t.m.slaves) (t.m.log.drop t.since)
  resting : (∀ fsm, t.m.op ≠ some (.rescan fsm)) → SameSlaves t.m.slaves t.found

theorem Inv.complete {t : Scanned B} (h : t.Inv) (hs : t.m.rescanning = true) : t.complete = t.m.slaves := by
  obtain ⟨fsm, hop⟩ := rescanning_iff.mp hs
  exact (h.scanning fsm hop).2.eq

theorem inv_new : (new B).Inv :=
  ⟨fun _ h => absurd h (by simp [new, Master.new]), le_rfl, fun _ h => absurd h (by simp [new, Master.new]),
    fun _ => .refl _⟩

theorem inv_tick {t : Scanned B} (h : t.Inv) (e : PitTick B.layout) : (t.step (.tick e)).Inv := by
  have hs := t.m.tick_same e
  refine ⟨fun op hop => h.active op (hs.op ▸ hop), ?_, fun fsm hop => ?_, fun hop => ?_⟩
  · change t.since ≤ (t.m.tick e).log.length
    rw [hs.log]
    exact h.since
  · change (ScanFsm.rescanScript (.new, [])).Reaches ((t.m.tick e).log.drop t.since)
      (ScanFsm.rescanScript (fsm, (t.m.tick e).slaves)) ∧
        ScanFsm.HandedOver (fsm, (t.m.tick e).slaves) ((t.m.tick e).log.drop t.since)
    rw [hs.log, hs.slaves]
    exact h.scanning fsm (hs.op ▸ hop)
  · change SameSlaves (t.m.tick e).slaves t.found
    rw [hs.slaves]
    exact h.resting fun fsm hf => hop fsm (hs.op.trans hf)

theorem prepare_rescan {m : Master B} {request : Request} {fsm : ScanFsm} (h : m.prepare request = .ok (.rescan fsm)) :
    request = .rescan ∧ fsm = .new := by
  cases request with
  | rescan =>
    cases h
    exact ⟨rfl, rfl⟩
  | _ =>
    rw [prepare] at h
    repeat' split at h
    all_goals cases h

theorem inv_request {t : Scanned B} (h : t.Inv) {request : Request}
    (hs : t.Abandons (.request request) → SameSlaves t.complete t.found) : (t.step (.request request)).Inv := by
  rw [step]
  rcases hb : t.m.begin request with ⟨e | _, m'⟩
  · rw [begin] at hb
    cases hp : t.m.prepare request with
    | error e =>
      rw [hp] at hb
      obtain ⟨-, rfl⟩ := Prod.mk.inj hb
      exact h
    | ok op =>
      rw [hp] at hb
      exact absurd hb (by simp)
  · have hactive := begin_active hb
    rw [Abandons, hb] at hs
    rw [begin] at hb
    cases hp : t.m.prepare request with
    | error e =>
      rw [hp] at hb
      exact absurd hb (by simp)
    | ok op =>
      rw [hp] at hb
      obtain ⟨-, rfl⟩ := Prod.mk.inj hb
      refine ⟨fun op' hop => ?_, le_rfl, fun fsm hop => ?_, fun hop => ?_⟩
      · obtain ⟨op'', hop', hg⟩ := hactive
        obtain rfl := Option.some.inj (hop.symm.trans hop')
        exact hg
      · obtain rfl := Option.some.inj hop
        obtain ⟨rfl, rfl⟩ := prepare_rescan hp
        change (ScanFsm.rescanScript (.new, [])).Reaches (t.m.log.drop t.m.log.length) (ScanFsm.rescanScript (.new, [])) ∧
          ScanFsm.HandedOver (.new, []) (t.m.log.drop t.m.log.length)
        rw [List.drop_length]
        exact ⟨Reaches.here _, ScanFsm.handedOver_new⟩
      · have hne : request ≠ .rescan := by
          rintro rfl
          cases hp
          exact hop _ rfl
        change SameSlaves (if request = .rescan then [] else t.m.slaves) t.found
        rw [if_neg hne]
        by_cases hscan : t.m.rescanning = true
        · rw [← h.complete hscan]
          exact hs ⟨hscan, hne, rfl⟩
        · exact h.resting fun fsm hf => hscan (rescanning_iff.mpr ⟨fsm, hf⟩)

theorem log_pollOp {m : Master B} (h : ∀ op, m.op = some op → op.Good) (dev : Device) :
    m.log <+: (m.pollOp dev).2.1.log := by
  cases hop : m.op with
  | none =>
    rw [pollOp, hop]
  | some op =>
    obtain ⟨⟨lines, hlog, -⟩, -⟩ := pollOp_turns ⟨op, hop, h op hop⟩ dev
    exact ⟨lines, hlog.symm⟩

theorem found_of_returns {log : Exchanged} {slaves : List SlaveInfo}
    (h : (ScanFsm.rescanScript (.new, [])).Returns log slaves) : (scanBus.result log).getD [] = slaves := by
  have hnew : ScanFsm.new.script = scanBus := (if_pos rfl).trans (Exchange.resume_idle _)
  rw [ScanFsm.rescanScript, hnew] at h
  obtain ⟨found, hf, rfl⟩ := returns_map.mp h
  rw [result_of_returns hf, Option.getD_some, foldl_pushWithin _ _ _ (Nat.zero_le _), List.nil_append]
  exact (List.take_of_length_le (length_scanBus hf)).symm

theorem since_le_pollOp {t : Scanned B} (h : t.Inv) (dev : Device) : t.since ≤ (t.m.pollOp dev).2.1.log.length := by
  obtain ⟨tail, htail⟩ := log_pollOp h.active dev
  rw [← htail, List.length_append]
  exact h.since.trans (Nat.le_add_right _ _)

theorem inv_poll_rescan {t : Scanned B} (h : t.Inv) {fsm : ScanFsm} (hop : t.m.op = some (.rescan fsm)) {dev : Device}
    (hs : t.Abandons (.poll dev) → SameSlaves t.complete t.found) : (t.step (.poll dev)).Inv := by
  obtain ⟨-, hactive⟩ := pollOp_turns ⟨_, hop, h.active _ hop⟩ dev
  obtain ⟨hreach, hover⟩ := h.scanning fsm hop
  have hsince := since_le_pollOp h dev
  rw [step]
  rcases polled_rescan hop (h.active _ hop) dev with ⟨e, hr, hnone, hsl⟩ | ⟨fsm', lines, hr, hop', hlog, hl, ho⟩ |
    ⟨n, lines, hr, hnone, hlog, hl⟩
  · rw [hr]
    refine ⟨fun op' h' => ?_, hsince, fun fsm' h' => ?_, fun _ => ?_⟩
    · exact absurd (hnone.symm.trans h') (by simp)
    · exact absurd (hnone.symm.trans h') (by simp)
    · change SameSlaves (t.m.pollOp dev).2.1.slaves t.found
      have hscan : t.m.rescanning = true := rescanning_iff.mpr ⟨fsm, hop⟩
      rw [hsl, ← h.complete hscan]
      exact hs ⟨hscan, congrArg failed hr⟩
  · rw [hr]
    refine ⟨fun op' h' => ?_, hsince, fun fsm'' h' => ?_, fun h' => absurd hop' (h' fsm')⟩
    · obtain ⟨op'', hop'', hg⟩ := hactive hr
      obtain rfl := Option.some.inj (hop''.symm.trans h')
      exact hg
    · obtain rfl := Op.rescan.inj (Option.some.inj (hop'.symm.trans h'))
      change Reaches _ ((t.m.pollOp dev).2.1.log.drop t.since) _ ∧
        ScanFsm.HandedOver _ ((t.m.pollOp dev).2.1.log.drop t.since)
      rw [hlog, List.drop_append_of_le_length h.since]
      exact ⟨hreach.trans hl, ho _ hover⟩
  · rw [hr]
    refine ⟨fun op' h' => ?_, hsince, fun fsm' h' => ?_, fun _ => ?_⟩
    · exact absurd (hnone.symm.trans h') (by simp)
    · exact absurd (hnone.symm.trans h') (by simp)
    · change SameSlaves (t.m.pollOp dev).2.1.slaves ((scanBus.result ((t.m.pollOp dev).2.1.log.drop t.since)).getD [])
      rw [hlog, List.drop_append_of_le_length h.since, found_of_returns (hreach.trans hl)]
      exact .refl _

theorem inv_poll_other {t : Scanned B} (h : t.Inv) {op : Op} (hop : t.m.op = some op) (hne : ∀ fsm, op ≠ .rescan fsm)
    (dev : Device) : (t.step (.poll dev)).Inv := by
  obtain ⟨-, hactive⟩ := pollOp_turns ⟨op, hop, h.active op hop⟩ dev
  have hrest := h.resting fun fsm hf => hne fsm (Option.some.inj (hop.symm.trans hf))
  obtain ⟨hsame, hop', hout, hdone⟩ := polled_other hop hne dev
  have hstep : t.step (.poll dev) = { t with m := (t.m.pollOp dev).2.1 } := by
    rw [step]
    split
    · rename_i n hn
      exact absurd hn (hout n)
    · rfl
  rw [hstep]
  refine ⟨fun op' h' => ?_, since_le_pollOp h dev, fun fsm' h' => absurd h' (hop' fsm'), fun _ => hsame.trans hrest⟩
  by_cases hr : (t.m.pollOp dev).1 = none
  · obtain ⟨op'', hop'', hg⟩ := hactive hr
    obtain rfl := Option.some.inj (hop''.symm.trans h')
    exact hg
  · exact absurd ((hdone hr).symm.trans h') (by simp)

theorem inv_poll {t : Scanned B} (h : t.Inv) {dev : Device}
    (hs : t.Abandons (.poll dev) → SameSlaves t.complete t.found) : (t.step (.poll dev)).Inv := by
  cases hop : t.m.op with
  | none =>
    have hp : t.m.pollOp dev = (none, t.m, dev) := by rw [pollOp, hop]
    rw [step, hp]
    exact h
  | some op =>
    by_cases hscan : ∃ fsm, op = .rescan fsm
    · obtain ⟨fsm, rfl⟩ := hscan
      exact inv_poll_rescan h hop hs
    · exact inv_poll_other h hop (fun fsm hf => hscan ⟨fsm, hf⟩) dev

theorem inv_run {t : Scanned B} {es : List (Event B.layout)} (h : t.Inv) (hs : t.Spared es) : (t.run es).Inv := by
  induction es generalizing t with
  | nil => exact h
  | cons e es ih =>
    obtain ⟨he, hes⟩ := hs
    refine ih ?_ hes
    cases e with
    | request request => exact inv_request h he
    | poll dev => exact inv_poll h he
    | tick e => exact inv_tick h e

theorem slaves_failed {t : Scanned B} (h : t.Inv) {dev : Device} (ha : t.Abandons (.poll dev)) :
    (t.step (.poll dev)).m.slaves = t.complete := by
  obtain ⟨hscan, hf⟩ := ha
  obtain ⟨fsm, hop⟩ := rescanning_iff.mp hscan
  have hm : (t.step (.poll dev)).m = (t.m.pollOp dev).2.1 := by
    rw [step]
    split <;> rfl
  rw [hm, h.complete hscan]
  rcases polled_rescan hop (h.active _ hop) dev with ⟨e, -, -, hsl⟩ | ⟨fsm', lines, hr, -⟩ | ⟨n, lines, hr, -⟩
  · exact hsl
  · dsimp only at hf
    rw [hr] at hf
    exact absurd hf Bool.false_ne_true
  · dsimp only at hf
    rw [hr] at hf
    exact absurd hf Bool.false_ne_true

/-- While no operation is active, the slaves are those of the last successful scan. -/
theorem slaves_lastScan {es : List (Event B.layout)} (hs : (new B).Spared es)
    (hidle : ((new B).run es).m.op = none) : SameSlaves ((new B).run es).m.slaves ((new B).run es).found :=
  (inv_run inv_new hs).resting fun fsm hf => absurd (hidle.symm.trans hf) (by simp)

instance (t : Scanned B) (e : Event B.layout) : Decidable (t.Abandons e) :=
  match e with
  | .request request =>
    inferInstanceAs (Decidable (t.m.rescanning = true ∧ request ≠ .rescan ∧ (t.m.begin request).1.isOk = true))
  | .poll dev => inferInstanceAs (Decidable (t.m.rescanning = true ∧ failed (t.m.pollOp dev).1 = true))
  | .tick _ => inferInstanceAs (Decidable (t.m.rescanning = true ∧ False))

instance (a b : List SlaveInfo) : Decidable (SameSlaves a b) := inferInstanceAs (Decidable (_ = _))

instance decidableSpared (t : Scanned B) : (es : List (Event B.layout)) → Decidable (t.Spared es)
  | [] => isTrue trivial
  | e :: es =>
    have := decidableSpared (t.step e) es
    inferInstanceAs (Decidable ((t.Abandons e → SameSlaves t.complete t.found) ∧ (t.step e).Spared es))

end Scanned

def answeredPolls (L : Layout) (data : List UInt8) (first n : ℕ) : List (Event L) :=
  (List.range n).flatMap fun i =>
    List.replicate 2 (.poll (Device.receiving [answerFrame .fpwr (UInt8.ofNat (first + i)) data 1 []]))

def rescanOne (L : Layout) : List (Event L) :=
  [.request .rescan] ++ answeredPolls L (List.replicate 12 0) 0 17 ++ [.poll (Device.receiving [])]

def rescanCut (L : Layout) : List (Event L) :=
  [.request .rescan, .poll { Device.receiving [] with txReady := false }]

def rescanAgain (L : Layout) : List (Event L) :=
  [.request .rescan] ++
    List.replicate 2 (.poll (Device.receiving [answerFrame .brd 17 (List.replicate 12 0) 2 []])) ++
      answeredPolls L (List.replicate 12 0) 18 16 ++ [.poll { Device.receiving [] with txReady := false }]

theorem slaves_lastScan_again :
    SameSlaves ((Scanned.new (.plain [])).run (rescanOne _ ++ rescanAgain _)).m.slaves
        ((Scanned.new (.plain [])).run (rescanOne _ ++ rescanAgain _)).found ∧
      ((Scanned.new (.plain [])).run (rescanOne _ ++ rescanAgain _)).found.length = 1 :=
  ⟨Scanned.slaves_lastScan (by decide +kernel) (Option.isNone_iff_eq_none.mp (by decide +kernel)), by decide +kernel⟩

theorem slaves_lost : ∃ es, ((Scanned.new (.plain [])).run es).m.op = none ∧
    ¬SameSlaves ((Scanned.new (.plain [])).run es).m.slaves ((Scanned.new (.plain [])).run es).found :=
  ⟨rescanOne _ ++ rescanCut _, Option.isNone_iff_eq_none.mp (by decide +kernel), by decide +kernel⟩

end Master

end EcMaster

import EcMaster.FsmSlaveConfig

namespace EcMaster

open Library.Dialogue Library.Dialogue.Script Library.Segment Library.LittleEndian

theorem FsmChange.left_getD (c : Option FsmChange) (station : UInt16) (target : UInt8) :
    (c.getD (new station target)).left = c.elim Exchange.fresh left := by
  cases c <;> rfl

theorem FsmDc.left_getD (d : Option FsmDc) (station : UInt16) (cfg : DcCfg) (dcRef : DcRef) :
    (d.getD (new station cfg dcRef)).left = d.elim Exchange.fresh left := by
  cases d <;> rfl

theorem CoeSeq.left_queued (mbox : Mailbox) (ws : List SdoWrite) :
    (ws.foldl push (new mbox)).left = Exchange.fresh := by
  rw [foldl_push, left]
  dsimp only
  split
  · rfl
  · rfl

theorem CoeSeq.left_getD (q : Option CoeSeq) (mbox : Mailbox) (ws : List SdoWrite) :
    (q.getD (ws.foldl push (new mbox))).left = q.elim Exchange.fresh left := by
  cases q
  · exact left_queued mbox ws
  · rfl

namespace FsmSlaveConfig

open BringUp

theorem script_idle {s : FsmSlaveConfig} (h : s.x = .idle) : s.script = s.plan := by
  rw [script, h, Exchange.resume_idle, ite_self]

theorem pos_idle {s : FsmSlaveConfig} (h : s.x = .idle) : (pos (.ok (false, s))).1 = s.plan := script_idle h

theorem left_le (s : FsmSlaveConfig) : s.left ≤ Exchange.fresh := by
  have hc : s.change.elim Exchange.fresh FsmChange.left ≤ Exchange.fresh := by
    cases s.change with
    | none => exact le_rfl
    | some c => exact c.x.left_le
  have hd : s.dc.elim Exchange.fresh FsmDc.left ≤ Exchange.fresh := by
    cases s.dc with
    | none => exact le_rfl
    | some d => exact d.x.left_le
  have hq : s.seq.elim Exchange.fresh CoeSeq.left ≤ Exchange.fresh := by
    cases s.seq with
    | none => exact le_rfl
    | some q => exact q.left_le
  rw [left]
  split
  · exact s.x.left_le
  split
  · exact hc
  · exact hc
  · exact hd
  · exact hq

theorem pos_le (r : Except EcError (Bool × FsmSlaveConfig)) : (pos r).2 ≤ Exchange.fresh := by
  rcases r with _ | ⟨_ | _, s⟩
  · exact le_rfl
  · exact s.left_le
  · exact le_rfl

def busy (s : FsmSlaveConfig) : Bool :=
  match s.phase with
  | .sdoInit => true
  | .pdoMapping => s.slave.sms[s.smIdx]?.any fun sm => s.pdoIdx < sm.pdos.length
  | .pdoAssign => s.slave.sms[s.smIdx]?.isSome
  | _ => false

structure Tidy (s : FsmSlaveConfig) : Prop where
  change : s.phase ≠ .toPreop → s.phase ≠ .toSafeop → s.change = none
  dc : s.phase ≠ .dcCycle ∨ s.slave.dc = none → s.dc = none
  seq : s.busy = false → s.seq = none

theorem Tidy.exchange {s : FsmSlaveConfig} (h : s.Tidy) (y : Exchange) : ({ s with x := y } : FsmSlaveConfig).Tidy :=
  ⟨h.change, h.dc, h.seq⟩

abbrev Plays (s : FsmSlaveConfig) (k : Link) (r : Except EcError (Bool × FsmSlaveConfig) × Link) : Prop :=
  EcMaster.Plays script left (fun _ => ()) Tidy s k r

section

variable {s : FsmSlaveConfig} {p : Procedure Unit} {k : Link}

theorem fpwr_plays {ado : UInt16} {payload : List UInt8} {next : FsmSlaveConfig} (hs : s.Tidy) (hown : s.own = true)
    (hplan : s.plan = put s.station ado payload p) (hnext : { next with x := .idle }.plan = p) (hn : next.Tidy) :
    Plays s k (s.fpwr ado payload k next) := by
  have hsx (y : Exchange) : script { s with x := y } = y.resume (put s.station ado payload p) := by
    rw [← hplan]
    exact if_pos hown
  have hlx (y : Exchange) : left { s with x := y } = y.left := if_pos hown
  have hscript := hsx s.x
  have hleft := hlx s.x
  change s.script = _ at hscript
  change s.left = _ at hleft
  refine ⟨?_, fun s' h => ?_⟩
  · rw [hscript, hleft]
    refine Exchange.poll_turns hsx hlx (hear_onReply fun reply => ?_)
    rw [confirmed]
    split
    · rfl
    · exact (pos_idle rfl).trans hnext
  · rcases Exchange.step_ok h with ⟨y, hy⟩ | ⟨rx, hr⟩
    · obtain rfl := (Prod.mk.inj hy).2
      exact hs.exchange y
    · obtain ⟨reply, -, hr⟩ := onReply_ok hr
      split at hr
      · exact absurd hr (by simp)
      · obtain rfl := (Prod.mk.inj (Except.ok.inj hr)).2
        exact hn.exchange _

theorem silent_plays {next : FsmSlaveConfig} (hnext : next.script = p) (hscript : s.script = .skip p)
    (hn : next.Tidy) : Plays s k (.ok (false, next), k) := by
  refine ⟨?_, fun s' h => ?_⟩
  · rw [hscript, ← hnext]
    exact Turns.skip _ _ _ _
  · obtain rfl := (Prod.mk.inj (Except.ok.inj h)).2
    exact hn

theorem runChange_plays {target : UInt8} {next : Bool × FsmSlaveConfig}
    (hs : ∀ c, ({ s with change := c } : FsmSlaveConfig).script =
      (c.getD (FsmChange.new s.station target)).script.bind fun _ => p)
    (hl : ∀ c, ({ s with change := c } : FsmSlaveConfig).left = c.elim Exchange.fresh FsmChange.left)
    (hstay : ∀ c, ({ s with change := some c } : FsmSlaveConfig).Tidy)
    (hnext : (pos (.ok (next.1, { next.2 with change := none }))).1 = p)
    (hn : next.1 = false → ({ next.2 with change := none } : FsmSlaveConfig).Tidy) :
    Plays s k (s.runChange target k next) := by
  have hscript := hs s.change
  have hleft := hl s.change
  change s.script = _ at hscript
  change s.left = _ at hleft
  refine ⟨?_, fun s' h => ?_⟩
  · rw [hscript, hleft, ← FsmChange.left_getD _ s.station target]
    refine FsmChange.fsm.nested_turns trivial (fun e => rfl) (fun c => ?_) (fun c => ⟨hnext, pos_le _⟩)
    exact Prod.ext (hs (some c)) (hl (some c))
  · rcases FsmChange.fsm.nested_ok trivial h with ⟨c, -, hc⟩ | ⟨c, hc⟩
    · obtain rfl := (Prod.mk.inj hc).2
      exact hstay c
    · obtain ⟨h₁, rfl⟩ := Prod.mk.inj (Except.ok.inj hc)
      exact hn h₁

theorem runSeq_plays {seq : CoeSeq} {next : FsmSlaveConfig}
    (hs : s.script = seq.script.bind fun _ => p) (hl : s.left = seq.left)
    (hs' : ∀ q, ({ s with seq := some q } : FsmSlaveConfig).script = q.script.bind fun _ => p)
    (hl' : ∀ q, ({ s with seq := some q } : FsmSlaveConfig).left = q.left)
    (hstay : ∀ q, ({ s with seq := some q } : FsmSlaveConfig).Tidy)
    (hnext : ({ next with seq := none } : FsmSlaveConfig).script = p)
    (hn : ({ next with seq := none } : FsmSlaveConfig).Tidy) :
    Plays s k (s.runSeq seq k next) := by
  refine ⟨?_, fun s' h => ?_⟩
  · rw [hs, hl]
    refine CoeSeq.fsm.nested_turns trivial (fun e => rfl) (fun q => ?_) (fun q => ⟨hnext, pos_le _⟩)
    exact Prod.ext (hs' q) (hl' q)
  · rcases CoeSeq.fsm.nested_ok trivial h with ⟨q, -, hq⟩ | ⟨q, hq⟩
    · obtain rfl := (Prod.mk.inj hq).2
      exact hstay q
    · obtain rfl := (Prod.mk.inj (Except.ok.inj hq)).2
      exact hn

end

theorem Tidy.none_of_own {s : FsmSlaveConfig} (hs : s.Tidy) (h : s.own = true) :
    s.change = none ∧ s.dc = none ∧ s.seq = none := by
  have hb : s.busy = false := by
    rw [own] at h
    rw [busy]
    split <;> simp_all
  refine ⟨hs.change ?_ ?_, hs.dc (Or.inl ?_), hs.seq hb⟩
  all_goals
    intro hp
    rw [own, hp] at h
    exact absurd h (by decide)

theorem tidy_of_none {s : FsmSlaveConfig} (h : s.change = none ∧ s.dc = none ∧ s.seq = none) : s.Tidy :=
  ⟨fun _ _ => h.1, fun _ => h.2.1, fun _ => h.2.2⟩

section

variable {s : FsmSlaveConfig}

theorem script_toPreop (h : s.phase = .toPreop) :
    s.script = (s.change.getD (FsmChange.new s.station alStatePreop)).script.bind fun _ => s.afterPreop := by
  rw [script, own, plan, h]
  rfl

theorem script_toSafeop (h : s.phase = .toSafeop) :
    s.script = (s.change.getD (FsmChange.new s.station alStateSafeop)).script.bind fun _ => .done () := by
  rw [script, own, plan, h]
  rfl

theorem left_change (h : s.phase = .toPreop ∨ s.phase = .toSafeop) :
    s.left = s.change.elim Exchange.fresh FsmChange.left := by
  rcases h with h | h
  · rw [left, own, h]
    rfl
  · rw [left, own, h]
    rfl

theorem left_seq (h : s.phase = .sdoInit ∨ s.phase = .pdoMapping ∨ s.phase = .pdoAssign) :
    s.left = s.seq.elim Exchange.fresh CoeSeq.left := by
  rcases h with h | h | h
  · rw [left, own, h]
    rfl
  · rw [left, own, h]
    rfl
  · rw [left, own, h]
    rfl

theorem script_sdoInit {seq : CoeSeq} (h : s.phase = .sdoInit) (hq : s.seq = some seq) :
    s.script = seq.script.bind fun _ => s.afterInit := by
  rw [script, own, plan, h, hq]
  rfl

theorem script_pdoMapping {sm : SmCfg} {pdo : PdoCfg} (h : s.phase = .pdoMapping) (hsm : s.slave.sms[s.smIdx]? = some sm)
    (hpdo : sm.pdos[s.pdoIdx]? = some pdo) :
    s.script = (s.seq.getD (buildMapping s.mbox pdo)).script.bind fun _ =>
      pdoMappings s.mbox (mappings s.mbox s.afterMapping (s.slave.sms.drop (s.smIdx + 1)))
        (sm.pdos.drop (s.pdoIdx + 1)) := by
  obtain ⟨hi, rfl⟩ := List.getElem?_eq_some_iff.mp hsm
  obtain ⟨hj, rfl⟩ := List.getElem?_eq_some_iff.mp hpdo
  rw [script, own, plan, h, List.drop_eq_getElem_cons hi]
  dsimp only
  rw [List.drop_eq_getElem_cons hj]
  rfl

theorem script_mapped {sm : SmCfg} (h : s.phase = .pdoMapping) (hsm : s.slave.sms[s.smIdx]? = some sm)
    (hpdo : sm.pdos[s.pdoIdx]? = none) :
    s.script = .skip (mappings s.mbox s.afterMapping (s.slave.sms.drop (s.smIdx + 1))) := by
  obtain ⟨hi, rfl⟩ := List.getElem?_eq_some_iff.mp hsm
  rw [script, own, plan, h, List.drop_eq_getElem_cons hi]
  dsimp only
  rw [List.drop_eq_nil_of_le (List.getElem?_eq_none_iff.mp hpdo)]
  rfl

theorem script_nextPdo {sm : SmCfg} (h : s.phase = .pdoMapping) (hq : s.seq = none)
    (hsm : s.slave.sms[s.smIdx]? = some sm) :
    s.script = pdoMappings s.mbox (mappings s.mbox s.afterMapping (s.slave.sms.drop (s.smIdx + 1)))
      (sm.pdos.drop s.pdoIdx) := by
  cases hpdo : sm.pdos[s.pdoIdx]? with
  | none =>
    rw [script_mapped h hsm hpdo, List.drop_eq_nil_of_le (List.getElem?_eq_none_iff.mp hpdo), pdoMappings]
  | some pdo =>
    obtain ⟨hj, he⟩ := List.getElem?_eq_some_iff.mp hpdo
    rw [script_pdoMapping h hsm hpdo, List.drop_eq_getElem_cons hj, he, pdoMappings, hq, Option.getD_none, buildMapping,
      CoeSeq.script_queued]

theorem script_mappings (h : s.phase = .pdoMapping) (hq : s.seq = none) (hj : s.pdoIdx = 0) :
    s.script = mappings s.mbox s.afterMapping (s.slave.sms.drop s.smIdx) := by
  cases hsm : s.slave.sms[s.smIdx]? with
  | none =>
    rw [script, own, plan, h, List.drop_eq_nil_of_le (List.getElem?_eq_none_iff.mp hsm)]
    rfl
  | some sm =>
    obtain ⟨hi, he⟩ := List.getElem?_eq_some_iff.mp hsm
    rw [script_nextPdo h hq hsm, List.drop_eq_getElem_cons hi, he, mappings, hj, List.drop_zero]

theorem script_pdoAssign {sm : SmCfg} (h : s.phase = .pdoAssign) (hsm : s.slave.sms[s.smIdx]? = some sm) :
    s.script = (s.seq.getD (buildAssign s.mbox sm.index sm.pdos)).script.bind fun _ =>
      assigns s.mbox s.afterAssign (s.slave.sms.drop (s.smIdx + 1)) := by
  obtain ⟨hi, rfl⟩ := List.getElem?_eq_some_iff.mp hsm
  rw [script, own, plan, h, List.drop_eq_getElem_cons hi]
  rfl

theorem script_assigns (h : s.phase = .pdoAssign) (hq : s.seq = none) :
    s.script = assigns s.mbox s.afterAssign (s.slave.sms.drop s.smIdx) := by
  cases hsm : s.slave.sms[s.smIdx]? with
  | none =>
    rw [script, own, plan, h, List.drop_eq_nil_of_le (List.getElem?_eq_none_iff.mp hsm)]
    rfl
  | some sm =>
    obtain ⟨hi, he⟩ := List.getElem?_eq_some_iff.mp hsm
    rw [script_pdoAssign h hsm, List.drop_eq_getElem_cons hi, he, assigns, hq, Option.getD_none, buildAssign,
      CoeSeq.script_queued]

theorem script_dcCycle {cfg : DcCfg} (h : s.phase = .dcCycle) (hdc : s.slave.dc = some cfg) :
    s.script = (s.dc.getD (FsmDc.new s.station cfg s.dcRef)).script.bind fun _ => s.afterDc := by
  rw [script, own, plan, h, hdc]
  rfl

theorem script_nextDc (h : s.phase = .dcCycle) (hd : s.dc = none) : s.script = s.afterFmmus := by
  cases hdc : s.slave.dc with
  | none =>
    rw [script, own, plan, h, hdc, afterFmmus, hdc]
    rfl
  | some cfg =>
    rw [script_dcCycle h hdc, hd, Option.getD_none, FsmDc.script_new, afterFmmus, hdc, dcStage]

theorem script_nextSafeop (h : s.phase = .toSafeop) (hc : s.change = none) : s.script = s.afterDc := by
  rw [script_toSafeop h, hc, Option.getD_none, FsmChange.script_new]
  exact bind_done _

theorem script_nextPreop (h : s.phase = .toPreop) (hc : s.change = none) : s.script = s.afterSm1 := by
  rw [script_toPreop h, hc, Option.getD_none, FsmChange.script_new, afterSm1]

end

theorem plays_mapping {s : FsmSlaveConfig} {k : Link} (hs : s.Tidy) (hp : s.phase = .pdoMapping) :
    Plays s k (s.step k) := by
  have hc := hs.change (by rw [hp]; decide) (by rw [hp]; decide)
  have hd := hs.dc (Or.inl (by rw [hp]; decide))
  rw [step, hp]
  dsimp only
  cases hsm : s.slave.sms[s.smIdx]? with
  | none =>
    have hq := hs.seq (by rw [busy, hp, hsm]; rfl)
    refine silent_plays (script_assigns rfl hq) ?_ (tidy_of_none ⟨hc, hd, hq⟩)
    rw [script, own, plan, hp, List.drop_eq_nil_of_le (List.getElem?_eq_none_iff.mp hsm)]
    rfl
  | some sm =>
    dsimp only
    cases hpdo : sm.pdos[s.pdoIdx]? with
    | none =>
      have hlen := List.getElem?_eq_none_iff.mp hpdo
      have hq := hs.seq (by rw [busy, hp, hsm]; simpa using hlen)
      exact silent_plays (script_mappings rfl hq rfl) (script_mapped hp hsm hpdo) (tidy_of_none ⟨hc, hd, hq⟩)
    | some pdo =>
      have hlen := (List.getElem?_eq_some_iff.mp hpdo).1
      have hb : s.busy = true := by rw [busy, hp, hsm]; simpa using hlen
      have hstay (q : CoeSeq) : ({ s with seq := some q } : FsmSlaveConfig).Tidy :=
        ⟨fun _ _ => hc, fun _ => hd, fun h => absurd (h.symm.trans hb) (by decide)⟩
      refine runSeq_plays (script_pdoMapping hp hsm hpdo) ?_ (fun q => script_pdoMapping hp hsm hpdo) (fun q => ?_) hstay
        (script_nextPdo rfl rfl hsm) (tidy_of_none ⟨hc, hd, rfl⟩)
      · rw [left_seq (Or.inr (Or.inl hp)), buildMapping, CoeSeq.left_getD]
      · exact left_seq (Or.inr (Or.inl hp))

theorem plays_assign {s : FsmSlaveConfig} {k : Link} (hs : s.Tidy) (hp : s.phase = .pdoAssign) :
    Plays s k (s.step k) := by
  have hc := hs.change (by rw [hp]; decide) (by rw [hp]; decide)
  have hd := hs.dc (Or.inl (by rw [hp]; decide))
  rw [step, hp]
  dsimp only
  cases hsm : s.slave.sms[s.smIdx]? with
  | none =>
    have hq := hs.seq (by rw [busy, hp, hsm]; rfl)
    refine silent_plays (script_idle rfl) ?_ (tidy_of_none ⟨hc, hd, hq⟩)
    rw [script, own, plan, hp, List.drop_eq_nil_of_le (List.getElem?_eq_none_iff.mp hsm)]
    rfl
  | some sm =>
    have hb : s.busy = true := by rw [busy, hp, hsm]; rfl
    have hstay (q : CoeSeq) : ({ s with seq := some q } : FsmSlaveConfig).Tidy :=
      ⟨fun _ _ => hc, fun _ => hd, fun h => absurd (h.symm.trans hb) (by decide)⟩
    refine runSeq_plays (script_pdoAssign hp hsm) ?_ (fun q => script_pdoAssign hp hsm) (fun q => ?_) hstay
      (script_assigns rfl rfl) (tidy_of_none ⟨hc, hd, rfl⟩)
    · rw [left_seq (Or.inr (Or.inr hp)), buildAssign, CoeSeq.left_getD]
    · exact left_seq (Or.inr (Or.inr hp))

theorem plays_own {s : FsmSlaveConfig} {k : Link} (hs : s.Tidy) (ho : s.own = true) : Plays s k (s.step k) := by
  have hn := hs.none_of_own ho
  rw [step]
  rcases hp : s.phase
  case clearFmmus => exact fpwr_plays (p := s.afterClear) hs ho (by rw [plan, hp]) rfl (tidy_of_none hn)
  case dcClear => exact fpwr_plays (p := s.afterDcClear) hs ho (by rw [plan, hp, afterClear]) rfl (tidy_of_none hn)
  case mboxSm0 => exact fpwr_plays (p := s.afterSm0) hs ho (by rw [plan, hp, afterDcClear]) rfl (tidy_of_none hn)
  case mboxSm1 =>
    refine fpwr_plays (p := s.afterSm1) hs ho (by rw [plan, hp, afterSm0]) ?_ (tidy_of_none hn)
    exact (script_idle rfl).symm.trans (script_nextPreop rfl hn.1)
  case pdSm =>
    dsimp only
    cases hsm : s.slave.sms[s.smIdx]? with
    | none =>
      refine silent_plays (script_idle rfl) ?_ (tidy_of_none hn)
      rw [script, if_pos ho, plan, hp, List.drop_eq_nil_of_le (List.getElem?_eq_none_iff.mp hsm)]
      rfl
    | some sm =>
      obtain ⟨hi, rfl⟩ := List.getElem?_eq_some_iff.mp hsm
      refine fpwr_plays (p := smPages s.station s.afterPages (s.slave.sms.drop (s.smIdx + 1))) hs ho ?_ rfl
        (tidy_of_none hn)
      rw [plan, hp, List.drop_eq_getElem_cons hi, smPages]
  case watchdogDiv => exact fpwr_plays (p := s.afterDiv) hs ho (by rw [plan, hp, afterPages]) rfl (tidy_of_none hn)
  case watchdogTime => exact fpwr_plays (p := s.afterTime) hs ho (by rw [plan, hp, afterDiv]) rfl (tidy_of_none hn)
  case fmmu =>
    dsimp only
    cases hf : s.slave.fmmus[s.fmmuIdx]? with
    | none =>
      refine silent_plays (script_nextDc rfl hn.2.1) ?_ (tidy_of_none hn)
      rw [script, if_pos ho, plan, hp, List.drop_eq_nil_of_le (List.getElem?_eq_none_iff.mp hf)]
      rfl
    | some f =>
      obtain ⟨hi, rfl⟩ := List.getElem?_eq_some_iff.mp hf
      refine fpwr_plays (p := fmmuPages s.station s.afterFmmus (s.fmmuIdx + 1) (s.slave.fmmus.drop (s.fmmuIdx + 1))) hs ho
        ?_ rfl (tidy_of_none hn)
      rw [plan, hp, List.drop_eq_getElem_cons hi, fmmuPages]
  all_goals
    rw [own, hp] at ho
    exact absurd ho (by decide)

theorem plays_toPreop {s : FsmSlaveConfig} {k : Link} (hs : s.Tidy) (hp : s.phase = .toPreop) :
    Plays s k (s.step k) := by
  have hd := hs.dc (Or.inl (by rw [hp]; decide))
  have hq := hs.seq (by rw [busy, hp])
  rw [step, hp]
  refine runChange_plays (p := s.afterPreop) (fun c => script_toPreop hp) (fun c => left_change (Or.inl hp)) (fun c => ?_) ?_ fun _ => ?_
  · exact ⟨fun h => absurd hp h, fun _ => hd, fun _ => hq⟩
  · change FsmSlaveConfig.script
      { ({ s with seq := some (buildInit s.mbox s.slave.sdoInit) }.goto .sdoInit) with change := none } = _
    rw [script_sdoInit rfl rfl, buildInit, CoeSeq.script_queued]
    rfl
  · exact ⟨fun _ _ => rfl, fun _ => hd, fun h => absurd h (by simp [busy, goto])⟩

theorem plays_sdoInit {s : FsmSlaveConfig} {k : Link} (hs : s.Tidy) (hp : s.phase = .sdoInit) :
    Plays s k (s.step k) := by
  have hc := hs.change (by rw [hp]; decide) (by rw [hp]; decide)
  have hd := hs.dc (Or.inl (by rw [hp]; decide))
  rw [step, hp]
  dsimp only
  cases hq : s.seq with
  | none =>
    refine silent_plays (script_mappings rfl rfl rfl) ?_ (tidy_of_none ⟨hc, hd, rfl⟩)
    rw [script, own, plan, hp, hq]
    rfl
  | some seq =>
    have hl (q : CoeSeq) : ({ s with seq := some q } : FsmSlaveConfig).left = q.left := left_seq (Or.inl hp)
    have hstay (q : CoeSeq) : ({ s with seq := some q } : FsmSlaveConfig).Tidy :=
      ⟨fun _ _ => hc, fun _ => hd, fun h => absurd h (by simp [busy, hp])⟩
    refine runSeq_plays (script_sdoInit hp hq) ?_ (fun q => script_sdoInit hp rfl) hl hstay
      (script_mappings rfl rfl rfl) (tidy_of_none ⟨hc, hd, rfl⟩)
    rw [left_seq (Or.inl hp), hq]
    rfl

theorem plays_dcCycle {s : FsmSlaveConfig} {k : Link} (hs : s.Tidy) (hp : s.phase = .dcCycle) :
    Plays s k (s.step k) := by
  have hc := hs.change (by rw [hp]; decide) (by rw [hp]; decide)
  have hq := hs.seq (by rw [busy, hp])
  rw [step, hp]
  dsimp only
  cases hdc : s.slave.dc with
  | none =>
    have hscript : s.script = .skip s.afterDc := by
      rw [script, own, plan, hp, hdc]
      rfl
    exact silent_plays (script_nextSafeop rfl hc) hscript (tidy_of_none ⟨hc, hs.dc (Or.inr hdc), hq⟩)
  | some cfg =>
    have hl (t : FsmSlaveConfig) (h : t.phase = .dcCycle) : t.left = t.dc.elim Exchange.fresh FsmDc.left := by
      rw [left, own, h]
      rfl
    have hscript (d : FsmDc) : ({ s with phase := .dcCycle, dc := some d } : FsmSlaveConfig).script =
        d.script.bind fun _ => s.afterDc :=
      script_dcCycle rfl hdc
    have hnext : ({ s with dc := none }.goto .toSafeop).script = s.afterDc := script_nextSafeop rfl hc
    refine ⟨?_, fun s' h => ?_⟩
    · rw [script_dcCycle hp hdc, hl s hp, ← FsmDc.left_getD _ s.station cfg s.dcRef]
      refine FsmDc.fsm.nested_turns trivial (fun e => rfl) (fun d => ?_) (fun d => ⟨?_, pos_le _⟩)
      · exact Prod.ext (hscript d) (hl { s with phase := .dcCycle, dc := some d } rfl)
      · exact hnext
    · rcases FsmDc.fsm.nested_ok trivial h with ⟨d, -, hd⟩ | ⟨d, hd⟩
      · obtain rfl := (Prod.mk.inj hd).2
        refine ⟨fun _ _ => hc, fun h => ?_, fun _ => hq⟩
        rcases h with h | h
        · exact absurd rfl h
        · exact absurd (hdc.symm.trans h) (by simp)
      · obtain rfl := (Prod.mk.inj (Except.ok.inj hd)).2
        exact tidy_of_none ⟨hc, rfl, hq⟩

theorem plays_step (s : FsmSlaveConfig) (k : Link) (hs : s.Tidy) : Plays s k (s.step k) := by
  by_cases ho : s.own = true
  · exact plays_own hs ho
  rcases hp : s.phase
  case toPreop => exact plays_toPreop hs hp
  case sdoInit => exact plays_sdoInit hs hp
  case pdoMapping => exact plays_mapping hs hp
  case pdoAssign => exact plays_assign hs hp
  case dcCycle => exact plays_dcCycle hs hp
  case toSafeop =>
    have hd := hs.dc (Or.inl (by rw [hp]; decide))
    have hq := hs.seq (by rw [busy, hp])
    rw [step, hp]
    refine runChange_plays (p := .done ()) (fun c => script_toSafeop hp) (fun c => left_change (Or.inr hp)) (fun c => ?_)
      rfl fun h => absurd h (by simp)
    exact ⟨fun _ h => absurd hp h, fun _ => hd, fun _ => hq⟩
  case done =>
    have hscript : s.script = .skip (.done ()) := by rw [script, own, plan, hp]; rfl
    rw [step, hp]
    refine ⟨?_, fun s' h => absurd h (by simp)⟩
    rw [hscript]
    exact Turns.skip _ _ _ _
  all_goals
    rw [own, hp] at ho
    exact absurd rfl ho

def fsm : Fsm FsmSlaveConfig Unit := ⟨step, script, left, fun _ => (), Tidy, left_le, plays_step⟩

end FsmSlaveConfig

end EcMaster

import EcMaster.LastScan
import EcMaster.Tracking

namespace EcMaster

open Library.Dialogue Library.Dialogue.Script Library.Segment

namespace Master

variable {B : Bus}

theorem drive_op (m : Master B) (op : Op) (k : Link) : (m.drive op k).2.1.op = m.op := by
  cases op with
  | rescan fsm =>
    rw [drive]
    rcases ScanFsm.rescanStep (fsm, m.slaves) k with ⟨_ | ⟨_ | _, fsm', slaves⟩, k'⟩
    · rfl
    · rfl
    · rfl
  | _ => exact (m.drive_same (fun _ h => by cases h) k).2.1

section

variable {r : Driven B}

theorem settle_log : (settle r).2.1.log = r.2.2.log := by
  obtain ⟨_ | _ | _, m, k⟩ := r
  · rfl
  · rfl
  · rfl

theorem settle_slaves : (settle r).2.1.slaves = r.2.1.slaves := by
  obtain ⟨_ | _ | _, m, k⟩ := r
  · rfl
  · rfl
  · rfl

theorem settle_op (h : r.2.1.op = none) {op : Op} (hop : (settle r).2.1.op = some op) : r.1 = .ok (.inr op) := by
  obtain ⟨_ | _ | op', m, k⟩ := r
  · exact absurd (h.symm.trans hop) (by simp)
  · exact absurd (h.symm.trans hop) (by simp)
  · obtain rfl := Option.some.inj hop
    rfl

end

theorem prepare_traced {m : Master B} {request : Request} {op : Op} (h : m.prepare request = .ok op)
    (hr : request ≠ .rescan) (log : Exchanged) : op.Traced B m.slaves log := by
  have hpre (station : UInt16) (mbox : Mailbox) (target : UInt8) (configure : Bool) :
      (PreOp.new station mbox target configure).Traced log := by
    refine ⟨mbox, configure, ?_⟩
    rw [PreOp.script_new]
    exact .start _ log
  cases request with
  | rescan => exact absurd rfl hr
  | setState slave target =>
    rw [prepare] at h
    cases hs : m.slaves[slave.toNat]? with
    | none =>
      rw [hs] at h
      cases h
    | some s =>
      rw [hs] at h
      cases h
      exact hpre _ _ _ _
  | sdoUpload slave index subindex =>
    rw [prepare] at h
    repeat' split at h
    all_goals cases h
    exact hpre _ _ _ _
  | sdoDownload slave index subindex data =>
    rw [prepare] at h
    repeat' split at h
    all_goals cases h
    exact hpre _ _ _ _
  | startCyclic cycleNs =>
    rw [prepare] at h
    split at h
    · cases h
    · cases h
      exact ⟨fun fsm hf => absurd hf (by simp [ConfigSeq.new]), .start _ log⟩
  | stopCyclic =>
    cases h
    exact fun change hc => absurd hc (by simp [DownSeq.new])

/-- The master, and the length of its log when the last rescan was begun. -/
structure Topology (B : Bus) where
  m : Master B
  since : ℕ

namespace Topology

def new (B : Bus) : Topology B := ⟨.new B, 0⟩

def step (t : Topology B) : Event B.layout → Topology B
  | .request request => ⟨(t.m.begin request).2, if request = .rescan then t.m.log.length else t.since⟩
  | .poll dev => { t with m := (t.m.pollOp dev).2.1 }
  | .tick e => { t with m := t.m.tick e }

def run (t : Topology B) (es : List (Event B.layout)) : Topology B := es.foldl step t

def session (t : Topology B) : Exchanged := t.m.log.drop t.since

structure Inv (t : Topology B) : Prop where
  since : t.since ≤ t.m.log.length
  known : Known t.m.slaves t.session
  traced : ∀ op, t.m.op = some op → op.Traced B t.m.slaves t.session

theorem inv_new : (new B).Inv :=
  ⟨le_rfl, known_nil _, fun op hop => absurd hop (by simp [new, Master.new])⟩

theorem inv_tick {t : Topology B} (h : t.Inv) (e : PitTick B.layout) : (t.step (.tick e)).Inv := by
  have hs := t.m.tick_same e
  have hsession : (t.step (.tick e)).session = t.session := congrArg (List.drop t.since) hs.log
  refine ⟨?_, ?_, fun op hop => ?_⟩
  · change t.since ≤ (t.m.tick e).log.length
    rw [hs.log]
    exact h.since
  · rw [hsession]
    change Known (t.m.tick e).slaves _
    rw [hs.slaves]
    exact h.known
  · rw [hsession]
    change op.Traced B (t.m.tick e).slaves _
    rw [hs.slaves]
    exact h.traced op (hs.op ▸ hop)

theorem inv_request {t : Topology B} (h : t.Inv) (request : Request) : (t.step (.request request)).Inv := by
  by_cases hr : request = .rescan
  · subst hr
    have hsession : (t.step (.request .rescan)).session = [] := List.drop_length
    refine ⟨le_rfl, known_nil _, fun op hop => ?_⟩
    obtain rfl := Option.some.inj hop
    rw [hsession]
    exact ⟨rfl, ScanFsm.progress_new⟩
  · have hstep : t.step (.request request) = ⟨(t.m.begin request).2, t.since⟩ := by rw [step, if_neg hr]
    rw [hstep]
    cases hp : t.m.prepare request with
    | error e =>
      have hb : (t.m.begin request).2 = t.m := by rw [begin, hp]
      rw [hb]
      exact h
    | ok op =>
      have hb : (t.m.begin request).2 = { t.m with op := some op } := by
        rw [begin, hp]
        dsimp only
        rw [if_neg hr]
      rw [hb]
      refine ⟨h.since, h.known, fun op' hop => ?_⟩
      obtain rfl := Option.some.inj hop
      exact prepare_traced hp hr _

theorem inv_poll {t : Topology B} (h : t.Inv) {dev : Device} (hl : ∀ x ∈ (t.step (.poll dev)).m.log, KeepsLength x) :
    (t.step (.poll dev)).Inv := by
  obtain ⟨m, since⟩ := t
  change Inv ⟨(m.pollOp dev).2.1, since⟩
  change ∀ x ∈ (m.pollOp dev).2.1.log, KeepsLength x at hl
  cases hop : m.op with
  | none =>
    rw [pollOp, hop]
    exact h
  | some op =>
    have hbase : m.log = m.log.take since ++ m.log.drop since := (List.take_append_drop since m.log).symm
    have hnone := drive_op { m with op := none } op ⟨dev, m.index, m.log⟩
    rw [pollOp, hop] at hl ⊢
    dsimp only at hl ⊢
    rw [settle_log] at hl
    obtain ⟨lines, hlog, hknown, htraced⟩ :=
      drive_known { m with op := none } (k := ⟨dev, m.index, m.log⟩) h.known (h.traced op hop) hbase hl
    generalize drive { m with op := none } op ⟨dev, m.index, m.log⟩ = r at hnone hlog hknown htraced ⊢
    have hsession : session ⟨(settle r).2.1, since⟩ = m.log.drop since ++ lines := by
      rw [session, settle_log, hlog]
      exact List.drop_append_of_le_length h.since
    refine ⟨?_, ?_, fun op' hop' => ?_⟩
    · rw [settle_log, hlog, List.length_append]
      exact h.since.trans (Nat.le_add_right _ _)
    · rw [hsession, settle_slaves]
      exact hknown
    · rw [hsession, settle_slaves]
      exact htraced op' (settle_op hnone hop')

theorem inv_step {t : Topology B} (h : t.Inv) {e : Event B.layout} (hl : ∀ x ∈ (t.step e).m.log, KeepsLength x) :
    (t.step e).Inv := by
  cases e with
  | request request => exact inv_request h request
  | poll dev => exact inv_poll h hl
  | tick e => exact inv_tick h e

theorem active_step {t : Topology B} (h : ∀ op, t.m.op = some op → op.Good) (e : Event B.layout) :
    ∀ op, (t.step e).m.op = some op → op.Good := by
  intro op hop
  cases e with
  | request request =>
    change (t.m.begin request).2.op = some op at hop
    rcases hb : t.m.begin request with ⟨e | _, m'⟩
    · rw [begin] at hb
      cases hp : t.m.prepare request with
      | error e =>
        rw [hp] at hb
        obtain ⟨-, rfl⟩ := Prod.mk.inj hb
        rw [begin, hp] at hop
        exact h op hop
      | ok op' =>
        rw [hp] at hb
        cases hb
    · obtain ⟨op', hop', hgood⟩ := begin_active hb
      rw [hb] at hop
      obtain rfl := Option.some.inj (hop'.symm.trans hop)
      exact hgood
  | poll dev =>
    change (t.m.pollOp dev).2.1.op = some op at hop
    cases hactive : t.m.op with
    | none =>
      rw [pollOp, hactive] at hop
      exact absurd (hactive.symm.trans hop) (by simp)
    | some op' =>
      rw [pollOp, hactive] at hop
      exact drive_good _ (h op' hactive) _ (settle_op (drive_op _ _ _) hop)
  | tick e => exact h op ((t.m.tick_same e).op ▸ hop)

theorem log_step {t : Topology B} (h : ∀ op, t.m.op = some op → op.Good) (e : Event B.layout) :
    t.m.log <+: (t.step e).m.log := by
  cases e with
  | request request =>
    change t.m.log <+: (t.m.begin request).2.log
    rw [begin]
    cases t.m.prepare request with
    | error e => exact List.prefix_rfl
    | ok op => exact List.prefix_rfl
  | poll dev => exact Scanned.log_pollOp h dev
  | tick e =>
    change t.m.log <+: (t.m.tick e).log
    rw [(t.m.tick_same e).log]

theorem active_run (es : List (Event B.layout)) : ∀ op, ((new B).run es).m.op = some op → op.Good :=
  Library.Run.run_invariant step (I := fun t => ∀ op, t.m.op = some op → op.Good)
    (fun op hop => absurd hop (by simp [new, Master.new])) (fun _ e h => active_step h e) es

theorem inv_run {es : List (Event B.layout)} (hl : ∀ x ∈ ((new B).run es).m.log, KeepsLength x) : ((new B).run es).Inv := by
  induction es using List.reverseRecOn with
  | nil => exact inv_new
  | append_singleton es e ih =>
    rw [run, List.foldl_append] at hl ⊢
    exact inv_step (ih fun x hx => hl x ((log_step (active_run es) e).subset hx)) hl

end Topology

end Master

/-- The three ways to name a slave agree, and its state is one that it has reported. -/
structure Consistent (slaves : List SlaveInfo) (log : Exchanged) : Prop where
  placed : ∀ i info, slaves[i]? = some info → info.ringPos.toNat = i ∧ info.stationAddr.toNat = i + 1
  byRing : ∀ position, slaveAt slaves position = slaves[position]?
  byStation : ∀ i info state, slaves[i]? = some info →
    updateState slaves info.stationAddr state = slaves.modify i fun s => { s with alState := state &&& alStateMask }
  tracked : ∀ info ∈ slaves, Tracked info log

theorem InOrder.placed {slaves : List SlaveInfo} (h : InOrder slaves) (hl : slaves.length ≤ ecMaxSlaves) {i : ℕ}
    {info : SlaveInfo} (hi : slaves[i]? = some info) : info.ringPos.toNat = i ∧ info.stationAddr.toNat = i + 1 := by
  obtain ⟨hr, hs⟩ := h i info hi
  have hlt : i + 1 < 2 ^ 16 := by
    have hi := (List.getElem?_eq_some_iff.mp hi).1
    rw [ecMaxSlaves] at hl
    omega
  rw [hr, hs]
  exact ⟨UInt16.toNat_ofNat_of_lt' (Nat.lt_of_succ_lt hlt), UInt16.toNat_ofNat_of_lt' hlt⟩

theorem InOrder.slaveAt {slaves : List SlaveInfo} (h : InOrder slaves) (hl : slaves.length ≤ ecMaxSlaves) (position : ℕ) :
    slaveAt slaves position = slaves[position]? := by
  cases hp : slaves[position]? with
  | none =>
    refine List.find?_eq_none.mpr fun s hs => ?_
    obtain ⟨i, hi⟩ := List.mem_iff_getElem?.mp hs
    rw [(h.placed hl hi).1, decide_eq_true_iff]
    rintro rfl
    exact absurd (hp.symm.trans hi) (by simp)
  | some info =>
    obtain ⟨hlt, hinfo⟩ := List.getElem?_eq_some_iff.mp hp
    refine List.find?_eq_some_iff_getElem.mpr ⟨decide_eq_true (h.placed hl hp).1, position, hlt, hinfo, fun j hj => ?_⟩
    rw [(h.placed hl (List.getElem?_eq_getElem (hj.trans hlt))).1, decide_eq_false (Nat.ne_of_lt hj)]
    rfl

theorem Known.consistent {slaves : List SlaveInfo} {log : Exchanged} (h : Known slaves log) : Consistent slaves log := by
  have hplaced {i : ℕ} {info : SlaveInfo} := @InOrder.placed slaves h.inOrder h.within i info
  refine ⟨fun i info hi => hplaced hi, h.inOrder.slaveAt h.within, fun i info state hi => ?_, h.tracked⟩
  refine List.ext_getElem? fun j => ?_
  rw [updateState, List.getElem?_map, List.getElem?_modify]
  refine Option.map_congr fun s hs => ?_
  have hst : s.stationAddr = info.stationAddr ↔ i = j := by
    rw [← UInt16.toNat_inj, (hplaced hs).2, (hplaced hi).2]
    omega
  by_cases hij : i = j
  · rw [if_pos (hst.mpr hij), if_pos hij]
  · rw [if_neg (fun he => hij (hst.mp he)), if_neg hij]

namespace Master

variable {B : Bus}

/-- Whatever is requested and whatever is replied, as long as the replies keep the length of the datagrams that they
answer: the list of slaves is consistent at all times. -/
theorem topology_consistent {es : List (Event B.layout)}
    (hl : ∀ x ∈ ((Topology.new B).run es).m.log, KeepsLength x) :
    Consistent ((Topology.new B).run es).m.slaves ((Topology.new B).run es).session :=
  (Topology.inv_run hl).known.consistent

def repliedPolls (L : Layout) (first : ℕ) (wkc : UInt16) (payloads : List (List UInt8)) : List (Event L) :=
  payloads.zipIdx.flatMap fun p =>
    List.replicate 2 (.poll (Device.receiving [answerFrame .fprd (UInt8.ofNat (first + p.2)) p.1 wkc []]))

def scanToPreop (L : Layout) : List (Event L) :=
  let scanned := [zeros 2, [1, 0], zeros 12] ++ (List.replicate 6 [zeros 4, zeros 10]).flatten
  [.request .rescan] ++ repliedPolls L 0 2 [zeros 2, zeros 2] ++ repliedPolls L 2 1 (scanned ++ scanned) ++
    [.poll (Device.receiving []), .request (.setState 1 alStatePreop)] ++
    repliedPolls L 32 1 [zeros 8, zeros 8, [2, 0], [2, 0]]

theorem topology_consistent_preop :
    Consistent ((Topology.new (.plain [])).run (scanToPreop _)).m.slaves
        ((Topology.new (.plain [])).run (scanToPreop _)).session ∧
      ((Topology.new (.plain [])).run (scanToPreop _)).m.slaves.map SlaveInfo.alState = [alStateInit, alStatePreop] :=
  ⟨topology_consistent (by decide +kernel), by decide +kernel⟩

end Master

end EcMaster

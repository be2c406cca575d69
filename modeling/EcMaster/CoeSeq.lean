import EcMaster.FsmCoe
import EcMaster.SlaveSetup

namespace EcMaster

open Library.Dialogue Library.Dialogue.Script Library.Segment Library.LittleEndian

def maxSeq : ℕ := 36

structure SdoWrite where
  index : UInt16
  subindex : UInt8
  data : List UInt8
  len : ℕ
  deriving DecidableEq

def sdoWrite (index : UInt16) (subindex : UInt8) (data : List UInt8) : SdoWrite :=
  ⟨index, subindex, padded data, min data.length 4⟩

structure CoeSeq where
  mbox : Mailbox
  ops : List SdoWrite
  cur : ℕ
  coe : Option FsmCoe

namespace CoeSeq

def new (mbox : Mailbox) : CoeSeq := ⟨mbox, [], 0, none⟩

def push (s : CoeSeq) (w : SdoWrite) : CoeSeq := { s with ops := pushWithin maxSeq s.ops w }

def start (s : CoeSeq) (op : SdoWrite) : FsmCoe :=
  s.coe.getD (FsmCoe.download s.mbox op.index op.subindex (op.data.take op.len))

def step (s : CoeSeq) (k : Link) : Except EcError (Bool × CoeSeq) × Link :=
  match s.ops[s.cur]? with
  | none => (.ok (true, s), k)
  | some op =>
    nested ((s.start op).step k) (fun coe => (false, { s with coe := some coe })) fun _ =>
      .ok (decide (s.cur + 1 ≥ s.ops.length), { s with coe := none, cur := s.cur + 1 })

end CoeSeq

def pack (e : EcPdoEntryInfo) : UInt32 :=
  (e.index.toUInt32 <<< (16 : UInt32)) ||| (e.subindex.toUInt32 <<< (8 : UInt32)) ||| e.bitLength.toUInt32

def listWrites (obj : UInt16) (items : List (List UInt8)) : List SdoWrite :=
  sdoWrite obj 0 [0] ::
    (items.zipIdx.map fun p => sdoWrite obj (UInt8.ofNat (p.2 + 1)) p.1) ++ [sdoWrite obj 0 [UInt8.ofNat items.length]]

def mappingWrites (pdo : PdoCfg) : List SdoWrite :=
  listWrites pdo.index (pdo.entries.map fun e => leBytes 4 (pack e).toNat)

def buildMapping (mbox : Mailbox) (pdo : PdoCfg) : CoeSeq := (mappingWrites pdo).foldl CoeSeq.push (CoeSeq.new mbox)

def pdoAssign (syncIndex : UInt8) : UInt16 := 0x1C10 + syncIndex.toUInt16

def assignWrites (syncIndex : UInt8) (pdos : List PdoCfg) : List SdoWrite :=
  listWrites (pdoAssign syncIndex) (pdos.map fun pdo => leBytes 2 pdo.index.toNat)

def buildAssign (mbox : Mailbox) (syncIndex : UInt8) (pdos : List PdoCfg) : CoeSeq :=
  (assignWrites syncIndex pdos).foldl CoeSeq.push (CoeSeq.new mbox)

def initWrites (sdos : List SdoInit) : List SdoWrite := sdos.map fun sdo => sdoWrite sdo.index sdo.subindex sdo.data

def buildInit (mbox : Mailbox) (sdos : List SdoInit) : CoeSeq := (initWrites sdos).foldl CoeSeq.push (CoeSeq.new mbox)

def SdoWrite.request (w : SdoWrite) : List UInt8 :=
  sdoRequest .download w.index w.subindex (padded (w.data.take w.len)) (min (w.data.take w.len).length 4)

def downloads (mbox : Mailbox) : List SdoWrite → Procedure Unit
  | [] => .done ()
  | w :: ws => (transfer mbox .download w.request).bind fun _ => downloads mbox ws

def sequence (mbox : Mailbox) (ws : List SdoWrite) : Procedure Unit :=
  if ws = [] then .skip (.done ()) else downloads mbox ws

namespace CoeSeq

def script (s : CoeSeq) : Procedure Unit :=
  match s.ops.drop s.cur with
  | [] => .skip (.done ())
  | op :: ops => (s.start op).script.bind fun _ => downloads s.mbox ops

def left (s : CoeSeq) : ℕ :=
  match s.ops[s.cur]? with
  | none => Exchange.fresh
  | some op => (s.start op).left

abbrev pos : Except EcError (Bool × CoeSeq) → Procedure Unit × ℕ := position script left fun _ => ()

theorem left_le (s : CoeSeq) : s.left ≤ Exchange.fresh := by
  rw [left]
  cases s.ops[s.cur]? with
  | none => exact le_rfl
  | some op => exact (s.start op).x.left_le

theorem drop_cur {s : CoeSeq} {op : SdoWrite} (h : s.ops[s.cur]? = some op) :
    s.ops.drop s.cur = op :: s.ops.drop (s.cur + 1) := by
  obtain ⟨hlt, rfl⟩ := List.getElem?_eq_some_iff.mp h
  exact List.drop_eq_getElem_cons hlt

theorem script_start (s : CoeSeq) (h : s.coe = none) (hne : s.cur < s.ops.length) :
    s.script = downloads s.mbox (s.ops.drop s.cur) := by
  have hstart (op : SdoWrite) : s.start op = FsmCoe.download s.mbox op.index op.subindex (op.data.take op.len) := by
    rw [start, h]
    rfl
  rw [script, List.drop_eq_getElem_cons hne, downloads]
  dsimp only
  rw [hstart]
  rfl

theorem step_turns (s : CoeSeq) (k : Link) : Turns (s.script, s.left) k (pos (s.step k).1) (s.step k).2 := by
  rw [step, left]
  cases hop : s.ops[s.cur]? with
  | none =>
    have hlen := List.getElem?_eq_none_iff.mp hop
    have hscript : s.script = .skip (.done ()) := by rw [script, List.drop_eq_nil_of_le hlen]
    rw [hscript]
    exact Turns.skip _ _ _ _
  | some op =>
    have hdrop := drop_cur hop
    have hscript : s.script = (s.start op).script.bind fun _ => downloads s.mbox (s.ops.drop (s.cur + 1)) := by
      rw [script, hdrop]
    rw [hscript]
    refine FsmCoe.fsm.nested_turns trivial (fun e => rfl) (fun coe => ?_) (fun coe => ?_)
    · refine Prod.ext ?_ ?_
      · change CoeSeq.script { s with coe := some coe } = _
        rw [script]
        dsimp only
        rw [hdrop]
        rfl
      · change CoeSeq.left { s with coe := some coe } = _
        rw [left]
        dsimp only
        rw [hop]
        rfl
    · by_cases hlast : s.cur + 1 ≥ s.ops.length
      · rw [decide_eq_true hlast, List.drop_eq_nil_of_le hlast]
        exact ⟨rfl, le_rfl⟩
      · rw [decide_eq_false hlast]
        exact ⟨script_start { s with coe := none, cur := s.cur + 1 } rfl (by simpa using hlast), left_le _⟩

def fsm : Fsm CoeSeq Unit := .simple step script left (fun _ => ()) left_le step_turns

theorem foldl_push (s : CoeSeq) (ws : List SdoWrite) :
    ws.foldl push s = { s with ops := ws.foldl (pushWithin maxSeq) s.ops } := by
  induction ws generalizing s with
  | nil => rfl
  | cons w ws ih => rw [List.foldl_cons, ih]; rfl

theorem script_queued (mbox : Mailbox) (ws : List SdoWrite) :
    (ws.foldl push (new mbox)).script = sequence mbox (ws.take maxSeq) := by
  rw [foldl_push, foldl_pushWithin _ _ _ (Nat.zero_le _)]
  change CoeSeq.script ⟨mbox, ws.take maxSeq, 0, none⟩ = _
  rw [sequence]
  by_cases hn : ws.take maxSeq = []
  · rw [if_pos hn, hn]
    rfl
  · rw [if_neg hn]
    exact script_start ⟨mbox, ws.take maxSeq, 0, none⟩ rfl (List.length_pos_iff.mpr hn)

end CoeSeq

end EcMaster

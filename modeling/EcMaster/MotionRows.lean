import EcMaster.Capacities

namespace EcMaster

open Library.Packing Library.Segment

structure PlacedOutput where
  cursor : ℕ
  offset : ℕ
  entry : PdoEntry

namespace PlacedOutput

variable (x : PlacedOutput)

def byte : ℕ := x.cursor + x.offset / 8

def length : ℕ := x.entry.bits / 8

def pin : PinCfg := pinAt x.cursor .output (x.offset, x.entry)

def bytes : Set ℕ := Set.Ico x.byte (x.byte + x.length)

end PlacedOutput

def outputEntries (slaves : List BusSlave) : List PlacedOutput :=
  (place BusSlave.outBytes 0 slaves).flatMap fun q => (q.2.outSms.flatMap SyncManager.placed).map fun p => ⟨q.1, p.1, p.2⟩

def streamed (slaves : List BusSlave) : List PlacedOutput := (outputEntries slaves).filter fun x => x.entry.motion

def firstAt (slaves : List BusSlave) (byte : ℕ) : Option PlacedOutput :=
  (outputEntries slaves).find? fun x => x.entry.named ∧ x.byte = byte

theorem getElem?_place {α : Type*} (w : α → ℕ) (off : ℕ) (xs : List α) (i : ℕ) :
    ((place w off xs)[i]?).map Prod.snd = xs[i]? := by
  rw [← List.getElem?_map, map_snd_place]

theorem getElem?_of_findIdx? {α : Type*} {p : α → Bool} {xs : List α} {k : ℕ} (h : xs.findIdx? p = some k) :
    xs[k]? = xs.find? p := by
  induction xs generalizing k with
  | nil => exact absurd h (by simp)
  | cons x xs ih =>
    rw [List.findIdx?_cons] at h
    rw [List.find?_cons]
    cases hx : p x with
    | true =>
      rw [hx, if_pos rfl] at h
      obtain rfl := Option.some.inj h
      rfl
    | false =>
      rw [hx, if_neg (by decide)] at h
      obtain ⟨j, hj, rfl⟩ := Option.map_eq_some_iff.mp h
      exact ih hj

theorem isSome_findIdx? {α : Type*} {p : α → Bool} {xs : List α} {x : α} (h : xs.find? p = some x) :
    ∃ k, xs.findIdx? p = some k := by
  have hx := List.find?_some h
  exact Option.isSome_iff_exists.mp (by
    rw [List.findIdx?_isSome, List.any_eq_true]
    exact ⟨x, List.mem_of_find?_eq_some h, hx⟩)

namespace Resolved.Describes

variable {cfg : Resolved} {slaves : List BusSlave}

theorem outputEntries_eq (h : cfg.Describes slaves) : outputEntries slaves =
    cfg.slaves.flatMap fun r => (r.slave.outSms.flatMap SyncManager.placed).map fun p => ⟨r.outLogical, p.1, p.2⟩ := by
  rw [outputEntries, h.place_outputs, List.flatMap_map]

theorem outputPins_eq (h : cfg.Describes slaves) : cfg.pins.filter PinCfg.isOutput =
    ((outputEntries slaves).filter fun x => x.entry.named).map PlacedOutput.pin := by
  rw [h.pins, h.outputEntries_eq]
  induction cfg.slaves with
  | nil => rfl
  | cons r rs ih =>
    have hout : (pinsOf r.outLogical .output (r.slave.outSms.flatMap SyncManager.placed)).filter PinCfg.isOutput =
        pinsOf r.outLogical .output (r.slave.outSms.flatMap SyncManager.placed) := by
      rw [List.filter_eq_self]
      intro p hp
      exact decide_eq_true (mem_pinsOf_dir hp)
    have hin : (pinsOf r.inLogical .input (r.slave.inSms.flatMap SyncManager.placed)).filter PinCfg.isOutput = [] := by
      rw [List.filter_eq_nil_iff]
      intro p hp ho
      have hd := of_decide_eq_true ho
      rw [mem_pinsOf_dir hp] at hd
      exact absurd hd (by decide)
    rw [List.flatMap_cons, List.flatMap_cons, List.filter_append, List.filter_append, List.map_append, ← ih,
      ResolvedSlave.pins, List.filter_append, hout, hin, List.append_nil, pinsOf, List.filter_map, List.map_map]
    rfl

theorem motionFields_eq (h : cfg.Describes slaves) : cfg.motionFields =
    (place PlacedOutput.length 0 (streamed slaves)).map fun q => ⟨q.1, q.2.byte, q.2.length⟩ := by
  have hfields : cfg.slaves.flatMap ResolvedSlave.fields = (streamed slaves).map fun x => (x.byte, x.length) := by
    rw [streamed, h.outputEntries_eq]
    induction cfg.slaves with
    | nil => rfl
    | cons r rs ih =>
      rw [List.flatMap_cons, List.flatMap_cons, List.filter_append, List.map_append, ← ih, ResolvedSlave.fields, fieldsOf,
        List.filter_map, List.map_map]
      rfl
  rw [h.motionFields, hfields, streamFieldsOf, place_map, List.map_map]
  rfl

theorem findPin (h : cfg.Describes slaves) (byte : ℕ) :
    (cfg.pins.find? fun p => p.dir = .output ∧ p.byteOffset = byte) = (firstAt slaves byte).map PlacedOutput.pin := by
  have hpins := congrArg (List.find? fun p => p.byteOffset = byte) h.outputPins_eq
  rw [List.find?_filter, List.find?_map, List.find?_filter] at hpins
  have hleft : (fun p : PinCfg => decide (p.isOutput = true ∧ decide (p.byteOffset = byte) = true)) =
      fun p => decide (p.dir = .output ∧ p.byteOffset = byte) := by
    funext p
    simp only [PinCfg.isOutput, decide_eq_true_eq]
  have hright : (fun x : PlacedOutput => decide (x.entry.named = true ∧
      ((fun p : PinCfg => decide (p.byteOffset = byte)) ∘ PlacedOutput.pin) x = true)) =
      fun x => decide (x.entry.named = true ∧ x.byte = byte) := by
    funext x
    simp only [Function.comp_apply, decide_eq_true_eq]
    rfl
  rw [hleft, hright] at hpins
  exact hpins

end Resolved.Describes

end EcMaster

import EcMaster.Commissioning
import EcMaster.ScanComplete
import EcMaster.Topology

namespace EcMaster

open Library.Dialogue Library.Dialogue.Script Library.Segment

theorem getElem_infosFrom (i : ℕ) (ring : List RingSlave) (j : ℕ) :
    (infosFrom i ring)[j]? = ring[j]?.map fun s => s.info (UInt16.ofNat (i + j)) := by
  induction ring generalizing i j with
  | nil => rfl
  | cons s ring ih =>
    cases j with
    | zero => rfl
    | succ j =>
      rw [infosFrom, List.getElem?_cons_succ, List.getElem?_cons_succ, ih, Nat.succ_add_eq_add_succ]

theorem infosFrom_inOrder (ring : List RingSlave) : InOrder (infosFrom 0 ring) := by
  intro i info hi
  rw [getElem_infosFrom, Nat.zero_add] at hi
  obtain ⟨s, -, rfl⟩ := Option.map_eq_some_iff.mp hi
  exact ⟨rfl, (UInt16.ofNat_add i 1).symm⟩

theorem slaveAt_infosFrom {ring : List RingSlave} (hl : ring.length ≤ ecMaxSlaves) (position : ℕ) :
    slaveAt (infosFrom 0 ring) position = ring[position]?.map fun s => s.info (UInt16.ofNat position) := by
  rw [(infosFrom_inOrder ring).slaveAt (by rw [length_infosFrom]; exact hl), getElem_infosFrom, Nat.zero_add]

theorem station_of_slaveAt {ring : List RingSlave} (hl : ring.length ≤ ecMaxSlaves) {position : ℕ} {info : SlaveInfo}
    (h : slaveAt (infosFrom 0 ring) position = some info) :
    position < ring.length ∧ info.stationAddr = UInt16.ofNat (position + 1) := by
  rw [slaveAt_infosFrom hl] at h
  obtain ⟨s, hs, rfl⟩ := Option.map_eq_some_iff.mp h
  exact ⟨(List.getElem?_eq_some_iff.mp hs).1, (UInt16.ofNat_add position 1).symm⟩

/-- The slaves of a ring as they are met at the addresses that a scan gives them: each of them is there, and for each
setup, one between two transfers, in a known state and with no objection to the setup. -/
structure Bus.Suits (B : Bus) (ring : List RingSlave) (w : Stations) : Prop where
  there : ∀ i < ring.length, (w (UInt16.ofNat (i + 1))).isSome = true
  apart : B.slaves.Pairwise fun a b => a.position ≠ b.position
  willing : ∀ cfg ∈ B.slaves, ∃ x s, ring[cfg.position]? = some x ∧ w (UInt16.ofNat (cfg.position + 1)) = some s ∧
    s.make.mailbox = (x.info (UInt16.ofNat cfg.position)).mailbox ∧
    s.al &&& alStateMask ∈ [alStateInit, alStatePreop, alStateSafeop, alStateOp] ∧ s.Idle ∧ cfg.Proper ∧
    ∀ mem, cfg.Held s.make.mailbox mem → s.make.accepts mem (storedAll s.server.objects cfg.values) = true

theorem Bus.Suits.ready {B : Bus} {ring : List RingSlave} {w : Stations} (h : B.Suits ring w)
    (hl : ring.length ≤ ecMaxSlaves) : B.Ready (infosFrom 0 ring) w B.slaves := by
  have hsmall : ecMaxSlaves + 1 < 65536 := by decide
  refine ⟨fun cfg hcfg => ?_, h.apart.imp fun {a b} hne i j hi hj he => ?_, fun r hr => ?_⟩
  · obtain ⟨x, s, hx, hs, hmailbox, hstate, hidle, hproper, haccepts⟩ := h.willing cfg hcfg
    have hfound : slaveAt (infosFrom 0 ring) cfg.position = some (x.info (UInt16.ofNat cfg.position)) := by
      rw [slaveAt_infosFrom hl, hx]
      rfl
    refine ⟨_, s, hfound, ?_, hmailbox, hstate, hidle.settled, hidle.free, hproper, ?_⟩
    · rw [(station_of_slaveAt hl hfound).2]
      exact hs
    · rw [← hmailbox]
      exact haccepts
  · obtain ⟨hai, hi⟩ := station_of_slaveAt hl hi
    obtain ⟨hbj, hj⟩ := station_of_slaveAt hl hj
    rw [hi, hj] at he
    have hn := congrArg UInt16.toNat he
    rw [UInt16.toNat_ofNat_of_lt' (show a.position + 1 < 65536 by omega),
      UInt16.toNat_ofNat_of_lt' (show b.position + 1 < 65536 by omega)] at hn
    exact hne (Nat.succ.inj hn)
  · obtain ⟨hlt, hs⟩ := station_of_slaveAt hl hr
    rw [hs]
    exact h.there _ hlt

theorem Bus.Suits.few {B : Bus} {ring : List RingSlave} {w : Stations} (h : B.Suits ring w)
    (hl : ring.length ≤ ecMaxSlaves) : B.slaves.length ≤ ecMaxSlaves := by
  have hnodup : (B.slaves.map fun cfg => cfg.position).Nodup := List.pairwise_map.mpr h.apart
  have hsub : (B.slaves.map fun cfg => cfg.position) ⊆ List.range ecMaxSlaves := by
    intro position hp
    obtain ⟨cfg, hcfg, rfl⟩ := List.mem_map.mp hp
    obtain ⟨x, s, hx, -⟩ := h.willing cfg hcfg
    exact List.mem_range.mpr ((List.getElem?_eq_some_iff.mp hx).1.trans_le hl)
  have hlen := (hnodup.subperm hsub).length_le
  rwa [List.length_map, List.length_range] at hlen

namespace Master

variable {B : Bus} {m m' : Master B}

def Scans (m : Master B) : Prop := ∃ fsm, m.op = some (.rescan fsm) ∧ fsm.completed = none

def scanning (m : Master B) : Procedure (List SlaveInfo) × ℕ :=
  match m.op with
  | some (.rescan fsm) => (ScanFsm.rescanScript (fsm, m.slaves), fsm.left)
  | _ => (.done [], 0)

theorem SameOp.scans (h : SameOp m m') (hs : m.Scans) : m'.Scans ∧ m'.scanning = m.scanning := by
  obtain ⟨fsm, hop, hnone⟩ := hs
  refine ⟨⟨fsm, h.op.trans hop, hnone⟩, ?_⟩
  rw [scanning, scanning, h.op, h.slaves]

end Master

end EcMaster

import EcMaster.Domain
import EcMaster.ImageLayout

namespace EcMaster

namespace BusSlave

def adds (s : BusSlave) : ℕ := (if 0 < smBytes s.outSms then 2 else 0) + if 0 < smBytes s.inSms then 1 else 0

def unmapped (s : BusSlave) : ℕ := (if smBytes s.outSms = 0 then 2 else 0) + if smBytes s.inSms = 0 then 1 else 0

theorem adds_add_unmapped (s : BusSlave) : s.adds + s.unmapped = 3 := by
  unfold adds unmapped
  split_ifs <;> omega

end BusSlave

def respondingWkc (slaves : List BusSlave) : UInt16 := UInt16.ofNat (slaves.map BusSlave.adds).sum

theorem sum_adds (slaves : List BusSlave) :
    (slaves.map BusSlave.adds).sum + (slaves.map BusSlave.unmapped).sum = 3 * slaves.length := by
  induction slaves with
  | nil => rfl
  | cons s slaves ih =>
    have hs := s.adds_add_unmapped
    rw [List.map_cons, List.map_cons, List.sum_cons, List.sum_cons, List.length_cons]
    omega

namespace EcDomain

variable {bus : BusCfg}

def after (d : EcDomain bus) (replies : List Reply) : EcDomain bus :=
  replies.foldl (fun d reply => (d.applyReply reply).2) d

theorem after_expectedWkc (d : EcDomain bus) (replies : List Reply) : (d.after replies).expectedWkc = d.expectedWkc := by
  induction replies generalizing d with
  | nil => rfl
  | cons reply replies ih => exact ih (d.applyReply reply).2

theorem applyReply_complete (d : EcDomain bus) (reply : Reply) :
    (d.applyReply reply).1 = .complete ↔ reply.workingCounter ≠ 0 ∧ reply.workingCounter = d.expectedWkc := by
  unfold applyReply
  constructor
  · intro h
    dsimp only at h
    split_ifs at h with hz he
    exact ⟨hz, he⟩
  · intro ⟨hz, he⟩
    dsimp only
    rw [if_neg hz, if_pos he]

theorem foldl_fmmuWkc (fs : List FmmuCfg) (wkc : UInt16) :
    fs.foldl (fun wkc f => wkc + fmmuWkc f) wkc = wkc + UInt16.ofNat (fs.map fun f => (fmmuWkc f).toNat).sum := by
  induction fs generalizing wkc with
  | nil => exact (UInt16.add_zero wkc).symm
  | cons f fs ih =>
    rw [List.foldl_cons, ih, List.map_cons, List.sum_cons, UInt16.ofNat_add, UInt16.ofNat_toNat, UInt16.add_assoc]

theorem fmmus_render (cfg : Resolved) :
    ((fmmus cfg.render.bus).map fun f => (fmmuWkc f).toNat).sum = 3 * cfg.slaves.length := by
  have hfmmus : fmmus cfg.render.bus = cfg.slaves.flatMap ResolvedSlave.fmmus := List.flatMap_map _ _ _
  rw [hfmmus]
  induction cfg.slaves with
  | nil => rfl
  | cons r rs ih =>
    rw [List.flatMap_cons, List.map_append, List.sum_append, ih, List.length_cons]
    change 3 + 3 * rs.length = _
    omega

theorem fromConfig_expectedWkc {cfg : Resolved} {slaves : List BusSlave} (h : cfg.Describes slaves) :
    (fromConfig cfg.render.bus).expectedWkc = UInt16.ofNat (3 * slaves.length) := by
  have hlen : slaves.length = cfg.slaves.length := by rw [← h.slaves, List.length_map]
  rw [hlen, ← fmmus_render cfg]
  exact (foldl_fmmuWkc _ 0).trans (UInt16.zero_add _)

end EcDomain

theorem ofNat_eq_ofNat_iff (a b : ℕ) : UInt16.ofNat (a + b) = UInt16.ofNat a ↔ 65536 ∣ b := by
  rw [← UInt16.toNat_inj, UInt16.toNat_ofNat', UInt16.toNat_ofNat']
  omega

/-- The expected counter is that of a bus in which all respond, as long as the slaves that map nothing in a direction
add up to a multiple of the counter's range. -/
theorem expected_wkc_iff {refClock : ℕ} {slaves : List BusSlave} {esi : Esi} {cfg : Resolved}
    (h : resolve refClock slaves esi = .ok cfg) (replies : List Reply) :
    ((EcDomain.fromConfig cfg.render.bus).expectedWkc = respondingWkc slaves ∧
      ∀ reply, (((EcDomain.fromConfig cfg.render.bus).after replies).applyReply reply).1 = .complete ↔
        reply.workingCounter = respondingWkc slaves) ↔
      65536 ∣ (slaves.map BusSlave.unmapped).sum ∧ ¬ 65536 ∣ slaves.length := by
  have hexp := EcDomain.fromConfig_expectedWkc (resolve_describes h)
  have hsum := sum_adds slaves
  have heq : (EcDomain.fromConfig cfg.render.bus).expectedWkc = respondingWkc slaves ↔
      65536 ∣ (slaves.map BusSlave.unmapped).sum := by
    rw [hexp, ← hsum]
    exact ofNat_eq_ofNat_iff _ _
  have hzero : (EcDomain.fromConfig cfg.render.bus).expectedWkc = 0 ↔ 65536 ∣ slaves.length := by
    rw [hexp, ← UInt16.toNat_inj, UInt16.toNat_ofNat']
    change _ = 0 ↔ _
    omega
  have hafter := EcDomain.after_expectedWkc (EcDomain.fromConfig cfg.render.bus) replies
  rw [heq]
  apply and_congr_right
  intro hdvd
  have hall := heq.mpr hdvd
  rw [← hzero, hall]
  constructor
  · intro hc h0
    have hcomplete := (hc ⟨0, 0, 0, []⟩).mpr h0.symm
    exact ((EcDomain.applyReply_complete _ _).mp hcomplete).1 rfl
  · intro h0 reply
    rw [EcDomain.applyReply_complete, hafter, hall]
    exact ⟨fun hc => hc.2, fun hc => ⟨fun hz => h0 (hc.symm.trans hz), hc⟩⟩

theorem expected_wkc_axis : ∃ cfg, resolve 0 [axis] fourSms = .ok cfg ∧
    (EcDomain.fromConfig cfg.render.bus).expectedWkc = respondingWkc [axis] := by
  obtain ⟨cfg, h⟩ : ∃ cfg, resolve 0 [axis] fourSms = .ok cfg := ⟨_, rfl⟩
  exact ⟨cfg, h, ((expected_wkc_iff h []).mpr ⟨by decide, by decide⟩).1⟩

def digitalInputs : BusSlave :=
  ⟨0, 1, [], [⟨3, [⟨0x1A00, [⟨0x6000, 1, 8, .u32, "inputs".toList, false⟩]⟩]⟩], 0⟩

theorem input_only_incomplete : ∃ cfg, resolve 0 [digitalInputs] fourSms = .ok cfg ∧
    respondingWkc [digitalInputs] = 1 ∧ (EcDomain.fromConfig cfg.render.bus).expectedWkc = 3 ∧
    ∀ reply, reply.workingCounter = 1 → ((EcDomain.fromConfig cfg.render.bus).applyReply reply).1 = .incomplete := by
  refine ⟨_, rfl, by decide, by decide, ?_⟩
  intro reply hwkc
  simp only [EcDomain.applyReply, hwkc]
  rfl

end EcMaster

import EcMaster.History
import EcMaster.Receive

namespace EcMaster

open Library.Run Library.Segment Library.LittleEndian

theorem SameWiring.trans {a b c : List Binding} (h : SameWiring a b) (h' : SameWiring b c) : SameWiring a c :=
  Eq.trans h h'

theorem SameWiring.mem {ds ds' : List Binding} (h : SameWiring ds ds') {d : Binding} (hd : d ∈ ds') :
    ∃ e ∈ ds, e.cw = d.cw ∧ e.sw = d.sw := by
  have hp : (d.cw, d.sw) ∈ ds.map (fun d => (d.cw, d.sw)) := by
    rw [h]
    exact List.mem_map_of_mem hd
  obtain ⟨e, he, hes⟩ := List.mem_map.mp hp
  exact ⟨e, he, congrArg Prod.fst hes, congrArg Prod.snd hes⟩

theorem SameWiring.symm {ds ds' : List Binding} (h : SameWiring ds ds') : SameWiring ds' ds := Eq.symm h

def discovered (L : Layout) : List Binding := (Cia402.new L.bus).drives

theorem mem_discovered {L : Layout} {d : Binding} (hd : d ∈ discovered L) :
    d.cw ∈ L.bus.pins ∧ d.cw.dir = .output ∧ d.sw ∈ L.bus.pins ∧ d.sw.dir = .input := by
  rw [discovered, Cia402.drives_new] at hd
  obtain ⟨p, hp, hb⟩ := List.mem_filterMap.mp (List.mem_of_mem_take hd)
  obtain ⟨rfl, ho, hs, hi⟩ := Cia402.bind_eq_some hb
  exact ⟨hp, ho, hs, hi⟩

theorem wired_discovered {L : Layout} (hL : L.Sound) (ha : ∀ d ∈ discovered L, d.cw.ByteAligned) :
    Wired L.outBytes (discovered L) := by
  refine ⟨?_, ?_, ?_⟩
  · intro d hd
    obtain ⟨hp, ho, -, -⟩ := mem_discovered hd
    exact hL.width_below hp ho
  · intro d hd
    obtain ⟨-, -, hs, hi⟩ := mem_discovered hd
    exact hL.input_offset hs hi
  · have hpins : (L.bus.pins.filterMap (Cia402.bind L.bus)).Pairwise fun d e => d.cw.Apart e.cw := by
      rw [List.pairwise_filterMap]
      apply hL.pins_apart.imp
      intro p q hpq d hd e he
      rw [(Cia402.bind_eq_some hd).1, (Cia402.bind_eq_some he).1]
      exact hpq
    have hdisc : (discovered L).Pairwise fun d e => d.cw.Apart e.cw := by
      rw [discovered, Cia402.drives_new]
      exact hpins.sublist (List.take_sublist _ _)
    apply hdisc.imp_of_mem
    intro d e hd he hde
    rw [PinCfg.width_of_aligned (ha d hd), PinCfg.width_of_aligned (ha e he)]
    exact hde.bytes (ha d hd) (ha e he)

theorem oneDrive_aligned (n : ℕ) : ∀ d ∈ discovered (oneDrive n), d.cw.ByteAligned := by
  change ∀ d ∈ discovered (oneDrive 0), d.cw.ByteAligned
  decide +kernel

namespace Cyclic

variable {L : Layout}

theorem sameWiring_tick (c : Cyclic L) (dev : Device) (index : UInt8) (latency : UInt32) (host : HostBridge L) :
    SameWiring c.cia402.drives (c.tickWithHost dev index latency host).cyclic.cia402.drives := by
  have hk := (c.tickWithHost_keeps dev index latency host).cia402
  rw [hk, control_drives, received_drives]
  split_ifs
  · exact sameWiring_stepDrives _ _ _
  · rfl

end Cyclic

namespace Firmware

variable {L : Layout}

theorem sameWiring_run (es : List Event) :
    ∀ c, (run step (init L) es).cyclic = some c → SameWiring (discovered L) c.cia402.drives := by
  apply run_invariant step (I := fun s : Firmware L => ∀ c, s.cyclic = some c → SameWiring (discovered L) c.cia402.drives)
  · intro c hc
    exact absurd hc (by simp [init])
  · intro s e h c hc
    rcases step_cyclic s e with hs | hs | ⟨slaves, cycleNs, -, hs⟩ | ⟨dev, latency, c', -, hc', hs⟩
    · exact h c (hs ▸ hc)
    · rw [hs] at hc
      exact absurd hc (by simp)
    · rw [hs] at hc
      obtain rfl := Option.some.inj hc
      rfl
    · rw [hs] at hc
      obtain rfl := Option.some.inj hc
      exact (h c' hc').trans (c'.sameWiring_tick dev s.index latency s.host)

end Firmware

end EcMaster

import EcMaster.Firmware

namespace EcMaster

open Library.Run Library.Segment Library.LittleEndian

def acceptedFrame (L : Layout) : Event → Option (List UInt8)
  | .frame mosi => if Accepted L mosi then some mosi else none
  | _ => none

def lastAccepted (L : Layout) (es : List Event) : Option (List UInt8) :=
  es.foldl (fun latest e => (acceptedFrame L e).or latest) none

theorem lastAccepted_concat (L : Layout) (es : List Event) (e : Event) :
    lastAccepted L (es ++ [e]) = (acceptedFrame L e).or (lastAccepted L es) := by
  rw [lastAccepted, List.foldl_append]
  rfl

theorem accepted_of_lastAccepted {L : Layout} {es : List Event} {mosi : List UInt8}
    (h : lastAccepted L es = some mosi) : Accepted L mosi ∧ .frame mosi ∈ es := by
  induction es using List.reverseRecOn with
  | nil => exact absurd h (by simp [lastAccepted])
  | append_singleton es e ih =>
    rw [lastAccepted_concat] at h
    rcases Option.or_eq_some_iff.mp h with he | ⟨-, hl⟩
    · cases e with
      | frame m =>
        simp only [acceptedFrame] at he
        split_ifs at he with ha
        obtain rfl := Option.some.inj he
        exact ⟨ha, by simp⟩
      | tick | start | stop => exact absurd he (by simp [acceptedFrame])
    · obtain ⟨ha, hm⟩ := ih hl
      exact ⟨ha, List.mem_append_left _ hm⟩

theorem lastAccepted_isSome {L : Layout} {es : List Event} :
    (lastAccepted L es).isSome ↔ ∃ mosi, .frame mosi ∈ es ∧ Accepted L mosi := by
  constructor
  · intro h
    obtain ⟨mosi, hm⟩ := Option.isSome_iff_exists.mp h
    obtain ⟨ha, he⟩ := accepted_of_lastAccepted hm
    exact ⟨mosi, he, ha⟩
  · rintro ⟨mosi, he, ha⟩
    induction es using List.reverseRecOn with
    | nil => exact absurd he List.not_mem_nil
    | append_singleton es e ih =>
      rw [lastAccepted_concat, Option.isSome_or]
      rcases List.mem_append.mp he with hm | hm
      · rw [ih hm, Bool.or_true]
      · obtain rfl := List.mem_singleton.mp hm
        simp [acceptedFrame, ha]

def heartbeat : Option (List UInt8) → UInt16
  | none => 0
  | some mosi => u16Le (slice mosi 6 2)

structure Reflects {L : Layout} (latest : Option (List UInt8)) (host : HostBridge L) : Prop where
  outValid : host.outValid = latest.isSome
  stagedOut : ∀ mosi ∈ latest, host.stagedOut = slice mosi mosiHdr L.outBytes
  flags : host.flags = latest.elim 0 fun mosi => mosi.getD 3 0
  hostSeq : host.hostSeq = latest.elim 0 fun mosi => u16Le (slice mosi 4 2)
  hostWdog : host.hostWdog = heartbeat latest

namespace Firmware

variable {L : Layout}

theorem reflects_ingest {latest : Option (List UInt8)} {host : HostBridge L} (h : Reflects latest host)
    (mosi : List UInt8) : Reflects ((acceptedFrame L (.frame mosi)).or latest) (host.ingest mosi) := by
  by_cases ha : Accepted L mosi
  · have hi := HostBridge.ingest_accepted ha host
    rw [acceptedFrame, if_pos ha]
    refine ⟨hi.outValid, ?_, hi.flags, hi.hostSeq, hi.hostWdog⟩
    intro m hm
    obtain rfl := Option.some.inj hm
    exact hi.stagedOut
  · rw [acceptedFrame, if_neg ha, HostBridge.ingest_rejected ha]
    exact ⟨h.outValid, h.stagedOut, h.flags, h.hostSeq, h.hostWdog⟩

theorem reflects_served {latest : Option (List UInt8)} {host host' : HostBridge L} {cycle : UInt32}
    (h : Reflects latest host) (hs : host.Served cycle host') : Reflects latest host' := by
  refine ⟨hs.outValid.trans h.outValid, ?_, hs.flags.trans h.flags, hs.hostSeq.trans h.hostSeq,
    hs.hostWdog.trans h.hostWdog⟩
  intro mosi hm
  rw [hs.stagedOut]
  exact h.stagedOut mosi hm

theorem reflects_step {latest : Option (List UInt8)} {s : Firmware L} (h : Reflects latest s.host) (e : Event) :
    Reflects ((acceptedFrame L e).or latest) (step s e).host := by
  cases e with
  | frame mosi => exact reflects_ingest h mosi
  | tick dev latency =>
    cases hc : s.cyclic with
    | none => simpa only [step, hc, acceptedFrame, Option.none_or] using h
    | some c =>
      simp only [step, hc, ofTicked]
      exact reflects_served h (c.tickWithHost_served dev s.index latency s.host)
  | start slaves cycleNs index =>
    cases hc : s.cyclic with
    | none => simpa only [step, hc, acceptedFrame, Option.none_or] using h
    | some c => simpa only [step, hc, acceptedFrame, Option.none_or] using h
  | stop index => exact h

theorem reflects_run (es : List Event) : Reflects (lastAccepted L es) (run step (init L) es).host := by
  apply run_history step (P := fun es s => Reflects (lastAccepted L es) s.host)
  · refine ⟨rfl, ?_, rfl, rfl, rfl⟩
    intro mosi hm
    exact absurd hm (by simp [lastAccepted])
  · intro es e h
    rw [lastAccepted_concat]
    exact reflects_step h e

theorem samples_run (es : List Event) :
    ∀ x ∈ (run step (init L) es).host.motion.samples,
      ∃ mosi, .frame mosi ∈ es ∧ Accepted L mosi ∧ x ∈ frameSamples L mosi := by
  apply run_history step (P := fun es s => ∀ x ∈ s.host.motion.samples,
    ∃ mosi, .frame mosi ∈ es ∧ Accepted L mosi ∧ x ∈ frameSamples L mosi)
  · intro x hx
    exact absurd hx List.not_mem_nil
  · intro es e h x hx
    have hold : x ∈ (run step (init L) es).host.motion.samples →
        ∃ mosi, .frame mosi ∈ es ++ [e] ∧ Accepted L mosi ∧ x ∈ frameSamples L mosi := by
      intro hx
      obtain ⟨mosi, hm, ha, hf⟩ := h x hx
      exact ⟨mosi, List.mem_append_left _ hm, ha, hf⟩
    rcases step_host (run step (init L) es) e with hh | ⟨mosi, rfl, hh⟩ | ⟨dev, latency, c, rfl, -, hh⟩
    · rw [hh] at hx
      exact hold hx
    · rw [hh] at hx
      by_cases ha : Accepted L mosi
      · rw [(HostBridge.ingest_accepted ha _).samples, List.mem_append] at hx
        rcases hx with hx | hx
        · exact hold hx
        · split_ifs at hx with hs
          · exact ⟨mosi, by simp, ha, List.mem_of_mem_take hx⟩
          · exact absurd hx List.not_mem_nil
      · rw [HostBridge.ingest_rejected ha] at hx
        exact hold hx
    · rw [hh, (c.tickWithHost_served dev _ latency _).samples] at hx
      split_ifs at hx with hs
      · exact hold ((MotionQueue.rest_sublist _ _).mem hx)
      · exact hold hx

end Firmware

end EcMaster

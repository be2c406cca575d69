import EcMaster.Firmware
import EcMaster.HostReport
import EcMaster.HostStream
import EcMaster.Receive
import EcMaster.Stream

namespace EcMaster

/-- The layouts that stream, with room in a frame for as many samples as its count byte can tell. -/
structure Layout.Streams (L : Layout) : Prop where
  sound : L.Sound
  sampleFits : L.SampleFits
  streaming : streaming L = true
  fields : L.streamFields ≠ []
  cap_pos : 0 < L.maxSamplesPerFrame
  cap_lt : L.maxSamplesPerFrame < 256

/-- The component on the host, the firmware, and the frame that the SPI slave shifts out next. -/
structure LockStep (L : Layout) where
  host : HostComponent
  fw : Firmware L
  tx : List UInt8

/-- One servo cycle and the tick that follows it. A corrupted frame arrives as one that is not accepted. -/
structure Round (L : Layout) where
  hal : Hal
  corrupted : Option { mosi : List UInt8 // ¬ Accepted L mosi }
  dev : Device
  latency : UInt32

namespace LockStep

variable {L : Layout}

def arriving (r : Round L) (mosi : List UInt8) : List UInt8 :=
  match r.corrupted with
  | none => mosi
  | some bad => bad.1

/-- `host_spi_task`: a completed frame is ingested, and the staged reply goes out with the next one. -/
def hostSpiTask (fw : Firmware L) (mosi : List UInt8) : Firmware L × List UInt8 :=
  let fw := Firmware.step fw (.frame mosi)
  (fw, stageTx L fw.host.reply)

def exchange (s : LockStep L) (r : Round L) : LockStep L :=
  let sent := s.host.update L r.hal (some s.tx)
  let served := hostSpiTask s.fw (arriving r sent.1)
  ⟨sent.2.1, served.1, served.2⟩

def round (s : LockStep L) (r : Round L) : LockStep L :=
  { exchange s r with fw := Firmware.step (exchange s r).fw (.tick r.dev r.latency) }

/-- The tick of a round finds a sample tagged for its cycle in the ring. -/
def Finds (s : LockStep L) (r : Round L) : Prop :=
  ∃ c, (exchange s r).fw.cyclic = some c ∧ (exchange s r).fw.host.outValid = true ∧
    ((exchange s r).fw.host.motion.pop (c.totalCycles + 1)).1.isSome

def before (s : LockStep L) (r : ℕ → Round L) : ℕ → LockStep L
  | 0 => s
  | n + 1 => round (before s r n) (r n)

def Shows (L : Layout) (miso : List UInt8) : Option (UInt32 × ℕ) → Prop
  | none => HostComponent.intact L miso = false
  | some p => HostComponent.Reports L miso p.1 p.2

structure Tracks (target : ℕ) (s : LockStep L) (a : Stream) : Prop where
  target : s.host.target = target
  nextTag : s.host.nextTag = a.nextTag
  primed : s.host.primed = a.primed
  lastCycleIndex : s.host.lastCycleIndex = a.lastCycleIndex
  lastBufDepth : s.host.lastBufDepth = a.lastBufDepth
  engine : ∃ c, s.fw.cyclic = some c ∧ c.totalCycles = a.cycle
  ring : s.fw.host.motion.samples.map Prod.fst = a.ring
  idle : s.fw.host.outValid = false → a.ring = []
  tx : Shows L s.tx a.tx
  reply : Shows L (stageTx L s.fw.host.reply) a.reply

theorem receive_shows {miso : List UInt8} {tx : Option (UInt32 × ℕ)} (h : Shows L miso tx) (hc : HostComponent)
    (hal : Hal) :
    ∃ n st, (hc.receive L hal miso).1 = { hc with
      lastCycleIndex := (tx.map Prod.fst).getD hc.lastCycleIndex
      lastBufDepth := (tx.map Prod.snd).getD hc.lastBufDepth
      crcErrors := n
      status := st } := by
  cases tx with
  | none =>
    obtain ⟨st, n, hr⟩ := HostComponent.receive_broken h hc hal
    exact ⟨n, st, hr⟩
  | some p =>
    obtain ⟨st, hr⟩ := HostComponent.receive_reports h hc hal
    exact ⟨_, st, hr⟩

theorem Tracks.resync {target : ℕ} {s : LockStep L} {a : Stream} (h : Tracks target s a) : s.host.resync = a.resync := by
  rw [HostComponent.resync, Stream.resync, h.nextTag, h.lastCycleIndex]

theorem Tracks.want {target : ℕ} {s : LockStep L} {a : Stream} (h : Tracks target s a) :
    s.host.want L = a.want target L.maxSamplesPerFrame := by
  rw [HostComponent.want, Stream.want, h.target, h.primed, h.lastBufDepth]

theorem tracks_exchange (hL : L.Streams) {target : ℕ} {s : LockStep L} {a : Stream} (h : Tracks target s a)
    (r : Round L) :
    Tracks target (exchange s r) (a.afterFrame target L.maxSamplesPerFrame r.corrupted.isSome) := by
  have hsends := s.host.buildFrame_sends hL.sampleFits hL.fields hL.cap_pos hL.cap_lt r.hal
  set sent := s.host.buildFrame L r.hal with hsent
  obtain ⟨n, st, hrec⟩ := receive_shows h.tx sent.2 r.hal
  have hhost : (exchange s r).host = (sent.2.receive L r.hal s.tx).1 := rfl
  have hfw : (exchange s r).fw.host = s.fw.host.ingest (arriving r sent.1) := rfl
  have htx : (exchange s r).tx = stageTx L (s.fw.host.ingest (arriving r sent.1)).reply := rfl
  have hstaged : (s.fw.host.ingest (arriving r sent.1)).reply = s.fw.host.reply := by
    by_cases ha : Accepted L (arriving r sent.1)
    · rw [HostBridge.reply, (HostBridge.ingest_accepted ha s.fw.host).stagedIn]
      rfl
    · rw [HostBridge.ingest_rejected ha]
      rfl
  have hring : (s.fw.host.ingest (arriving r sent.1)).motion.samples.map Prod.fst =
      (a.afterFrame target L.maxSamplesPerFrame r.corrupted.isSome).ring := by
    cases hc : r.corrupted with
    | none =>
      have harr : arriving r sent.1 = sent.1 := by rw [arriving, hc]
      rw [harr, (HostBridge.ingest_accepted hsends.accepted s.fw.host).samples, if_pos hL.streaming, List.map_append,
        List.map_take, hsends.tags, h.want, h.resync, h.ring, ← MotionRing.length_samples,
        ← List.length_map (f := Prod.fst), h.ring]
      rfl
    | some bad =>
      have harr : arriving r sent.1 = bad.1 := by rw [arriving, hc]
      rw [harr, HostBridge.ingest_rejected bad.2]
      exact h.ring
  refine ⟨?_, ?_, ?_, ?_, ?_, h.engine, ?_, ?_, ?_, ?_⟩
  · rw [hhost, hrec, HostComponent.target, ← h.target, HostComponent.target, hsends.lead]
  · rw [hhost, hrec, hsends.nextTag, h.want, h.resync]
    rfl
  · rw [hhost, hrec, hsends.primed]
    rfl
  · rw [hhost, hrec, hsends.lastCycleIndex, h.lastCycleIndex]
    rfl
  · rw [hhost, hrec, hsends.lastBufDepth, h.lastBufDepth]
    rfl
  · rw [hfw]
    exact hring
  · rw [hfw, ← hring]
    intro hv
    by_cases ha : Accepted L (arriving r sent.1)
    · rw [(HostBridge.ingest_accepted ha s.fw.host).outValid] at hv
      exact absurd hv (by decide)
    · rw [HostBridge.ingest_rejected ha] at hv ⊢
      exact h.ring.trans (h.idle hv)
  · rw [htx, hstaged]
    exact h.reply
  · rw [hfw, hstaged]
    exact h.reply

theorem tracks_tick (hL : L.Streams) {target : ℕ} {s : LockStep L} {a : Stream} (h : Tracks target s a) (dev : Device)
    (latency : UInt32) :
    Tracks target { s with fw := Firmware.step s.fw (.tick dev latency) } a.afterTick := by
  obtain ⟨c, hc, hcycle⟩ := h.engine
  have hserved := c.tickWithHost_served dev s.fw.index latency s.fw.host
  have hcycles : (c.tickWithHost dev s.fw.index latency s.fw.host).cyclic.totalCycles = a.cycle + 1 := by
    rw [(c.tickWithHost_settles dev s.fw.index latency s.fw.host).totalCycles, Cyclic.received_totalCycles, hcycle]
  have hfw : Firmware.step s.fw (.tick dev latency) =
      Firmware.ofTicked (c.tickWithHost dev s.fw.index latency s.fw.host) := by
    rw [Firmware.step, hc]
  set t := c.tickWithHost dev s.fw.index latency s.fw.host with ht
  have hring : t.host.motion.samples.map Prod.fst = Tags.rest a.ring (a.cycle + 1) := by
    rw [hserved.samples, Cyclic.received_totalCycles, hcycle, hL.streaming, Bool.and_true]
    cases hv : s.fw.host.outValid with
    | true => rw [if_pos rfl, Tags.rest_map, h.ring]
    | false =>
      rw [if_neg (by decide), h.ring, h.idle hv]
      rfl
  have hreply := HostComponent.stageTx_reports ((c.received dev latency).control s.fw.host).host t.cyclic.domain.image
    (t.cyclic.replyStatus ((c.received dev latency).control s.fw.host).hostTimeout
      ((c.received dev latency).control s.fw.host).underrun)
  have hdepth : ((c.received dev latency).control s.fw.host).host.motion.depth =
      (Tags.rest a.ring (a.cycle + 1)).length := by
    rw [← hring, List.length_map, MotionRing.length_samples]
    rfl
  refine ⟨h.target, h.nextTag, h.primed, h.lastCycleIndex, h.lastBufDepth, ⟨t.cyclic, ?_, hcycles⟩, ?_, ?_, h.tx, ?_⟩
  · rw [hfw]
    rfl
  · rw [hfw]
    exact hring
  · rw [hfw]
    intro hv
    change Tags.rest a.ring (a.cycle + 1) = []
    rw [h.idle (hserved.outValid.symm.trans hv)]
    rfl
  · rw [hfw, Stream.afterTick, ← hdepth, ← hcycles]
    exact hreply

theorem tracks_round (hL : L.Streams) {target : ℕ} {s : LockStep L} {a : Stream} (h : Tracks target s a)
    (r : Round L) : Tracks target (round s r) (a.round target L.maxSamplesPerFrame r.corrupted.isSome) :=
  tracks_tick hL (tracks_exchange hL h r) r.dev r.latency

theorem tracks_before (hL : L.Streams) {target : ℕ} {s : LockStep L} {a : Stream} (h : Tracks target s a)
    (r : ℕ → Round L) (n : ℕ) (hr : ∀ i < n, (r i).corrupted = none) :
    Tracks target (before s r n) (a.rounds target L.maxSamplesPerFrame n) := by
  induction n with
  | zero => exact h
  | succ n ih =>
    rw [Stream.rounds_succ]
    have hround := tracks_round hL (ih fun i hi => hr i (by omega)) (r n)
    rwa [hr n (by omega)] at hround

theorem Tracks.finds (hL : L.Streams) {target : ℕ} {s : LockStep L} {a : Stream} (h : Tracks target s a) (r : Round L) :
    Finds s r ↔ (a.afterFrame target L.maxSamplesPerFrame r.corrupted.isSome).finds = true := by
  have he := tracks_exchange hL h r
  obtain ⟨c, hc, hcycle⟩ := he.engine
  have hpop : ((exchange s r).fw.host.motion.pop (c.totalCycles + 1)).1.isSome =
      (a.afterFrame target L.maxSamplesPerFrame r.corrupted.isSome).finds := by
    rw [Stream.finds, ← he.ring, ← hcycle, ← Tags.due_isSome, ← (MotionRing.pop_refines _ _).1, Option.isSome_map]
  constructor
  · rintro ⟨c', hc', -, hf⟩
    obtain rfl := Option.some.inj (hc.symm.trans hc')
    rwa [hpop] at hf
  · intro hf
    refine ⟨c, hc, ?_, by rw [hpop]; exact hf⟩
    by_contra hv
    have hm := Tags.mem_of_ready hf
    rw [he.idle (by simpa using hv)] at hm
    exact absurd hm List.not_mem_nil

end LockStep

end EcMaster

import EcMaster.FaultPin
import EcMaster.HostFrames
import EcMaster.Library.Streak
import EcMaster.LockStep

namespace EcMaster

open Library.Run Library.Streak Library.Segment Library.LittleEndian

/-- What becomes of the frame that the SPI slave shifts out. -/
inductive Back (L : Layout)
  | intact
  | damaged (miso : { miso : List UInt8 // HostComponent.intact L miso = false })
  | failed

/-- A servo cycle, in which `mosi` may stand for the frame that arrives in place of the one sent, and what happens
to the engine in between. -/
inductive Act (L : Layout)
  | update (hal : Hal) (mosi : Option (List UInt8)) (back : Back L)
  | tick (dev : Device) (latency : UInt32)
  | start (slaves : List CyclicSlave) (cycleNs : UInt64) (index : UInt8)
  | stop (index : UInt8)

/-- The ticks that the engine has taken, and the phase and the number of the tick that staged the reply in the
bridge and the reply that goes out next. -/
structure Beats where
  ticks : ℕ
  staged : Option (Phase × ℕ)
  shifting : Option (Phase × ℕ)

variable {L : Layout}

def Back.arriving : Back L → List UInt8 → Option (List UInt8)
  | intact, tx => some tx
  | damaged miso, _ => some miso.1
  | failed, _ => none

def Beats.soundTick (b : Beats) : Back L → Option ℕ
  | .intact => b.shifting.bind fun p => if p.1 = .faulted then none else some p.2
  | .damaged _ => none
  | .failed => none

namespace LockStep

def powerUp (L : Layout) (lead : ℤ) : LockStep L :=
  ⟨.load lead, Firmware.init L, stageTx L (HostBridge.new L).reply⟩

def act (s : LockStep L) : Act L → LockStep L
  | .update hal mosi back =>
    let sent := s.host.update L hal (back.arriving s.tx)
    let served := hostSpiTask s.fw (mosi.getD sent.1)
    ⟨sent.2.1, served.1, served.2⟩
  | .tick dev latency => { s with fw := Firmware.step s.fw (.tick dev latency) }
  | .start slaves cycleNs index => { s with fw := Firmware.step s.fw (.start slaves cycleNs index) }
  | .stop index => { s with fw := Firmware.step s.fw (.stop index) }

def healthyBeat (s : LockStep L) (hal : Hal) (miso : Option (List UInt8)) : Option UInt16 :=
  let status := (s.host.update L hal miso).2.1.status
  if status.online && !status.fault then miso.map fun miso => u16Le (slice miso 6 2) else none

def observe (s : LockStep L) : Act L → Option (Option UInt16)
  | .update hal _ back => some (healthyBeat s hal (back.arriving s.tx))
  | _ => none

def note (s : LockStep L) (a : Act L) (b : Beats) : Beats :=
  match a with
  | .update _ _ _ => { b with shifting := b.staged }
  | .tick dev latency =>
    match s.fw.cyclic with
    | none => b
    | some c =>
      { b with
        ticks := b.ticks + 1
        staged := some ((c.tickWithHost dev s.fw.index latency s.fw.host).cyclic.phase, b.ticks + 1) }
  | .start _ _ _ => b
  | .stop _ => b

def record (s : LockStep L × Beats) : Act L → Option (Option ℕ)
  | .update _ _ back => some (s.2.soundTick back)
  | _ => none

variable (L) in
def healthLog (lead : ℤ) (as : List (Act L)) : List (Option UInt16) := log act observe (powerUp L lead) as

variable (L) in
def tickLog (lead : ℤ) (as : List (Act L)) : List (Option ℕ) :=
  log (withHistory act note) record (powerUp L lead, ⟨0, none, none⟩) as

/-- No more than `K` consecutive updates are healthy with one and the same heartbeat. -/
def Bounded (K : ℕ) (seen : List (Option UInt16)) : Prop := ∀ v, ¬ List.replicate (K + 1) (some v) <:+: seen

/-- Among any `K + 1` consecutive updates one brings no sound reply, or the engine ticked between two of them. -/
def Beating (K : ℕ) (ticks : List (Option ℕ)) : Prop :=
  ∀ window, window <:+: ticks → window.length = K + 1 →
    none ∈ window ∨ ∃ m n, some m ∈ window ∧ some n ∈ window ∧ m % 2 ^ 16 ≠ n % 2 ^ 16

theorem bounded_map_iff (K : ℕ) (ticks : List (Option ℕ)) :
    Bounded K (ticks.map (Option.map UInt16.ofNat)) ↔ Beating K ticks := by
  have hbeat : ∀ m n : ℕ, UInt16.ofNat m = UInt16.ofNat n ↔ m % 2 ^ 16 = n % 2 ^ 16 := by
    intro m n
    rw [← UInt16.toNat_inj, UInt16.toNat_ofNat', UInt16.toNat_ofNat']
  constructor
  · intro h window hw hl
    by_contra hc
    push Not at hc
    obtain ⟨hn, hsame⟩ := hc
    have hsome : ∀ y ∈ window, ∃ a, y = some a := by
      intro y hy
      cases y with
      | none => exact absurd hy hn
      | some a => exact ⟨a, rfl⟩
    obtain ⟨x, xs, rfl⟩ := List.exists_cons_of_length_pos (l := window) (by omega)
    obtain ⟨m, rfl⟩ := hsome x List.mem_cons_self
    apply h (UInt16.ofNat m)
    rw [replicate_infix_map]
    refine ⟨_, hw, hl, fun y hy => ?_⟩
    obtain ⟨a, rfl⟩ := hsome y hy
    exact ⟨a, rfl, (hbeat a m).mpr (hsame a m hy List.mem_cons_self)⟩
  · intro h v hv
    obtain ⟨window, hw, hl, hall⟩ := (replicate_infix_map _ _ _ _).mp hv
    rcases h window hw hl with hn | ⟨m, n, hm, hn, hne⟩
    · obtain ⟨a, ha, -⟩ := hall none hn
      exact absurd ha (by simp)
    · obtain ⟨a, ha, hav⟩ := hall _ hm
      obtain ⟨b, hb, hbv⟩ := hall _ hn
      obtain rfl := Option.some.inj ha
      obtain rfl := Option.some.inj hb
      exact hne ((hbeat m n).mp (hav.trans hbv.symm))

def Carries (L : Layout) (miso : List UInt8) : Option (Phase × ℕ) → Prop
  | none => HostComponent.intact L miso = false
  | some p => HostComponent.intact L miso = true ∧ (miso.getD 3 0 &&& statusFault ≠ 0 ↔ p.1 = .faulted) ∧
      u16Le (slice miso 6 2) = UInt16.ofNat p.2

structure Follows (s : LockStep L) (b : Beats) : Prop where
  tx : Carries L s.tx b.shifting
  reply : Carries L (stageTx L s.fw.host.reply) b.staged
  wdog : s.fw.host.teensyWdog = UInt16.ofNat b.ticks

theorem healthyBeat_offline {s : LockStep L} {hal : Hal} {miso : Option (List UInt8)}
    (h : ∀ m, miso = some m → HostComponent.intact L m = false) : healthyBeat s hal miso = none := by
  have hoff : (s.host.update L hal miso).2.1.status.online = false := by
    cases miso with
    | none => rfl
    | some m =>
      change ((s.host.buildFrame L hal).2.receive L hal m).1.status.online = false
      rw [HostComponent.receive, if_pos (by rw [h m rfl]; decide)]
      rfl
  rw [healthyBeat, hoff]
  rfl

theorem healthyBeat_carries {miso : List UInt8} {p : Phase × ℕ} (h : Carries L miso (some p)) (s : LockStep L)
    (hal : Hal) : healthyBeat s hal (some miso) = if p.1 = .faulted then none else some (UInt16.ofNat p.2) := by
  obtain ⟨hi, hf, hw⟩ := h
  have hstatus : (s.host.update L hal (some miso)).2.1.status.online = true ∧
      (s.host.update L hal (some miso)).2.1.status.fault = decide (p.1 = .faulted) := by
    refine ⟨?_, (HostComponent.receive_fault hi _ _).trans (decide_eq_decide.mpr hf)⟩
    change ((s.host.buildFrame L hal).2.receive L hal miso).1.status.online = true
    rw [HostComponent.receive, if_neg (by rw [hi]; decide)]
  rw [healthyBeat, hstatus.1, hstatus.2, ← hw]
  by_cases hp : p.1 = .faulted <;> simp [hp]

theorem Follows.healthyBeat {s : LockStep L} {b : Beats} (h : Follows s b) (hal : Hal) (back : Back L) :
    healthyBeat s hal (back.arriving s.tx) = (b.soundTick back).map UInt16.ofNat := by
  cases back with
  | intact =>
    have ht := h.tx
    rw [Beats.soundTick, Back.arriving]
    cases hs : b.shifting with
    | none =>
      rw [hs] at ht
      exact healthyBeat_offline fun m hm => by rw [← Option.some.inj hm]; exact ht
    | some p =>
      rw [hs] at ht
      rw [healthyBeat_carries ht, Option.bind_some]
      split_ifs <;> rfl
  | damaged miso => exact healthyBeat_offline fun m hm => by rw [← Option.some.inj hm]; exact miso.2
  | failed => exact healthyBeat_offline fun m hm => absurd hm (by simp [Back.arriving])

theorem ingest_staged (h : HostBridge L) (mosi : List UInt8) :
    (h.ingest mosi).stagedIn = h.stagedIn ∧ (h.ingest mosi).teensyWdog = h.teensyWdog := by
  by_cases ha : Accepted L mosi
  · have hi := HostBridge.ingest_accepted ha h
    exact ⟨hi.stagedIn, hi.teensyWdog⟩
  · rw [HostBridge.ingest_rejected ha]
    exact ⟨rfl, rfl⟩

theorem Follows.update {s : LockStep L} {b : Beats} (h : Follows s b) (hal : Hal) (mosi : Option (List UInt8))
    (back : Back L) : Follows (act s (.update hal mosi back)) { b with shifting := b.staged } := by
  obtain ⟨hs, hw⟩ := ingest_staged s.fw.host (mosi.getD (s.host.update L hal (back.arriving s.tx)).1)
  have hr : (s.fw.host.ingest (mosi.getD (s.host.update L hal (back.arriving s.tx)).1)).reply = s.fw.host.reply := by
    rw [HostBridge.reply, HostBridge.reply, hs]
  refine ⟨?_, ?_, hw.trans h.wdog⟩
  · change Carries L (stageTx L (s.fw.host.ingest _).reply) _
    rw [hr]
    exact h.reply
  · change Carries L (stageTx L (s.fw.host.ingest _).reply) _
    rw [hr]
    exact h.reply

theorem carries_tick (c : Cyclic L) (dev : Device) (index : UInt8) (latency : UInt32) (host : HostBridge L) {n : ℕ}
    (hw : host.teensyWdog = UInt16.ofNat n) :
    Carries L (stageTx L (c.tickWithHost dev index latency host).host.reply)
      (some ((c.tickWithHost dev index latency host).cyclic.phase, n + 1)) := by
  obtain ⟨m, hm, hh, -⟩ := (c.received dev latency).control_host host
  have hhdr := misoHdr_le L
  simp only [misoHdr] at hhdr
  rw [Cyclic.tickWithHost_host]
  refine ⟨HostComponent.stageTx_intact _ _ _, ?_, ?_⟩
  · rw [List.getD_eq_getElem?_getD, getElem?_stageTx (HostBridge.length_reply _) (by omega), HostBridge.reply_status,
      Option.getD_some, HostBridge.fault_of_status, ← Phase.code_eq_three]
    split_ifs with hp
    · exact ⟨fun _ => hp, fun _ => by decide⟩
    · exact ⟨fun h => absurd rfl h, fun h => absurd h hp⟩
  · rw [slice_stageTx (HostBridge.length_reply _) (by omega), HostBridge.reply_wdog, hh, UInt16.ofNat_add, ← hw]
    rfl

theorem Follows.tick {s : LockStep L} {b : Beats} (h : Follows s b) (dev : Device) (latency : UInt32) :
    Follows (act s (.tick dev latency)) (note s (.tick dev latency) b) := by
  rw [act, note, Firmware.step]
  cases hc : s.fw.cyclic with
  | none => exact h
  | some c =>
    obtain ⟨m, hm, hh, -⟩ := (c.received dev latency).control_host s.fw.host
    refine ⟨h.tx, carries_tick c dev _ latency _ h.wdog, ?_⟩
    change (c.tickWithHost dev s.fw.index latency s.fw.host).host.teensyWdog = _
    rw [Cyclic.tickWithHost_host, HostBridge.buildReply, hh, UInt16.ofNat_add, ← h.wdog]
    rfl

theorem Follows.act {s : LockStep L} {b : Beats} (h : Follows s b) (a : Act L) : Follows (act s a) (note s a b) := by
  cases a with
  | update hal mosi back => exact h.update hal mosi back
  | tick dev latency => exact h.tick dev latency
  | start slaves cycleNs index =>
    refine ⟨h.tx, ?_, ?_⟩ <;> rw [LockStep.act, Firmware.step] <;> cases s.fw.cyclic
    · exact h.reply
    · exact h.reply
    · exact h.wdog
    · exact h.wdog
  | stop index => exact ⟨h.tx, h.reply, h.wdog⟩

theorem powerUp_follows (lead : ℤ) : Follows (powerUp L lead) ⟨0, none, none⟩ :=
  ⟨HostComponent.zeros_not_intact, HostComponent.zeros_not_intact, rfl⟩

theorem follows_run (lead : ℤ) (as : List (Act L)) :
    Follows (run (withHistory act note) (powerUp L lead, ⟨0, none, none⟩) as).1
      (run (withHistory act note) (powerUp L lead, ⟨0, none, none⟩) as).2 :=
  run_invariant _ (I := fun p : LockStep L × Beats => Follows p.1 p.2) (powerUp_follows lead)
    (fun _ a h => h.act a) as

theorem healthLog_eq (lead : ℤ) (as : List (Act L)) :
    healthLog L lead as = (tickLog L lead as).map (Option.map UInt16.ofNat) := by
  induction as using List.reverseRecOn with
  | nil => rfl
  | append_singleton as a ih =>
    have hf := follows_run lead as
    have hrun : (run (withHistory act note) (powerUp L lead, ⟨0, none, none⟩) as).1 = run act (powerUp L lead) as :=
      run_withHistory _ _ _ _
    rw [healthLog, tickLog, log_concat, log_concat, List.map_append, ← hrun]
    congr 1
    cases a with
    | update hal mosi back =>
      have hb := hf.healthyBeat hal back
      simp only [observe, record, Option.toList_some, List.map_cons, List.map_nil, hb]
    | tick dev latency => rfl
    | start slaves cycleNs index => rfl
    | stop index => rfl

end LockStep

end EcMaster

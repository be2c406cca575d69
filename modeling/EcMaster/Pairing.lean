import EcMaster.DatagramWalk
import EcMaster.Decoding

namespace EcMaster

open Library.Run Library.Segment Library.LittleEndian

def Walked.shape (w : Walked) : ℕ × UInt8 × ℕ × Bool × ℕ := (w.off, w.reply.command, w.reply.data.length, w.more, w.next)

def KeepsStructure (sent reply : List UInt8) : Prop := (walk reply).map Walked.shape = (walk sent).map Walked.shape

namespace Cyclic

variable {L : Layout}

/-- A datagram is the one that an entry of `appended` stands for. -/
def Stands (c : Cyclic L) (d : Datagram) : Appended → Prop
  | .control => ∃ s, c.slaves[c.opCursor]? = some s ∧ d.command = Command.code .fpwr ∧ d.adp = s.station ∧
      d.ado = regAlControl ∧ d.data = [alStateOp, 0]
  | .status idx => ∃ s, c.slaves[idx]? = some s ∧ d.command = Command.code .fprd ∧ d.adp = s.station ∧
      d.ado = regAlStatus ∧ d.data.length = 2
  | .dcArmw => d.command = Command.code .armw ∧ d.adp = autoincAdp c.refRingPos ∧ d.ado = regDcSysTime ∧
      d.data.length = 8
  | .dcDiff => d.command = Command.code .fprd ∧ d.adp = c.followerStation ∧ d.ado = regDcSysTimeDiff ∧
      d.data.length = 4
  | .alPoll => ∃ s, c.slaves[c.monCursor]? = some s ∧ d.command = Command.code .fprd ∧ d.adp = s.station ∧
      d.ado = regAlStatus ∧ d.data.length = 2

/-- The frame in the transmit buffer and the list of kinds belong together, and a reply of the same structure is
decoded datagram by datagram with its own kind. -/
structure Paired (c : Cyclic L) : Prop where
  fits : c.txLen ≤ cyclicBuf
  frame : ∃ lrw ds, walk c.sentFrame = laidOut ecFrameHeaderSize (lrw :: ds) ∧ lrw.command = Command.code .lrw ∧
    lrw.index = c.expectedIndex ∧ lrw.data = c.domain.image ∧ List.Forall₂ (fun kind d => c.Stands d kind) c.appended ds
  decodes : ∀ dev latency reply, c.matched dev = some reply → KeepsStructure c.sentFrame reply →
    ∃ lrw ds, walk reply = lrw :: ds ∧ ds.length = c.appended.length ∧
      c.received dev latency =
        ((c.beginTick latency).absorb lrw.reply (c.appended.zip (ds.map Walked.reply))).clearOutstanding ∧
      (c.received dev latency).domain.lastWkc = lrw.reply.workingCounter ∧
      c.Decoded (c.appended.zip (ds.map Walked.reply)) (c.received dev latency)

theorem pairReplies_eq (frame : List UInt8) (kinds : List Appended) (fuel next : ℕ) (hf : kinds.length ≤ fuel) :
    pairReplies frame kinds next =
      kinds.zip ((if next = 0 then [] else walkFrom frame fuel next).map Walked.reply) := by
  induction kinds generalizing fuel next with
  | nil => rfl
  | cons kind kinds ih =>
    rw [pairReplies]
    split_ifs with hn
    · rfl
    · obtain ⟨k, rfl⟩ := Nat.exists_eq_succ_of_ne_zero (Nat.ne_of_gt (lt_of_lt_of_le (Nat.succ_pos _) hf))
      rw [walkFrom]
      cases parseAt frame next with
      | none => rfl
      | some p =>
        rw [List.map_cons, List.zip_cons_cons, ← ih k p.2 (Nat.le_of_succ_le_succ hf)]

theorem pairReplies_walk {frame : List UInt8} {w : Walked} {ws : List Walked} (h : walk frame = w :: ws)
    {kinds : List Appended} (hl : ws.length = kinds.length) :
    pairReplies frame kinds w.next = kinds.zip (ws.map Walked.reply) := by
  obtain ⟨fuel, -, hws⟩ := walk_cons h
  have hk : kinds.length ≤ fuel := by
    rw [← hl, hws]
    split_ifs
    · exact Nat.zero_le _
    · exact length_walkFrom _ _ _
  rw [pairReplies_eq frame kinds fuel w.next hk, ← hws]

theorem length_laidOut (off : ℕ) (ds : List Datagram) : (laidOut off ds).length = ds.length := by
  induction ds generalizing off with
  | nil => rfl
  | cons d ds ih => rw [laidOut, List.length_cons, ih, List.length_cons]

theorem answered_of_walk {c : Cyclic L} {dev : Device} {reply : List UInt8} (hm : c.matched dev = some reply)
    {w : Walked} {ws : List Walked} (hr : walk reply = w :: ws) (hl : ws.length = c.appended.length) :
    c.processed dev = some (w.reply, w.next) ∧ c.answered dev = c.appended.zip (ws.map Walked.reply) := by
  obtain ⟨fuel, hp, -⟩ := walk_cons hr
  refine ⟨by rw [processed, hm, Option.bind_some, hp], ?_⟩
  rw [answered, hm]
  simp only [hp]
  exact pairReplies_walk hr hl

theorem decodes_of_walk {c : Cyclic L} {lrw : Datagram} {ds : List Datagram}
    (hw : walk c.sentFrame = laidOut ecFrameHeaderSize (lrw :: ds)) (hl : ds.length = c.appended.length)
    (dev : Device) (latency : UInt32) {reply : List UInt8} (hm : c.matched dev = some reply)
    (hk : KeepsStructure c.sentFrame reply) :
    ∃ w ws, walk reply = w :: ws ∧ ws.length = c.appended.length ∧ c.received dev latency =
      ((c.beginTick latency).absorb w.reply (c.appended.zip (ws.map Walked.reply))).clearOutstanding ∧
      (c.received dev latency).domain.lastWkc = w.reply.workingCounter ∧
      c.Decoded (c.appended.zip (ws.map Walked.reply)) (c.received dev latency) := by
  have hlen : (walk reply).length = (lrw :: ds).length := by
    have hc := congrArg List.length hk
    rwa [List.length_map, List.length_map, hw, length_laidOut] at hc
  obtain ⟨w, ws, hr⟩ := List.exists_cons_of_length_pos (l := walk reply) (by rw [hlen]; exact Nat.succ_pos _)
  rw [hr, List.length_cons, List.length_cons] at hlen
  have hws : ws.length = c.appended.length := by omega
  obtain ⟨hprocessed, hanswered⟩ := answered_of_walk hm hr hws
  refine ⟨w, ws, hr, hws, ?_, ?_, ?_⟩
  · rw [received_eq, hprocessed, hanswered]
  · rw [received_lastWkc, hprocessed]
  · rw [← hanswered]
    exact decoded_received hprocessed latency

theorem seekOp_appendOpRequest (c : Cyclic L) (index : UInt8) :
    (c.appendOpRequest index).1.slaves = c.slaves ∧ (c.appendOpRequest index).1.opCursor = c.seekOp.opCursor := by
  rw [appendOpRequest]
  dsimp only
  split
  · exact ⟨rfl, rfl⟩
  · split_ifs <;> exact ⟨rfl, rfl⟩

theorem stands_opRequest (c : Cyclic L) (index : UInt8) :
    ∀ p ∈ c.opRequest index, (c.appendOpRequest index).1.Stands p.2 p.1 := by
  obtain ⟨hs, hc⟩ := c.seekOp_appendOpRequest index
  intro p hp
  rw [opRequest] at hp
  split at hp
  · exact absurd hp List.not_mem_nil
  · next s hslave =>
    split_ifs at hp with hctrl
    · rw [List.mem_singleton] at hp
      subst hp
      exact ⟨s, by rw [hs, hc, hslave], rfl, rfl, rfl, rfl⟩
    · rw [List.mem_singleton] at hp
      subst hp
      exact ⟨s, by rw [hs, hslave], rfl, rfl, rfl, rfl⟩

theorem followerStation_single {c : Cyclic L} {s : SlaveRt} (h : c.slaves = [s]) : c.followerStation = s.station := by
  rw [followerStation, h]
  by_cases hr : s.ringPos = c.refRingPos <;> simp [hr]

theorem followerStation_congr {c c' : Cyclic L} (hs : c'.slaves = c.slaves) (hr : c'.refRingPos = c.refRingPos) :
    c'.followerStation = c.followerStation := by
  rw [followerStation, followerStation, hs, hr]

theorem pollStation_of_slave {c : Cyclic L} {s : SlaveRt} (h : c.slaves[c.monCursor]? = some s) :
    c.pollStation = s.station := by
  rw [pollStation, h]
  rfl

theorem advanceMonitor_slave {c : Cyclic L} (h : 1 < c.slaves.length) :
    ∃ s, c.advanceMonitor.slaves[c.advanceMonitor.monCursor]? = some s := by
  have hlt : (c.monCursor + 1) % c.slaves.length < c.slaves.length := Nat.mod_lt _ (by omega)
  exact ⟨_, List.getElem?_eq_getElem hlt⟩

theorem stands_telemetry {c c' : Cyclic L} (h : 1 < c.slaves.length) (hs : c'.slaves = c.slaves)
    (hr : c'.refRingPos = c.refRingPos) (hm : c.monToggle = false → c'.monCursor = c.advanceMonitor.monCursor)
    (index : UInt8) : c'.Stands (c.telemetry index).2 (c.telemetry index).1 := by
  rw [telemetry]
  cases ht : c.monToggle with
  | true => exact ⟨rfl, (followerStation_congr hs hr).symm, rfl, rfl⟩
  | false =>
    obtain ⟨s, hslave⟩ := advanceMonitor_slave h
    refine ⟨s, ?_, rfl, pollStation_of_slave hslave, rfl, rfl⟩
    rw [hs, hm ht]
    exact hslave

theorem appendTelemetry_cursor (c : Cyclic L) (index : UInt8) :
    (c.appendTelemetry index).monCursor = if c.monToggle then c.monCursor else c.advanceMonitor.monCursor := by
  rw [appendTelemetry]
  split_ifs <;> rfl

theorem stands_monitor (c : Cyclic L) (index : UInt8) :
    ∀ p ∈ c.monitor index, (c.appendMonitor index).1.Stands p.2 p.1 := by
  have hk := c.appendMonitor_keeps index
  intro p hp
  rw [monitor] at hp
  split_ifs at hp with hn
  · cases hh : c.slaves.head? with
    | none =>
      rw [hh] at hp
      exact absurd hp List.not_mem_nil
    | some s =>
      rw [hh, List.mem_singleton] at hp
      subst hp
      have hsingle : c.slaves = [s] := by
        obtain ⟨tl, hs⟩ := List.head?_eq_some_iff.mp hh
        rw [hs, List.length_cons] at hn
        rw [hs, List.eq_nil_of_length_eq_zero (show tl.length = 0 by omega)]
      exact ⟨rfl, (followerStation_single (hk.slaves.trans hsingle)).symm, rfl, rfl⟩
  · rcases List.mem_cons.mp hp with rfl | hp
    · exact ⟨rfl, congrArg autoincAdp hk.refRingPos.symm, rfl, rfl⟩
    · rw [List.mem_singleton] at hp
      subst hp
      apply stands_telemetry (by omega) hk.slaves hk.refRingPos
      intro ht
      rw [appendMonitor, if_neg hn]
      refine (appendTelemetry_cursor _ _).trans ?_
      change (if c.monToggle then _ else _) = _
      rw [ht]
      rfl

theorem stands_appendix (c : Cyclic L) (index : UInt8) :
    ∀ p ∈ c.appendix (index + 1), (c.buildFrame index).1.Stands p.2 p.1 := by
  have hphase : (c.startFrame index).phase = c.phase := rfl
  rw [buildFrame, appendix, hphase]
  cases c.phase with
  | priming => exact fun p hp => absurd hp List.not_mem_nil
  | requestingOp => exact stands_opRequest (c.startFrame index) (index + 1)
  | operational => exact stands_monitor (c.startFrame index) (index + 1)
  | faulted => exact fun p hp => absurd hp List.not_mem_nil

theorem txLen_buildFrame (c : Cyclic L) (index : UInt8) : (c.buildFrame index).1.txLen ≤ cyclicBuf := by
  obtain ⟨init, last, he, henc⟩ := (c.buildFrame_builds index).carries
  have hr := c.frameRoom_appendix (index + 1) (c.lrwDatagram index)
  have hl : (c.lrwDatagram index).data.length ≤ maxImage := c.image_le
  have hlen := henc.length_eq
  rw [length_frameBytes, length_chain, ← he, ecMinEcatFrame] at hlen
  simp only [maxImage] at hl
  rw [cyclicBuf, maxImage]
  simp only at hlen
  omega

theorem walk_buildFrame (c : Cyclic L) (index : UInt8) :
    walk (c.buildFrame index).1.sentFrame =
      laidOut ecFrameHeaderSize (c.lrwDatagram index :: (c.appendix (index + 1)).map Prod.snd) := by
  obtain ⟨init, last, he, henc⟩ := (c.buildFrame_builds index).carries
  have hr := c.frameRoom_appendix (index + 1) (c.lrwDatagram index)
  have hl : (c.lrwDatagram index).data.length ≤ maxImage := c.image_le
  simp only [maxImage] at hl
  have hw := henc.walk (by rw [length_chain, ← he]; omega)
  rw [he]
  exact hw

theorem expectedIndex_buildFrame (c : Cyclic L) (index : UInt8) : (c.buildFrame index).1.expectedIndex = index := by
  rw [buildFrame]
  split
  · rw [appendOpRequest]
    dsimp only
    split
    · rfl
    · split_ifs <;> rfl
  · rw [appendMonitor]
    split_ifs
    · split <;> rfl
    · change (appendTelemetry _ _).expectedIndex = index
      rw [appendTelemetry]
      split_ifs <;> rfl
  · rfl
  · rfl

theorem forall₂_map_of_mem {α β γ : Type} {R : β → γ → Prop} {f : α → β} {g : α → γ} {xs : List α}
    (h : ∀ x ∈ xs, R (f x) (g x)) : List.Forall₂ R (xs.map f) (xs.map g) := by
  induction xs with
  | nil => exact .nil
  | cons x xs ih => exact .cons (h x List.mem_cons_self) (ih fun y hy => h y (List.mem_cons_of_mem _ hy))

theorem paired_send (c : Cyclic L) (dev : Device) (index : UInt8) : Paired (c.send dev index).1 := by
  have hw := c.walk_buildFrame index
  have ha := (c.buildFrame_builds index).appended
  refine ⟨c.txLen_buildFrame index, ⟨c.lrwDatagram index, (c.appendix (index + 1)).map Prod.snd, hw, rfl, ?_, ?_, ?_⟩, ?_⟩
  · exact (c.expectedIndex_buildFrame index).symm
  · exact congrArg EcDomain.image (c.send_keeps dev index).domain.symm
  · change List.Forall₂ _ (c.buildFrame index).1.appended _
    rw [ha]
    exact forall₂_map_of_mem (c.stands_appendix index)
  · intro d latency reply hm hk
    refine decodes_of_walk (c := (c.send dev index).1) hw ?_ d latency hm hk
    change _ = (c.buildFrame index).1.appended.length
    rw [ha, List.length_map, List.length_map]

end Cyclic

namespace Firmware

variable {L : Layout}

theorem paired_run (es : List Event) :
    ∀ c, (run step (init L) es).cyclic = some c → c.outstanding = true → c.Paired := by
  apply run_invariant step (I := fun s : Firmware L => ∀ c, s.cyclic = some c → c.outstanding = true → c.Paired)
  · intro c hc
    exact absurd hc (by simp [init])
  · intro s e h c hc ho
    rcases step_cyclic s e with hs | hs | ⟨slaves, cycleNs, -, hs⟩ | ⟨dev, latency, c', -, hc', hs⟩
    · exact h c (hs ▸ hc) ho
    · rw [hs] at hc
      exact absurd hc (by simp)
    · rw [hs] at hc
      obtain rfl := Option.some.inj hc
      exact absurd ho (by simp [Cyclic.new])
    · rw [hs] at hc
      obtain rfl := Option.some.inj hc
      rw [Cyclic.tickWithHost_cyclic]
      exact Cyclic.paired_send _ _ _

/-- In every tick of every run the reply is decoded with the kinds of the frame that it answers, and the frame
that the tick builds belongs to the kinds it leaves for the next one. -/
theorem frames_paired {es : List Event} {c : Cyclic L} {host : HostBridge L} {dev : Device} {index : UInt8}
    {latency : UInt32} (ht : TakesTick es c host dev index latency) :
    (c.outstanding = true → c.Paired) ∧ (c.tickWithHost dev index latency host).cyclic.Paired := by
  obtain ⟨pre, post, -, hs⟩ := ht
  refine ⟨fun ho => paired_run pre c (by rw [← hs]) ho, ?_⟩
  rw [Cyclic.tickWithHost_cyclic]
  exact Cyclic.paired_send _ _ _

def askingOp : List Event :=
  let lrw := fun index => answerFrame .lrw index [0, 0, 0, 0, 0] 3 []
  .start [⟨0x1001, 0⟩, ⟨0x1002, 1⟩] 1000000 0 ::
    [[], [lrw 0], [lrw 1], [lrw 2], [lrw 3]].map fun rx => .tick (Device.receiving rx) 0

def saysOp : List UInt8 :=
  answerFrame .lrw 5 [0, 0, 0, 0, 0] 3 [0x04, 6, 0x01, 0x10, 0x30, 0x01, 2, 0, 0, 0, 0x08, 0, 1, 0]

theorem frames_paired_status : ∃ c host index,
    TakesTick (L := oneDrive 1) (askingOp ++ [.tick (Device.receiving [saysOp]) 0]) c host
        (Device.receiving [saysOp]) index 0 ∧ c.phase = .requestingOp ∧ c.appended = [.status 0] ∧
      (c.received (Device.receiving [saysOp]) 0).reached 0 = true ∧
      (c.received (Device.receiving [saysOp]) 0).reached 1 = false := by
  obtain ⟨c, host, index, hs, hp, ha, ho, hm, hk, h₁, hl⟩ : ∃ c host index,
      run step (init (oneDrive 1)) askingOp = ⟨some c, host, index⟩ ∧ c.phase = .requestingOp ∧
      c.appended = [.status 0] ∧ c.outstanding = true ∧ c.matched (Device.receiving [saysOp]) = some saysOp ∧
      KeepsStructure c.sentFrame saysOp ∧ c.reached 1 = false ∧ c.slaves.length = 2 :=
    ⟨_, _, _, rfl, by decide +kernel, by decide +kernel, by decide +kernel, by decide +kernel,
      by unfold KeepsStructure; decide +kernel, by decide +kernel, by decide +kernel⟩
  have ht : TakesTick (L := oneDrive 1) (askingOp ++ [.tick (Device.receiving [saysOp]) 0]) c host
      (Device.receiving [saysOp]) index 0 := ⟨askingOp, [], rfl, hs.symm⟩
  obtain ⟨lrw, ds, hw, -, -, -, hd⟩ := ((frames_paired ht).1 ho).decodes _ 0 saysOp hm hk
  have hds : ds = (walk saysOp).tail := by rw [hw, List.tail_cons]
  have hanswers : c.appended.zip (ds.map Walked.reply) = [(.status 0, ⟨0x04, 6, 1, [0x08, 0]⟩)] := by
    rw [ha, hds]
    decide +kernel
  rw [hanswers] at hd
  refine ⟨c, host, index, ht, hp, ha, ?_, ?_⟩
  · exact (hd.reached_iff (by omega)).mpr (Or.inr ⟨_, List.mem_singleton_self _, by unfold ReportsOp; decide⟩)
  · rw [Bool.eq_false_iff, Ne, hd.reached_iff (by omega)]
    simp [h₁]

end Firmware

end EcMaster

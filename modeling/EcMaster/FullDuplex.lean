import EcMaster.HostDuplex
import EcMaster.HostReply
import EcMaster.SpiFraming

namespace EcMaster

open Library.Run Library.Segment

namespace HostDuplex

variable {L : Layout}

def words (es : List (DuplexEvent L)) : List UInt8 :=
  es.filterMap fun
    | .word w => some w
    | _ => none

def pending (s : HostDuplex L) : ℕ := if s.feed = .word then 1 else 0

/-- The host is not a whole FIFO ahead of the task, and no error is raised. -/
def Undisturbed (s : HostDuplex L) : DuplexEvent L → Prop
  | .word _ => s.half.rxFifo.length + s.pending < fifoDepth
  | .error => False
  | _ => True

structure Sending (t : List UInt8) (k : ℕ) (s : HostDuplex L) : Prop where
  staged : s.tx.take (frameLen L) = t
  txIdx : s.txIdx = min (frameLen L) (fifoDepth + s.half.rxIdx - s.pending)
  txFifo : s.txFifo = (t.take s.txIdx).drop k
  ahead : s.half.rxFifo.length + s.pending ≤ fifoDepth
  feed : s.feed ≠ .refill

structure Staged (r : List UInt8) (s : HostDuplex L) : Prop where
  staged : s.tx.take (frameLen L) = r
  le : s.txIdx ≤ min (frameLen L) fifoDepth
  txIdx : s.feed = .none → s.txIdx = min (frameLen L) fifoDepth
  txFifo : s.txFifo = r.take s.txIdx
  feed : s.feed ≠ .word

structure Relays (frames replies : List (List UInt8)) (miso : List (Option UInt8)) (t ws : List UInt8)
    (s : HostDuplex L) : Prop where
  recv : s.half.Receives frames [] ws
  length_tx : s.tx.length = hostSpiMaxFrame
  length_nextTx : s.nextTx.length = hostSpiMaxFrame
  miso : s.miso = miso ++ (t.take ws.length).map some
  out : s.half.frames = frames ∧ s.replies = replies ∧ s.Sending t ws.length ∨
    s.half.frames ≠ frames ∧ ∃ r, s.replies = replies ++ [r] ∧ s.Staged (r.take (frameLen L))

variable {frames replies : List (List UInt8)} {miso : List (Option UInt8)} {t ws : List UInt8} {s : HostDuplex L}

theorem filling_of (h : s.half.Receives frames [] ws) (hf : s.half.frames = frames) : s.half.Filling frames [] ws := by
  rcases h.bytes with hb | hb
  · exact hb
  · have hl := congrArg List.length (hb.frames.symm.trans hf)
    rw [List.length_append, List.length_singleton] at hl
    omega

theorem filled_of (h : s.half.Receives frames [] ws) (hf : s.half.frames ≠ frames) : s.half.Filled frames [] ws := by
  rcases h.bytes with hb | hb
  · exact absurd hb.frames hf
  · exact hb

theorem length_bytes (h : s.half.Receives frames [] ws) (hf : s.half.frames = frames) :
    s.half.rxIdx + s.half.rxFifo.length = ws.length := by
  have hb := congrArg List.length (filling_of h hf).bytes
  have hi : s.half.rxIdx ≤ s.half.rx.length := by
    rw [h.sound.length_rx]
    have hle := HostSpi.frameLen_le L
    by_cases ht : s.half.task = .complete
    · rw [h.sound.complete_of ht]
      exact hle
    · have := h.sound.partial_of ht
      omega
  simp only [List.length_append, List.length_take, List.nil_append] at hb
  omega

theorem length_staged (hl : s.tx.length = hostSpiMaxFrame) (hs : s.tx.take (frameLen L) = t) :
    t.length = frameLen L := by
  rw [← hs, List.length_take, hl]
  exact min_eq_left (HostSpi.frameLen_le L)

theorem Relays.word (h : s.Relays frames replies miso t ws) {w : UInt8} (hw : s.half.rxFifo.length + s.pending < fifoDepth)
    (hl : ws.length < frameLen L) : (s.clock w).Relays frames replies miso t (ws ++ [w]) := by
  rcases h.out with ⟨hf, hr, hs⟩ | ⟨hf, -⟩
  · have hb := length_bytes h.recv hf
    have ht := length_staged h.length_tx hs.staged
    have hi := hs.txIdx
    have hk : ws.length < (t.take s.txIdx).length := by
      rw [List.length_take, ht]
      omega
    have hfifo : s.txFifo = (t.take s.txIdx)[ws.length] :: (t.take s.txIdx).drop (ws.length + 1) := by
      rw [hs.txFifo, List.drop_eq_getElem_cons hk]
    have hne : s.txFifo ≠ [] := by simp [hfifo]
    have hrecv := h.recv.word (w := w) (by omega)
    rw [clock, if_neg hne]
    refine ⟨hrecv, h.length_tx, h.length_nextTx, ?_, Or.inl ⟨?_, hr, hs.staged, ?_, ?_, ?_, hs.feed⟩⟩
    · have hx : t[ws.length]? = some (t.take s.txIdx)[ws.length] := by
        rw [List.getElem_take, List.getElem?_eq_getElem]
      simp only [hfifo, List.head?_cons, h.miso, List.length_append, List.length_singleton, List.take_add_one, hx,
        List.map_append, List.append_assoc]
      rfl
    · rw [HostSpi.clock]
      split <;> exact hf
    · have hc : (s.half.clock w).rxIdx = s.half.rxIdx := by
        rw [HostSpi.clock]
        split <;> rfl
      simp only [hc]
      exact hi
    · simp only [hfifo, List.tail_cons, List.length_append, List.length_singleton]
    · rw [HostSpi.clock, if_pos (by omega)]
      simp only [List.length_append, List.length_singleton, pending] at hw ⊢
      omega
  · have := (filled_of h.recv hf).enough
    simp only [List.nil_append] at this
    exact absurd hl (by rw [frameLen]; omega)

theorem push_room (hs : s.Sending t ws.length) (hb : s.half.rxIdx + s.half.rxFifo.length = ws.length)
    (hl : s.tx.length = hostSpiMaxFrame) (hf : s.feed = .word) (hi : s.txIdx < frameLen L) :
    s.pushTxWord = { s with txFifo := (t.take (s.txIdx + 1)).drop ws.length, txIdx := s.txIdx + 1 } := by
  have hx := hs.txIdx
  have ha := hs.ahead
  have ht := length_staged hl hs.staged
  have hp : s.pending = 1 := if_pos hf
  have hd : fifoDepth = 16 := rfl
  have hle : s.txFifo.length < fifoDepth := by
    rw [hs.txFifo, List.length_drop, List.length_take]
    omega
  have hw : ws.length ≤ (t.take s.txIdx).length := by
    rw [List.length_take, ht]
    omega
  have hlt : s.txIdx < s.tx.length := by
    have := HostSpi.frameLen_le L
    rw [frameLen] at hi
    omega
  have hnext : [s.tx.getD s.txIdx 0] = (t[s.txIdx]?).toList := by
    rw [← hs.staged, List.getElem?_take_of_lt hi, List.getD_eq_getElem?_getD, List.getElem?_eq_getElem hlt]
    rfl
  rw [pushTxWord, if_neg (by omega), if_neg (by omega), hs.txFifo, List.take_add_one,
    List.drop_append_of_le_length hw, hnext]

theorem Relays.push (h : s.Relays frames replies miso t ws) (hf : s.feed = .word) :
    ({ s.pushTxWord with feed := .none } : HostDuplex L).Relays frames replies miso t ws := by
  rcases h.out with ⟨hfr, hr, hs⟩ | ⟨-, r, -, hs⟩
  · have hb := length_bytes h.recv hfr
    have hx := hs.txIdx
    have ha := hs.ahead
    have hp : s.pending = 1 := if_pos hf
    have hd : fifoDepth = 16 := rfl
    by_cases hi : s.txIdx < frameLen L
    · rw [push_room hs hb h.length_tx hf hi]
      refine ⟨h.recv, h.length_tx, h.length_nextTx, h.miso, Or.inl ⟨hfr, hr, hs.staged, ?_, rfl, ?_, by simp⟩⟩
      · simp only [pending]
        simp
        omega
      · simp only [pending]
        simp
        omega
    · rw [pushTxWord, if_pos (by omega)]
      refine ⟨h.recv, h.length_tx, h.length_nextTx, h.miso, Or.inl ⟨hfr, hr, hs.staged, ?_, hs.txFifo, ?_, by simp⟩⟩
      · simp only [pending]
        simp
        omega
      · simp only [pending]
        simp
        omega
  · exact absurd hf hs.feed

theorem frames_drainWord (s : HostSpi L) : s.drainWord.frames = s.frames := by
  rw [HostSpi.drainWord]
  split
  · rfl
  · rw [HostSpi.store]
    split <;> rfl

theorem receives_serve (h : s.half.Receives frames [] ws) (hl : ws.length ≤ frameLen L) :
    s.half.serve.Receives frames [] ws := by
  have hpos := HostSpi.frameLen_pos L
  rw [frameLen] at hl
  have hs := h.step (e := .run) trivial (by
    rw [HostSpi.words, List.filterMap_cons, List.filterMap_nil, List.append_nil, List.nil_append]
    omega)
  rw [HostSpi.words, List.filterMap_cons, List.filterMap_nil, List.append_nil] at hs
  exact hs

theorem Relays.wake (h : s.Relays frames replies miso t ws) (ht : s.half.task = .waiting)
    (hl : ws.length ≤ frameLen L) : ({ s with half := s.half.serve } : HostDuplex L).Relays frames replies miso t ws := by
  have hserve : s.half.serve = { s.half with task := .draining } := by
    rw [HostSpi.serve, ht]
    simp [h.recv.errorFlag]
  have hrecv := receives_serve h.recv hl
  rw [hserve] at hrecv ⊢
  exact ⟨hrecv, h.length_tx, h.length_nextTx, h.miso, by
    rcases h.out with ⟨hfr, hr, hs⟩ | ⟨hfr, r, hr, hs⟩
    · exact Or.inl ⟨hfr, hr, hs.staged, hs.txIdx, hs.txFifo, hs.ahead, hs.feed⟩
    · exact Or.inr ⟨hfr, r, hr, hs.staged, hs.le, hs.txIdx, hs.txFifo, hs.feed⟩⟩

theorem Relays.drain (h : s.Relays frames replies miso t ws) (hf : s.feed = .none) (ht : s.half.task = .draining)
    (hl : ws.length ≤ frameLen L) :
    ({ s with half := s.half.serve, feed := if s.half.rxFifo = [] then .none else .word } :
      HostDuplex L).Relays frames replies miso t ws := by
  have hrecv := receives_serve h.recv hl
  have hserve : s.half.serve = s.half.drainWord := by rw [HostSpi.serve, ht]
  have hfr' := frames_drainWord s.half
  have hp : s.pending = 0 := if_neg (by simp [hf])
  have hpart := h.recv.sound.partial_of (by simp [ht])
  rw [hserve] at hrecv ⊢
  refine ⟨hrecv, h.length_tx, h.length_nextTx, h.miso, ?_⟩
  rcases h.out with ⟨hfr, hr, hs⟩ | ⟨hfr, r, hr, hs⟩
  · have hx := hs.txIdx
    have ha := hs.ahead
    rw [hp] at hx ha
    refine Or.inl ⟨hfr'.trans hfr, hr, hs.staged, ?_, hs.txFifo, ?_, ?_⟩
    · rcases hq : s.half.rxFifo with _ | ⟨w, rest⟩
      · simp [HostSpi.drainWord, hq, pending, hx]
      · simp [HostSpi.drainWord, hq, HostSpi.store, hpart, pending, hx]
    · rcases hq : s.half.rxFifo with _ | ⟨w, rest⟩
      · simp [HostSpi.drainWord, hq, pending]
      · simpa [HostSpi.drainWord, hq, HostSpi.store, hpart, pending] using ha
    · dsimp only
      split <;> simp
  · have hq : s.half.rxFifo = [] := by
      have hr := (filled_of h.recv hfr).rest
      rw [frameLen] at hl
      rw [List.nil_append] at hr
      apply List.eq_nil_of_length_eq_zero
      omega
    refine Or.inr ⟨by rw [hfr']; exact hfr, r, hr, hs.staged, hs.le, fun _ => hs.txIdx hf, hs.txFifo, ?_⟩
    simp [hq]

theorem frameLen_le_replyFrame (h : HostBridge L) : frameLen L ≤ (replyFrame h).length := by
  rw [replyFrame, length_overwrite, List.length_replicate]
  exact min_le_left _ _

theorem length_setNextTx (s : HostDuplex L) (frame : List UInt8) :
    (s.setNextTx frame).nextTx.length = s.nextTx.length := by
  simp [setNextTx]

theorem take_setNextTx (hl : s.nextTx.length = hostSpiMaxFrame) {frame : List UInt8} (hf : frameLen L ≤ frame.length) :
    (s.setNextTx frame).nextTx.take (frameLen L) = frame.take (frameLen L) := by
  have hle := HostSpi.frameLen_le L
  have ht : (frame.take (frameLen L)).length = frameLen L := by simpa using hf
  simp only [setNextTx, min_eq_right hf, Nat.sub_self, List.replicate_zero, overwrite_nil_src]
  rw [overwrite_front _ _ (by rw [ht, hl]; exact hle), List.take_left' ht]

theorem take_beginNextFrame (hx : s.tx.length = hostSpiMaxFrame) (hn : s.nextTx.length = hostSpiMaxFrame) :
    s.beginNextFrame.tx.take (frameLen L) = s.nextTx.take (frameLen L) := by
  have hle := HostSpi.frameLen_le L
  rw [← frameLen] at hle
  have ht : (s.nextTx.take (frameLen L)).length = frameLen L := by
    rw [List.length_take]
    omega
  rw [beginNextFrame, overwrite_front _ _ (by omega), List.take_left' ht]

theorem Relays.finish (h : s.Relays frames replies miso t ws) (ht : s.half.task = .complete)
    (hl : ws.length ≤ frameLen L) : s.finish.Relays frames replies miso t ws := by
  have hrecv := receives_serve h.recv hl
  have hserve : s.half.serve = ({ s.half with frames := s.half.frames ++ [s.half.rxFrame] } : HostSpi L).beginNextFrame := by
    simp only [HostSpi.serve, ht, HostSpi.beginNextFrame]
  rw [hserve] at hrecv
  have hle := HostSpi.frameLen_le L
  rcases h.out with ⟨hfr, hr, hs⟩ | ⟨hfr, -⟩
  · refine ⟨hrecv, ?_, ?_, h.miso, Or.inr ⟨?_, replyFrame (s.bridge.ingest s.half.rxFrame), ?_, ?_, ?_, ?_, rfl, ?_⟩⟩
    · simpa [HostDuplex.finish, beginNextFrame, setNextTx, ingest] using h.length_tx
    · simpa [HostDuplex.finish, beginNextFrame, setNextTx, ingest] using h.length_nextTx
    · change s.half.frames ++ [s.half.rxFrame] ≠ frames
      simp [hfr]
    · simp [HostDuplex.finish, beginNextFrame, setNextTx, ingest, hr]
    · have hn : (s.ingest.setNextTx (replyFrame s.ingest.bridge)).nextTx.length = hostSpiMaxFrame := by
        rw [length_setNextTx]
        exact h.length_nextTx
      rw [HostDuplex.finish, take_beginNextFrame (s := s.ingest.setNextTx _) h.length_tx hn]
      exact take_setNextTx (s := s.ingest) h.length_nextTx (frameLen_le_replyFrame s.ingest.bridge)
    · simp [HostDuplex.finish, beginNextFrame]
    · simp [HostDuplex.finish, beginNextFrame]
    · simp [HostDuplex.finish, beginNextFrame]
  · exact absurd ht (filled_of h.recv hfr).task

theorem Relays.reload (h : s.Relays frames replies miso t ws) (hf : s.feed = .refill) :
    s.reloadWord.Relays frames replies miso t ws := by
  rcases h.out with ⟨-, -, hs⟩ | ⟨hfr, r, hr, hs⟩
  · exact absurd hf hs.feed
  · have hle := hs.le
    have hr' := length_staged h.length_tx hs.staged
    have hl : s.txFifo.length = s.txIdx := by
      rw [hs.txFifo, List.length_take, hr']
      omega
    rw [reloadWord]
    split
    next hc =>
      refine ⟨h.recv, h.length_tx, h.length_nextTx, h.miso, Or.inr ⟨hfr, r, hr, hs.staged, hle, ?_, hs.txFifo, by simp⟩⟩
      intro _
      dsimp only
      omega
    next hc =>
      have hi : s.txIdx < frameLen L := by omega
      have hlt : s.txIdx < s.tx.length := by
        have := HostSpi.frameLen_le L
        have := h.length_tx
        rw [frameLen] at hi
        omega
      rw [pushTxWord, if_neg (by omega), if_neg (by omega)]
      refine ⟨h.recv, h.length_tx, h.length_nextTx, h.miso,
        Or.inr ⟨hfr, r, hr, hs.staged, ?_, fun hc => by simp [hf] at hc, ?_, hs.feed⟩⟩
      · dsimp only
        omega
      · dsimp only
        rw [List.take_add_one, ← hs.txFifo, ← hs.staged, List.getElem?_take_of_lt hi, List.getElem?_eq_getElem hlt,
          List.getD_eq_getElem _ _ hlt]
        rfl

theorem Relays.step (h : s.Relays frames replies miso t ws) {e : DuplexEvent L} (he : s.Undisturbed e)
    (hl : (ws ++ words [e]).length ≤ frameLen L) : (s.step e).Relays frames replies miso t (ws ++ words [e]) := by
  cases e with
  | word w =>
    apply h.word he
    simpa [words] using hl
  | error => exact absurd he id
  | cyclic f =>
    have hw : ws ++ words [DuplexEvent.cyclic f] = ws := List.append_nil ws
    rw [hw]
    exact ⟨h.recv, h.length_tx, h.length_nextTx, h.miso, by
      rcases h.out with ⟨hfr, hr, hs⟩ | ⟨hfr, r, hr, hs⟩
      · exact Or.inl ⟨hfr, hr, hs.staged, hs.txIdx, hs.txFifo, hs.ahead, hs.feed⟩
      · exact Or.inr ⟨hfr, r, hr, hs.staged, hs.le, hs.txIdx, hs.txFifo, hs.feed⟩⟩
  | run =>
    have hw : ws ++ words [(DuplexEvent.run : DuplexEvent L)] = ws := List.append_nil ws
    rw [hw] at hl ⊢
    rw [HostDuplex.step, serve]
    cases hf : s.feed with
    | word => exact h.push hf
    | refill => exact h.reload hf
    | none =>
      cases ht : s.half.task with
      | waiting =>
        dsimp only
        rw [if_neg (by simp [h.recv.errorFlag])]
        have hw := h.wake ht hl
        rw [hf] at hw
        exact hw
      | draining => exact h.drain hf ht hl
      | complete => exact h.finish ht hl

theorem words_append (es fs : List (DuplexEvent L)) : words (es ++ fs) = words es ++ words fs := List.filterMap_append

theorem run_relays (h : s.Relays frames replies miso t []) {es : List (DuplexEvent L)}
    (hl : (words es).length ≤ frameLen L) (hu : Along step Undisturbed s es) :
    (run step s es).Relays frames replies miso t (words es) := by
  rw [along_iff] at hu
  induction es using List.reverseRecOn with
  | nil => exact h
  | append_singleton es e ih =>
    rw [words_append] at hl ⊢
    rw [run_concat]
    have hle : (words es).length ≤ frameLen L := by
      rw [List.length_append] at hl
      omega
    exact (ih hle fun c f ht => hu c f (takes_concat.mpr (Or.inl ht))).step (hu _ _ (takes_last s es e)) hl

/-- The task waits at the start of a frame, and has put the first words of `t` into the FIFO. -/
structure Ready (t : List UInt8) (s : HostDuplex L) : Prop where
  half : s.half.Settled
  sound : s.half.Sound
  rxIdx : s.half.rxIdx = 0
  feed : s.feed = .none
  length_tx : s.tx.length = hostSpiMaxFrame
  length_nextTx : s.nextTx.length = hostSpiMaxFrame
  staged : s.tx.take (frameLen L) = t
  txIdx : s.txIdx = min (frameLen L) fifoDepth
  txFifo : s.txFifo = t.take s.txIdx

theorem Ready.relays (h : s.Ready t) : s.Relays s.half.frames s.replies s.miso t [] := by
  have hp : s.pending = 0 := if_neg (by simp [h.feed])
  have hr := h.half.receives h.sound
  rw [h.rxIdx, List.take_zero] at hr
  refine ⟨hr, h.length_tx, h.length_nextTx, by simp, Or.inl ⟨rfl, rfl, h.staged, ?_, h.txFifo, ?_, by simp [h.feed]⟩⟩
  · rw [h.txIdx, h.rxIdx, hp]
    rfl
  · rw [h.half.rxFifo, hp]
    decide

theorem Relays.settle (h : s.Relays frames replies miso t ws) (hl : ws.length = frameLen L) (ht : t.length = frameLen L)
    (hs : s.half.Settled) (hf : s.feed = .none) :
    s.half.frames = frames ++ [ws] ∧ s.miso = miso ++ t.map some ∧
      ∃ r, s.replies = replies ++ [r] ∧ s.Ready (r.take (frameLen L)) := by
  rcases h.out with ⟨hfr, -, -⟩ | ⟨hfr, r, hr, hst⟩
  · have hb := length_bytes h.recv hfr
    have hp := h.recv.sound.partial_of (by simp [hs.task])
    rw [hs.rxFifo, List.length_nil, hl] at hb
    rw [frameLen] at hb
    omega
  · have hfill := filled_of h.recv hfr
    refine ⟨?_, ?_, r, hr, hs, h.recv.sound, ?_, hf, h.length_tx, h.length_nextTx, hst.staged, hst.txIdx hf, hst.txFifo⟩
    · rw [hfill.frames, List.nil_append, List.take_of_length_le (by rw [hl, frameLen])]
    · rw [h.miso, hl, List.take_of_length_le ht.le]
    · have := hfill.rest
      rw [List.nil_append, hl, frameLen] at this
      omega

theorem new_ready (bridge : HostBridge L) : (new bridge).Ready (List.replicate (frameLen L) 0) := by
  have hle := HostSpi.frameLen_le L
  rw [← frameLen] at hle
  refine ⟨⟨rfl, rfl, rfl⟩, HostSpi.new_sound, rfl, rfl, List.length_replicate, List.length_replicate, ?_, rfl, ?_⟩
  · simp only [new, List.take_replicate, min_eq_left hle]
  · simp [new, List.take_replicate]

/-- Whole transfers one after another, the task back at rest behind each of them. -/
def Session (s : HostDuplex L) : List (List (DuplexEvent L)) → Prop
  | [] => True
  | es :: rest => (words es).length = frameLen L ∧ Along step Undisturbed s es ∧ (run step s es).half.Settled ∧
      (run step s es).feed = .none ∧ Session (run step s es) rest

instance (s : HostDuplex L) : ∀ e, Decidable (s.Undisturbed e)
  | .word _ => inferInstanceAs (Decidable (_ < _))
  | .error => inferInstanceAs (Decidable False)
  | .run => inferInstanceAs (Decidable True)
  | .cyclic _ => inferInstanceAs (Decidable True)

instance decidableSession : ∀ (s : HostDuplex L) ess, Decidable (s.Session ess)
  | _, [] => inferInstanceAs (Decidable True)
  | s, es :: rest =>
    have := decidableSession (run step s es) rest
    inferInstanceAs (Decidable (_ ∧ _ ∧ _ ∧ _ ∧ _))

theorem session_relays (ht : t.length = frameLen L) (hs : s.Ready t) {ess : List (List (DuplexEvent L))}
    (h : s.Session ess) : (run step s ess.flatten).half.frames = s.half.frames ++ ess.map words ∧
      ∃ rs, rs.length = ess.length ∧ (run step s ess.flatten).replies = s.replies ++ rs ∧
        (run step s ess.flatten).miso =
          s.miso ++ ((t :: rs.map fun r => r.take (frameLen L)).take ess.length).flatten.map some := by
  induction ess generalizing s t with
  | nil => exact ⟨by simp, [], by simp⟩
  | cons es rest ih =>
    obtain ⟨hl, hu, hh, hf, hrest⟩ := h
    have hrel := run_relays hs.relays hl.le hu
    obtain ⟨hfr, hm, r, hr, hready⟩ := hrel.settle hl ht hh hf
    have htr : (r.take (frameLen L)).length = frameLen L := length_staged hready.length_tx hready.staged
    obtain ⟨hfr', rs, hrl, hr', hm'⟩ := ih htr hready hrest
    rw [List.flatten_cons, run_append]
    refine ⟨by rw [hfr', hfr]; simp, r :: rs, by simp [hrl], by rw [hr', hr]; simp, ?_⟩
    rw [hm', hm]
    simp [List.map_append]

/-- In every session since the start, whatever the interleaving of the host's words, the task and the cyclic tick, the
bridge is handed the host's frames and the host reads in each transfer the reply of the transfer before. -/
theorem session_exchanges (bridge : HostBridge L) (ess : List (List (DuplexEvent L))) (h : (new bridge).Session ess) :
    let s := run step (new bridge) ess.flatten
    s.half.frames = ess.map words ∧ s.replies.length = ess.length ∧
      s.miso = ((List.replicate (frameLen L) 0 :: s.replies.map fun r => r.take (frameLen L)).take
        ess.length).flatten.map some := by
  obtain ⟨hf, rs, hl, hr, hm⟩ := session_relays List.length_replicate (new_ready bridge) h
  have hr' : (run step (new bridge) ess.flatten).replies = rs := by
    rw [hr]
    rfl
  refine ⟨by rw [hf]; rfl, by rw [hr', hl], ?_⟩
  rw [hr', hm]
  rfl

def transferOf (ws : List UInt8) : List (DuplexEvent L) :=
  (ws.flatMap fun w => [.word w, .run, .run, .run, .run]) ++ List.replicate 21 .run

theorem session_exchanges_twice :
    (run step (new (HostBridge.new (oneDrive 1))) [transferOf HostSpi.numbered, transferOf HostSpi.numbered].flatten).half.frames =
      [words (transferOf (L := oneDrive 1) HostSpi.numbered), words (transferOf (L := oneDrive 1) HostSpi.numbered)] :=
  (session_exchanges (HostBridge.new (oneDrive 1)) [transferOf HostSpi.numbered, transferOf HostSpi.numbered]
    (by decide +kernel)).1

end HostDuplex

end EcMaster

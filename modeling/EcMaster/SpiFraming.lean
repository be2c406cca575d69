import EcMaster.HostSpi

namespace EcMaster

open Library.Run

namespace HostSpi

variable {L : Layout}

def words (es : List SpiEvent) : List UInt8 :=
  es.filterMap fun
    | .word w => some w
    | _ => none

/-- The host has paused for long enough: the FIFO is drained and the task waits. -/
structure Settled (s : HostSpi L) : Prop where
  task : s.task = .waiting
  rxFifo : s.rxFifo = []
  errorFlag : s.errorFlag = false

/-- No word is lost and no error is raised. -/
def Undisturbed (s : HostSpi L) : SpiEvent → Prop
  | .word _ => s.rxFifo.length < fifoDepth
  | .error => False
  | .run => True

instance (s : HostSpi L) : Decidable s.Settled :=
  decidable_of_iff (s.task = .waiting ∧ s.rxFifo = [] ∧ s.errorFlag = false)
    ⟨fun h => ⟨h.1, h.2.1, h.2.2⟩, fun h => ⟨h.task, h.rxFifo, h.errorFlag⟩⟩

instance (s : HostSpi L) : ∀ e, Decidable (s.Undisturbed e)
  | .word _ => inferInstanceAs (Decidable (_ < _))
  | .error => inferInstanceAs (Decidable False)
  | .run => inferInstanceAs (Decidable True)

structure Filling (frames : List (List UInt8)) (held ws : List UInt8) (s : HostSpi L) : Prop where
  frames : s.frames = frames
  bytes : s.rx.take s.rxIdx ++ s.rxFifo = held ++ ws

structure Filled (frames : List (List UInt8)) (held ws : List UInt8) (s : HostSpi L) : Prop where
  frames : s.frames = frames ++ [(held ++ ws).take (frameLen L)]
  enough : frameLen L ≤ (held ++ ws).length
  rest : s.rxIdx + s.rxFifo.length + frameLen L ≤ (held ++ ws).length
  task : s.task ≠ .complete

structure Receives (frames : List (List UInt8)) (held ws : List UInt8) (s : HostSpi L) : Prop where
  sound : s.Sound
  errorFlag : s.errorFlag = false
  bytes : s.Filling frames held ws ∨ s.Filled frames held ws

variable {frames : List (List UInt8)} {held ws : List UInt8} {s : HostSpi L}

theorem Receives.word (h : s.Receives frames held ws) {w : UInt8} (hw : s.rxFifo.length < fifoDepth) :
    (s.clock w).Receives frames held (ws ++ [w]) := by
  have hs : (s.clock w).Sound := h.sound.step (.word w)
  rw [clock, if_pos hw] at hs ⊢
  refine ⟨hs, h.errorFlag, ?_⟩
  rcases h.bytes with hb | hb
  · refine Or.inl ⟨hb.frames, ?_⟩
    dsimp only
    rw [← List.append_assoc, hb.bytes, List.append_assoc]
  · have he := hb.enough
    have hr := hb.rest
    refine Or.inr ⟨?_, ?_, ?_, hb.task⟩
    · rw [hb.frames, ← List.append_assoc, List.take_append_of_le_length hb.enough]
    · rw [← List.append_assoc, List.length_append]
      omega
    · rw [← List.append_assoc, List.length_append, List.length_append]
      simp only [List.length_singleton]
      omega

theorem Receives.drain (h : s.Receives frames held ws) (ht : s.task = .draining)
    (hl : (held ++ ws).length < 2 * frameLen L) : s.drainWord.Receives frames held ws := by
  have hs := h.sound.drainWord ht
  have hp := h.sound.partial_of (by rw [ht]; decide)
  refine ⟨hs, ?_, ?_⟩
  · rw [drainWord]
    split
    · exact h.errorFlag
    · rw [store]
      split_ifs <;> exact h.errorFlag
  · rw [drainWord]
    cases hf : s.rxFifo with
    | nil =>
      rcases h.bytes with hb | hb
      · exact Or.inl ⟨hb.frames, by rw [← hb.bytes, hf]⟩
      · have hr := hb.rest
        rw [hf] at hr
        exact Or.inr ⟨hb.frames, hb.enough, hr, fun h => by cases h⟩
    | cons w rest =>
      simp only [store, if_pos hp]
      rcases h.bytes with hb | hb
      · refine Or.inl ⟨hb.frames, ?_⟩
        have hlen : s.rxIdx < s.rx.length := by
          rw [h.sound.length_rx]
          exact lt_of_lt_of_le hp (frameLen_le L)
        dsimp only
        rw [take_set hlen, List.append_assoc, List.singleton_append, ← hf]
        exact hb.bytes
      · have hr := hb.rest
        rw [hf, List.length_cons] at hr
        refine Or.inr ⟨hb.frames, hb.enough, by dsimp only; omega, ?_⟩
        dsimp only
        rw [if_neg (by omega)]
        exact fun h => by cases h

theorem Receives.complete (h : s.Receives frames held ws) (ht : s.task = .complete) :
    (({ s with frames := s.frames ++ [s.rxFrame] } : HostSpi L).beginNextFrame).Receives frames held ws := by
  have hidx := h.sound.complete_of ht
  refine ⟨⟨h.sound.length_rx, fun _ => frameLen_pos L, nofun⟩, h.errorFlag, ?_⟩
  rcases h.bytes with hb | hb
  · have hbytes := hb.bytes
    rw [hidx] at hbytes
    have hlen : (s.rx.take (frameLen L)).length = frameLen L := by
      rw [List.length_take, h.sound.length_rx, min_eq_left (frameLen_le L)]
    have henough : frameLen L ≤ (held ++ ws).length := by
      rw [← hbytes, List.length_append, hlen]
      omega
    refine Or.inr ⟨?_, henough, ?_, nofun⟩
    · have hframe : (held ++ ws).take (frameLen L) = s.rx.take (frameLen L) := by
        rw [← hbytes, List.take_append_of_le_length (by rw [hlen]), List.take_of_length_le (by rw [hlen])]
      rw [hframe, ← hb.frames]
      rfl
    · change 0 + 0 + frameLen L ≤ _
      omega
  · exact absurd ht hb.task

theorem Receives.step (h : s.Receives frames held ws) {e : SpiEvent} (he : s.Undisturbed e)
    (hl : (held ++ (ws ++ words [e])).length < 2 * frameLen L) :
    (s.step e).Receives frames held (ws ++ words [e]) := by
  cases e with
  | word w => exact h.word he
  | error => exact absurd he id
  | run =>
    have hw : ws ++ words [SpiEvent.run] = ws := List.append_nil ws
    rw [hw] at hl ⊢
    rw [HostSpi.step, serve]
    cases ht : s.task with
    | waiting =>
      dsimp only
      rw [if_neg (by rw [h.errorFlag]; decide)]
      have hp := h.sound.partial_of (by rw [ht]; decide)
      refine ⟨⟨h.sound.length_rx, fun _ => hp, fun h => by cases h⟩, h.errorFlag, ?_⟩
      rcases h.bytes with hb | hb
      · exact Or.inl ⟨hb.frames, hb.bytes⟩
      · exact Or.inr ⟨hb.frames, hb.enough, hb.rest, fun h => by cases h⟩
    | draining => exact h.drain ht hl
    | complete => exact h.complete ht

theorem words_append (es fs : List SpiEvent) : words (es ++ fs) = words es ++ words fs := List.filterMap_append

theorem Settled.receives (hs : s.Settled) (h : s.Sound) : s.Receives s.frames (s.rx.take s.rxIdx) [] :=
  ⟨h, hs.errorFlag, Or.inl ⟨rfl, by rw [hs.rxFifo]⟩⟩

theorem Settled.run_receives (hs : s.Settled) (h : s.Sound) {es : List SpiEvent} (hw : (words es).length ≤ frameLen L)
    (hu : ∀ c e, Takes step s es c e → c.Undisturbed e) :
    (run step s es).Receives s.frames (s.rx.take s.rxIdx) (words es) := by
  have hidx := h.partial_of (by rw [hs.task]; decide)
  induction es using List.reverseRecOn with
  | nil => exact hs.receives h
  | append_singleton es e ih =>
    rw [words_append] at hw ⊢
    rw [run_concat]
    have hle : (words es).length ≤ frameLen L := by
      rw [List.length_append] at hw
      omega
    have ih := ih hle fun c f ht => hu c f (takes_concat.mpr (Or.inl ht))
    refine ih.step (hu _ _ (takes_last s es e)) ?_
    rw [List.length_append, List.length_take]
    omega

theorem run_sound (es : List SpiEvent) : (run step (new L) es).Sound :=
  run_invariant step (new_sound (L := L)) (fun _ e h => h.step e) es

theorem Settled.transfer (hs : s.Settled) (h : s.Sound) {es : List SpiEvent} (hw : (words es).length = frameLen L)
    (hu : ∀ c e, Takes step s es c e → c.Undisturbed e) (he : (run step s es).Settled) :
    (run step s es).frames = s.frames ++ [s.rx.take s.rxIdx ++ (words es).take (frameLen L - s.rxIdx)] := by
  have hidx := h.partial_of (by rw [hs.task]; decide)
  have hr := hs.run_receives h hw.le hu
  have hheld : (s.rx.take s.rxIdx).length = s.rxIdx := by
    rw [List.length_take, h.length_rx]
    have := frameLen_le L
    omega
  rcases hr.bytes with hb | hb
  · have hend := hr.sound.partial_of (by rw [he.task]; decide)
    have hbytes := congrArg List.length hb.bytes
    rw [he.rxFifo, List.append_nil, List.length_append, hw, List.length_take] at hbytes
    omega
  · rw [hb.frames, List.take_append, List.take_of_length_le (by omega), hheld]

def Realigns (s : HostSpi L) : SpiEvent → Prop
  | .run => s.task = .complete ∨ (s.task = .waiting ∧ s.errorFlag = true)
  | _ => False

instance (s : HostSpi L) : ∀ e, Decidable (s.Realigns e)
  | .word _ => inferInstanceAs (Decidable False)
  | .error => inferInstanceAs (Decidable False)
  | .run => inferInstanceAs (Decidable (_ ∨ _))

def heldAfter (s : HostSpi L) (held : List UInt8) : List SpiEvent → List UInt8
  | [] => held
  | e :: es => (s.step e).heldAfter (if s.Realigns e then [] else held ++ words [e]) es

/-- The words of a stream that have come since the last frame was complete or restarted. -/
def heldWords (L : Layout) (es : List SpiEvent) : List UInt8 := (new L).heldAfter [] es

theorem heldAfter_append (s : HostSpi L) (held : List UInt8) (es fs : List SpiEvent) :
    s.heldAfter held (es ++ fs) = (run step s es).heldAfter (s.heldAfter held es) fs := by
  induction es generalizing s held with
  | nil => rfl
  | cons e es ih => exact ih _ _

def Holds (s : HostSpi L) (bytes : List UInt8) : Prop := s.errorFlag = false → s.rx.take s.rxIdx ++ s.rxFifo = bytes

theorem holds_step (h : s.Sound) {bytes : List UInt8} (hb : s.Holds bytes) (e : SpiEvent) :
    (s.step e).Holds (if s.Realigns e then [] else bytes ++ words [e]) := by
  cases e with
  | word w =>
    rw [step, clock, if_neg (show ¬s.Realigns (.word w) from id)]
    split_ifs
    · intro hf
      rw [← hb hf, List.append_assoc]
      rfl
    · exact fun hf => absurd hf.symm Bool.false_ne_true
  | error => exact fun hf => absurd hf.symm Bool.false_ne_true
  | run =>
    have hnil : bytes ++ words [SpiEvent.run] = bytes := List.append_nil bytes
    rw [step, serve, hnil]
    cases ht : s.task with
    | waiting =>
      dsimp only
      by_cases hf : s.errorFlag = true
      · rw [if_pos hf, if_pos (show s.Realigns .run from Or.inr ⟨ht, hf⟩)]
        exact fun _ => rfl
      · rw [if_neg hf, if_neg (show ¬s.Realigns .run by simp [Realigns, ht, hf])]
        exact hb
    | complete =>
      rw [if_pos (show s.Realigns .run from Or.inl ht)]
      exact fun _ => rfl
    | draining =>
      rw [if_neg (show ¬s.Realigns .run by simp [Realigns, ht]), drainWord]
      have hp := h.partial_of (by rw [ht]; decide)
      have hlen : s.rxIdx < s.rx.length := by
        rw [h.length_rx]
        exact lt_of_lt_of_le hp (frameLen_le L)
      cases hfifo : s.rxFifo with
      | nil =>
        intro hf
        rw [← hb hf, hfifo]
      | cons w ws =>
        simp only [store, if_pos hp]
        intro hf
        dsimp only at hf ⊢
        rw [take_set hlen, List.append_assoc, List.singleton_append, ← hfifo]
        exact hb hf

theorem holds_run (h : s.Sound) {bytes : List UInt8} (hb : s.Holds bytes) (es : List SpiEvent) :
    (run step s es).Holds (s.heldAfter bytes es) := by
  induction es generalizing s bytes with
  | nil => exact hb
  | cons e es ih => exact ih (h.step e) (holds_step h hb e)

theorem held_settled {es : List SpiEvent} (hs : (run step (new L) es).Settled) :
    (run step (new L) es).rx.take (run step (new L) es).rxIdx = heldWords L es := by
  have hb := holds_run (new_sound (L := L)) (fun _ => rfl) es hs.errorFlag
  rwa [hs.rxFifo, List.append_nil] at hb

theorem heldWords_short {pre es : List SpiEvent}
    (hq : ∀ c e, Takes step (run step (new L) pre) es c e → ¬c.Realigns e) :
    heldWords L (pre ++ es) = heldWords L pre ++ words es := by
  rw [heldWords, heldAfter_append]
  change (run step (new L) pre).heldAfter (heldWords L pre) es = _
  generalize run step (new L) pre = s at hq
  generalize heldWords L pre = held
  induction es generalizing s held with
  | nil => exact (List.append_nil held).symm
  | cons e es ih =>
    rw [heldAfter, if_neg (hq s e (takes_head s e es)), ih _ (fun c f ht => hq c f ht.tail), List.append_assoc,
      ← words_append]
    rfl

theorem heldWords_restarted {pre es : List SpiEvent} {e : SpiEvent} (he : (run step (new L) pre).Realigns e)
    (hq : ∀ c f, Takes step (run step (new L) (pre ++ [e])) es c f → ¬c.Realigns f) :
    heldWords L (pre ++ [e] ++ es) = words es := by
  have hnil : heldWords L (pre ++ [e]) = [] := by
    rw [heldWords, heldAfter_append, heldAfter, if_pos he]
    rfl
  rw [heldWords_short hq, hnil, List.nil_append]

/-- After any stream and a pause, a complete transfer is handed on as it is if and only if it stands at the beginning
of the words that come in from the last start of a frame on. -/
theorem transfer_delivered_iff (L : Layout) (pre : List SpiEvent) (hs : (run step (new L) pre).Settled)
    {es : List SpiEvent} (hw : (words es).length = frameLen L)
    (hu : ∀ c e, Takes step (run step (new L) pre) es c e → c.Undisturbed e)
    (he : (run step (new L) (pre ++ es)).Settled) :
    (run step (new L) (pre ++ es)).frames = (run step (new L) pre).frames ++ [words es] ↔
      words es <+: heldWords L pre ++ words es := by
  have hidx := (run_sound (L := L) pre).partial_of (by rw [hs.task]; decide)
  have hheld : (heldWords L pre).length = (run step (new L) pre).rxIdx := by
    rw [← held_settled hs, List.length_take, (run_sound pre).length_rx]
    have := frameLen_le L
    omega
  have htake : (heldWords L pre ++ words es).take (words es).length =
      heldWords L pre ++ (words es).take (frameLen L - (heldWords L pre).length) := by
    rw [List.take_append, hw, List.take_of_length_le (by omega)]
  rw [run_append] at he ⊢
  rw [hs.transfer (run_sound pre) hw hu he, List.append_cancel_left_eq, List.cons.injEq, held_settled hs, ← hheld,
    List.prefix_iff_eq_take, htake, eq_comm]
  exact and_iff_left rfl

def clocked (w : UInt8) : List SpiEvent := [.word w, .run, .run, .run]

def transferOf (ws : List UInt8) : List SpiEvent := ws.flatMap clocked

def numbered : List UInt8 := (List.range (frameLen (oneDrive 1))).map UInt8.ofNat

def overrun : List SpiEvent := List.replicate 20 (.word 0x55) ++ [.run]

theorem transfer_delivered_overrun :
    (run step (new (oneDrive 1)) (overrun ++ transferOf numbered)).frames = [words (transferOf numbered)] :=
  (transfer_delivered_iff (oneDrive 1) overrun (by decide) (by decide +kernel) (along_iff.mp (by decide +kernel))
    (by decide +kernel)).mpr (by decide +kernel)

theorem transfer_shifted : ¬ ∀ pre es, (run step (new (oneDrive 1)) pre).Settled →
    (words es).length = frameLen (oneDrive 1) →
    (∀ c e, Takes step (run step (new (oneDrive 1)) pre) es c e → c.Undisturbed e) →
    (run step (new (oneDrive 1)) (pre ++ es)).Settled →
    (run step (new (oneDrive 1)) (pre ++ es)).frames = (run step (new (oneDrive 1)) pre).frames ++ [words es] := by
  intro h
  have hf := h (clocked 0x55) (transferOf numbered) (by decide) (by decide +kernel) (along_iff.mp (by decide +kernel))
    (by decide +kernel)
  exact absurd hf (by decide +kernel)

end HostSpi

end EcMaster

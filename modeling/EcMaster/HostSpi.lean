import EcMaster.Config
import EcMaster.Library.Run

namespace EcMaster

open Library.Run

def hostSpiMaxFrame : ℕ := 600

def fifoDepth : ℕ := 16

/-- Where the interrupt task stands: waiting, draining the receive FIFO, or with a complete frame in hand. -/
inductive SpiTask where
  | waiting
  | draining
  | complete
  deriving DecidableEq

/-- The receive half of the LPSPI slave and its FIFO, and beside it a record of the frames handed on. -/
structure HostSpi (L : Layout) where
  rx : List UInt8
  rxIdx : ℕ
  rxFifo : List UInt8
  errorFlag : Bool
  task : SpiTask
  frames : List (List UInt8)

/-- A word clocked by the host, an error flag raised by the hardware, and the task going on. -/
inductive SpiEvent where
  | word (w : UInt8)
  | error
  | run

namespace HostSpi

variable {L : Layout}

def frameLen (L : Layout) : ℕ := min L.frameLen hostSpiMaxFrame

def new (L : Layout) : HostSpi L := ⟨List.replicate hostSpiMaxFrame 0, 0, [], false, .waiting, []⟩

def rxFrame (s : HostSpi L) : List UInt8 := s.rx.take (frameLen L)

/-- A word that finds the FIFO full is lost and raises the receive error. -/
def clock (s : HostSpi L) (w : UInt8) : HostSpi L :=
  if s.rxFifo.length < fifoDepth then { s with rxFifo := s.rxFifo ++ [w] } else { s with errorFlag := true }

def restartFrame (s : HostSpi L) : HostSpi L := { s with rxIdx := 0, rxFifo := [], errorFlag := false, task := .waiting }

def beginNextFrame (s : HostSpi L) : HostSpi L := { s with rxIdx := 0, rxFifo := [], task := .waiting }

def store (s : HostSpi L) (w : UInt8) : HostSpi L :=
  if s.rxIdx < frameLen L then { s with rx := s.rx.set s.rxIdx w, rxIdx := s.rxIdx + 1 } else s

def drainWord (s : HostSpi L) : HostSpi L :=
  match s.rxFifo with
  | [] => { s with task := .waiting }
  | w :: ws =>
    let s := ({ s with rxFifo := ws } : HostSpi L).store w
    { s with task := if s.rxIdx ≥ frameLen L then .complete else .draining }

/-- `host_spi_task` with `service`, from one access to the FIFO to the next. -/
def serve (s : HostSpi L) : HostSpi L :=
  match s.task with
  | .waiting => if s.errorFlag then s.restartFrame else { s with task := .draining }
  | .draining => s.drainWord
  | .complete => ({ s with frames := s.frames ++ [s.rxFrame] }).beginNextFrame

def step (s : HostSpi L) : SpiEvent → HostSpi L
  | .word w => s.clock w
  | .error => { s with errorFlag := true }
  | .run => s.serve

theorem frameLen_pos (L : Layout) : 0 < frameLen L := by
  have h : 0 < L.frameLen := by
    rw [Layout.frameLen]
    split_ifs <;> simp only [Layout.mosiLen, Layout.misoLen, crcLen] <;> omega
  rw [frameLen, hostSpiMaxFrame]
  omega

/-- The buffer is as long as it was made, and a frame is complete exactly where the task has it in hand. -/
structure Sound (s : HostSpi L) : Prop where
  length_rx : s.rx.length = hostSpiMaxFrame
  partial_of : s.task ≠ .complete → s.rxIdx < frameLen L
  complete_of : s.task = .complete → s.rxIdx = frameLen L

theorem frameLen_le (L : Layout) : frameLen L ≤ hostSpiMaxFrame := min_le_right _ _

theorem take_set {xs : List UInt8} {i : ℕ} (h : i < xs.length) (w : UInt8) : (xs.set i w).take (i + 1) = xs.take i ++ [w] := by
  rw [List.take_add_one, List.take_set_of_le le_rfl, List.getElem?_set_self h]
  rfl

theorem new_sound : (new L).Sound :=
  ⟨List.length_replicate, fun _ => frameLen_pos L, nofun⟩

theorem Sound.drainWord {s : HostSpi L} (h : s.Sound) (ht : s.task = .draining) : s.drainWord.Sound := by
  have hp := h.partial_of (by rw [ht]; decide)
  rw [HostSpi.drainWord]
  cases hf : s.rxFifo with
  | nil => exact ⟨h.length_rx, fun _ => hp, nofun⟩
  | cons w ws =>
    simp only [store, if_pos hp]
    refine ⟨by rw [List.length_set]; exact h.length_rx, ?_, ?_⟩
    · intro hc
      dsimp only at hc ⊢
      by_contra hn
      exact hc (if_pos (by omega))
    · intro hc
      dsimp only at hc ⊢
      split_ifs at hc with hge
      omega

theorem Sound.step {s : HostSpi L} (h : s.Sound) (e : SpiEvent) : (s.step e).Sound := by
  cases e with
  | word w =>
    rw [HostSpi.step, clock]
    split_ifs
    · exact ⟨h.length_rx, h.partial_of, h.complete_of⟩
    · exact ⟨h.length_rx, h.partial_of, h.complete_of⟩
  | error => exact ⟨h.length_rx, h.partial_of, h.complete_of⟩
  | run =>
    rw [HostSpi.step, serve]
    cases ht : s.task with
    | waiting =>
      have hp := h.partial_of (by rw [ht]; decide)
      dsimp only
      split_ifs
      · exact ⟨h.length_rx, fun _ => frameLen_pos L, fun h => by cases h⟩
      · exact ⟨h.length_rx, fun _ => hp, fun h => by cases h⟩
    | draining => exact h.drainWord ht
    | complete => exact ⟨h.length_rx, fun _ => frameLen_pos L, fun h => by cases h⟩

end HostSpi

end EcMaster

import EcMaster.Config
import EcMaster.DatagramChain

namespace EcMaster

open Library.Segment Library.LittleEndian

inductive WkcState
  | zero
  | incomplete
  | complete
  deriving DecidableEq, Repr

structure EcDomain (bus : BusCfg) where
  image : List UInt8
  expectedWkc : UInt16
  lastWkc : UInt16
  inputRanges : List (ℕ × ℕ)
  length_image : image.length = min bus.imageSize maxImage

namespace EcDomain

variable {bus : BusCfg}

def fmmus (bus : BusCfg) : List FmmuCfg := bus.slaves.flatMap SlaveCfg.fmmus

def fmmuWkc (f : FmmuCfg) : UInt16 :=
  match f.dir with
  | .output => 2
  | .input => 1

def fromConfig (bus : BusCfg) : EcDomain bus where
  image := List.replicate (min bus.imageSize maxImage) 0
  expectedWkc := (fmmus bus).foldl (fun wkc f => wkc + fmmuWkc f) 0
  lastWkc := 0
  inputRanges := (((fmmus bus).filter fun f => f.dir = .input).map fun f => (f.logicalStart, f.size)).foldl
    (pushWithin ecMaxSlaves) []
  length_image := List.length_replicate

def buildLrw (d : EcDomain bus) (buf : List UInt8) (index : UInt8) : List UInt8 × ℕ :=
  build buf index .lrw 0x0000 0x0000 d.image

@[simp] theorem length_buildLrw (d : EcDomain bus) (buf : List UInt8) (index : UInt8) :
    (d.buildLrw buf index).1.length = buf.length :=
  length_build _ _ _ _ _ _

def copyInputs (ranges : List (ℕ × ℕ)) (data image : List UInt8) : List UInt8 :=
  ranges.foldl (fun image r =>
    let stop := min (r.1 + r.2) image.length
    if r.1 < stop ∧ stop ≤ data.length then overwrite image r.1 (slice data r.1 (stop - r.1)) else image) image

@[simp] theorem length_copyInputs (ranges : List (ℕ × ℕ)) (data image : List UInt8) :
    (copyInputs ranges data image).length = image.length := by
  induction ranges generalizing image with
  | nil => rfl
  | cons r ranges ih =>
    rw [copyInputs, List.foldl_cons]
    exact (ih _).trans (by dsimp only; split_ifs <;> simp)

def applyReply (d : EcDomain bus) (reply : Reply) : WkcState × EcDomain bus :=
  (if reply.workingCounter = 0 then .zero
    else if reply.workingCounter = d.expectedWkc then .complete else .incomplete,
    { d with
      image := copyInputs d.inputRanges reply.data d.image
      lastWkc := reply.workingCounter
      length_image := by rw [length_copyInputs, d.length_image] })

def withImage (d : EcDomain bus) (image : List UInt8) (h : image.length = d.image.length) : EcDomain bus :=
  { d with image := image, length_image := h.trans d.length_image }

end EcDomain

end EcMaster

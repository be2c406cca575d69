import EcMaster.ProcessData

namespace EcMaster

open Library.Segment Library.LittleEndian

def swFault : UInt16 := 0x0008
def swStateMask : UInt16 := 0x006F
def swSwitchOnDisabled : UInt16 := 0x0040
def swReadyToSwitchOn : UInt16 := 0x0021
def swSwitchedOn : UInt16 := 0x0023
def swOperationEnabled : UInt16 := 0x0027

def cwShutdown : UInt16 := 0x0006
def cwSwitchOn : UInt16 := 0x0007
def cwEnableOp : UInt16 := 0x000F
def cwQuickStop : UInt16 := 0x0002
def cwFaultReset : UInt16 := 0x0080
def cwDisableVoltage : UInt16 := 0x0000

structure DriveCommand where
  enable : Bool
  faultReset : Bool
  quickStop : Bool

structure Binding where
  cw : PinCfg
  sw : PinCfg
  frHigh : Bool

structure Cia402 where
  drives : List Binding

def stripSuffix (suffix name : List Char) : Option (List Char) :=
  if suffix.isSuffixOf name then some (name.take (name.length - suffix.length)) else none

def controlwordSuffix : List Char := "-controlword".toList
def statuswordSuffix : List Char := "-statusword".toList

def nextControlword (sw : UInt16) (cmd : DriveCommand) (frHigh : Bool) : UInt16 × Bool :=
  let state := sw &&& swStateMask
  if sw &&& swFault ≠ 0 then
    if cmd.faultReset then
      (if !frHigh then cwFaultReset else cwDisableVoltage, !frHigh)
    else (cwDisableVoltage, false)
  else if cmd.quickStop ∧ state = swOperationEnabled then (cwQuickStop, false)
  else if state = swSwitchOnDisabled then (cwShutdown, false)
  else if state = swReadyToSwitchOn then
    (if cmd.enable ∧ ¬ cmd.quickStop then cwSwitchOn else cwShutdown, false)
  else if state = swSwitchedOn then
    (if cmd.enable ∧ ¬ cmd.quickStop then cwEnableOp else cwSwitchOn, false)
  else if state = swOperationEnabled then
    (if cmd.enable ∧ ¬ cmd.quickStop then cwEnableOp else cwSwitchOn, false)
  else (cwShutdown, false)

def statusword (image : List UInt8) (d : Binding) : UInt16 := (readValue image d.sw).toUInt64.toUInt16

def Binding.step (d : Binding) (image : List UInt8) (cmd : DriveCommand) : Binding × List UInt8 :=
  let (cw, frHigh) := nextControlword (statusword image d) cmd d.frHigh
  ({ d with frHigh := frHigh }, writeValue image d.cw cw.toUInt64.toInt64)

def stepDrives (cmd : DriveCommand) : List Binding → List UInt8 → List Binding × List UInt8
  | [], image => ([], image)
  | d :: ds, image =>
    let (d', image) := d.step image cmd
    let (ds', image) := stepDrives cmd ds image
    (d' :: ds', image)

namespace Cia402

def bind (bus : BusCfg) (cw : PinCfg) : Option Binding :=
  if !cw.isOutput then none
  else match stripSuffix controlwordSuffix cw.name with
    | none => none
    | some pre =>
      (bus.pins.find? fun sw => !sw.isOutput && stripSuffix statuswordSuffix sw.name == some pre).map
        fun sw => ⟨cw, sw, false⟩

def new (bus : BusCfg) : Cia402 := ⟨(bus.pins.filterMap (bind bus)).foldl (pushWithin ecMaxSlaves) []⟩

def hasDrives (c : Cia402) : Bool := !c.drives.isEmpty

def anyFault (c : Cia402) (image : List UInt8) : Bool :=
  c.drives.any fun d => statusword image d &&& swFault ≠ 0

def step (c : Cia402) (image : List UInt8) (cmd : DriveCommand) : Cia402 × List UInt8 :=
  let (drives, image) := stepDrives cmd c.drives image
  (⟨drives⟩, image)

theorem drives_new (bus : BusCfg) : (new bus).drives = (bus.pins.filterMap (bind bus)).take ecMaxSlaves := by
  rw [new, foldl_pushWithin _ _ _ (Nat.zero_le _)]
  simp

theorem bind_eq_some {bus : BusCfg} {cw : PinCfg} {d : Binding} (h : bind bus cw = some d) :
    d.cw = cw ∧ cw.dir = .output ∧ d.sw ∈ bus.pins ∧ d.sw.dir = .input := by
  rw [bind] at h
  split_ifs at h with ho
  split at h
  · exact absurd h (by simp)
  · obtain ⟨sw, hsw, rfl⟩ := Option.map_eq_some_iff.mp h
    have hp := List.find?_some hsw
    refine ⟨rfl, by simpa [PinCfg.isOutput] using ho, List.mem_of_find?_eq_some hsw, ?_⟩
    cases hd : sw.dir with
    | output => simp [PinCfg.isOutput, hd] at hp
    | input => rfl

end Cia402

def SameWiring (ds ds' : List Binding) : Prop :=
  ds.map (fun d => (d.cw, d.sw)) = ds'.map (fun d => (d.cw, d.sw))

structure Wired (out : ℕ) (ds : List Binding) : Prop where
  cw_below : ∀ d ∈ ds, d.cw.byteOffset + d.cw.width ≤ out
  sw_above : ∀ d ∈ ds, out ≤ d.sw.byteOffset
  cw_apart : ds.Pairwise fun d e => d.cw.byteOffset + d.cw.width ≤ e.cw.byteOffset ∨
    e.cw.byteOffset + e.cw.width ≤ d.cw.byteOffset

theorem Wired.of_sameWiring {out : ℕ} {ds ds' : List Binding} (h : SameWiring ds ds') (hw : Wired out ds) :
    Wired out ds' := by
  have hmem : ∀ d ∈ ds', ∃ e ∈ ds, e.cw = d.cw ∧ e.sw = d.sw := by
    intro d hd
    have hp : (d.cw, d.sw) ∈ ds.map (fun d => (d.cw, d.sw)) := by
      rw [h]; exact List.mem_map_of_mem hd
    obtain ⟨e, he, hes⟩ := List.mem_map.mp hp
    exact ⟨e, he, congrArg Prod.fst hes, congrArg Prod.snd hes⟩
  refine ⟨?_, ?_, ?_⟩
  · intro d hd
    obtain ⟨e, he, hc, -⟩ := hmem d hd
    exact hc ▸ hw.cw_below e he
  · intro d hd
    obtain ⟨e, he, -, hs⟩ := hmem d hd
    exact hs ▸ hw.sw_above e he
  · have hp := hw.cw_apart
    have hm : (ds.map fun d => (d.cw, d.sw)).Pairwise fun a b =>
        a.1.byteOffset + a.1.width ≤ b.1.byteOffset ∨ b.1.byteOffset + b.1.width ≤ a.1.byteOffset :=
      List.pairwise_map.mpr hp
    rw [h] at hm
    exact List.pairwise_map.mp hm

theorem statusword_congr {image image' : List UInt8} {out : ℕ} {d : Binding} (hd : out ≤ d.sw.byteOffset)
    (h : ∀ i, out ≤ i → image[i]? = image'[i]?) : statusword image d = statusword image' d := by
  rw [statusword, statusword, readValue_congr fun i hi => h i (hd.trans hi.1)]

theorem Binding.step_outside (d : Binding) (image : List UInt8) (cmd : DriveCommand) {i : ℕ}
    (h : ¬ d.cw.Covers i) : (d.step image cmd).2[i]? = image[i]? :=
  getElem?_writeValue_outside _ h

theorem stepDrives_outside (cmd : DriveCommand) (ds : List Binding) (image : List UInt8) {i : ℕ}
    (h : ∀ d ∈ ds, ¬ d.cw.Covers i) : (stepDrives cmd ds image).2[i]? = image[i]? := by
  induction ds generalizing image with
  | nil => rfl
  | cons d ds ih =>
    change (stepDrives cmd ds (d.step image cmd).2).2[i]? = _
    rw [ih _ fun e he => h e (List.mem_cons_of_mem _ he), d.step_outside image cmd (h d List.mem_cons_self)]

@[simp] theorem length_stepDrives (cmd : DriveCommand) (ds : List Binding) (image : List UInt8) :
    (stepDrives cmd ds image).2.length = image.length := by
  induction ds generalizing image with
  | nil => rfl
  | cons d ds ih =>
    change (stepDrives cmd ds (d.step image cmd).2).2.length = _
    rw [ih]
    exact length_writeValue _ _ _

theorem sameWiring_stepDrives (cmd : DriveCommand) (ds : List Binding) (image : List UInt8) :
    SameWiring ds (stepDrives cmd ds image).1 := by
  induction ds generalizing image with
  | nil => rfl
  | cons d ds ih => exact congrArg (List.cons (d.cw, d.sw)) (ih (d.step image cmd).2)

theorem stepDrives_controlword {out : ℕ} {cmd : DriveCommand} {ds : List Binding} (hw : Wired out ds)
    {d : Binding} (hd : d ∈ ds) (image : List UInt8) {i : ℕ} (hi : d.cw.Covers i) :
    (stepDrives cmd ds image).2[i]? =
      (writeValue image d.cw (nextControlword (statusword image d) cmd d.frHigh).1.toUInt64.toInt64)[i]? := by
  induction ds generalizing image with
  | nil => exact absurd hd List.not_mem_nil
  | cons e ds ih =>
    have hbelow : ∀ j, out ≤ j → ¬ e.cw.Covers j := by
      intro j hj hc
      have := hw.cw_below e List.mem_cons_self
      exact absurd hc.2 (by omega)
    have htail : Wired out ds := ⟨fun f hf => hw.cw_below f (List.mem_cons_of_mem _ hf),
      fun f hf => hw.sw_above f (List.mem_cons_of_mem _ hf), (List.pairwise_cons.mp hw.cw_apart).2⟩
    change (stepDrives cmd ds (e.step image cmd).2).2[i]? = _
    rcases List.mem_cons.mp hd with rfl | hmem
    · apply stepDrives_outside
      intro f hf hc
      have ha := (List.pairwise_cons.mp hw.cw_apart).1 f hf
      have h₁ := hi.1
      have h₂ := hi.2
      have h₃ := hc.1
      have h₄ := hc.2
      omega
    · have hsw : statusword (e.step image cmd).2 d = statusword image d :=
        statusword_congr (hw.sw_above d hd) fun j hj => e.step_outside image cmd (hbelow j hj)
      have hne : ¬ e.cw.Covers i := by
        intro hc
        have ha := (List.pairwise_cons.mp hw.cw_apart).1 d hmem
        have h₁ := hi.1
        have h₂ := hi.2
        have h₃ := hc.1
        have h₄ := hc.2
        omega
      rw [ih htail hmem, hsw]
      exact getElem?_writeValue_congr (e.step_outside image cmd hne) _ _

end EcMaster

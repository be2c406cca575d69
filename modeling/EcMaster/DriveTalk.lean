import EcMaster.Reported
import EcMaster.SafeState

/-!
What the drives say to the sequencer and what it tells them, tick by tick, and where the words stand in the images.
-/

namespace EcMaster

def stepTalk (cmd : DriveCommand) : List Binding → List UInt8 → List (UInt16 × UInt16)
  | [], _ => []
  | d :: ds, image =>
    (statusword image d, (nextControlword (statusword image d) cmd d.frHigh).1) :: stepTalk cmd ds (d.step image cmd).2

theorem stepTalk_reads (cmd : DriveCommand) (ds : List Binding) (image : List UInt8) :
    (stepTalk cmd ds image).map Prod.fst = stepReads cmd ds image := by
  induction ds generalizing image with
  | nil => rfl
  | cons d ds ih => exact congrArg (statusword image d :: ·) (ih _)

theorem mem_stepTalk {cmd : DriveCommand} {ds : List Binding} {image : List UInt8} {p : UInt16 × UInt16}
    (h : p ∈ stepTalk cmd ds image) : ∃ frHigh, p.2 = (nextControlword p.1 cmd frHigh).1 := by
  induction ds generalizing image with
  | nil => exact absurd h List.not_mem_nil
  | cons d ds ih =>
    rcases List.mem_cons.mp h with rfl | h
    · exact ⟨d.frHigh, rfl⟩
    · exact ih h

theorem length_stepTalk (cmd : DriveCommand) (ds : List Binding) (image : List UInt8) :
    (stepTalk cmd ds image).length = ds.length := by
  induction ds generalizing image with
  | nil => rfl
  | cons d ds ih => exact congrArg Nat.succ (ih _)

theorem stepDrives_writes (cmd : DriveCommand) (ds : List Binding) (image : List UInt8) :
    (stepDrives cmd ds image).2 = ((ds.map Binding.cw).zip ((stepTalk cmd ds image).map Prod.snd)).foldl
      (fun image p => writeValue image p.1 p.2.toUInt64.toInt64) image := by
  induction ds generalizing image with
  | nil => rfl
  | cons d ds ih => exact ih _

theorem stepDrives_getElem? {j : ℕ} {cmd : DriveCommand} {ds : List Binding} {image : List UInt8} {d : Binding}
    (hd : ds[j]? = some d) : ∃ sw, (stepTalk cmd ds image)[j]? = some (sw, (nextControlword sw cmd d.frHigh).1) ∧
      (stepDrives cmd ds image).1[j]? = some { d with frHigh := (nextControlword sw cmd d.frHigh).2 } := by
  induction ds generalizing image j with
  | nil => exact absurd hd nofun
  | cons d' ds ih =>
    cases j with
    | zero =>
      obtain rfl := Option.some.inj hd
      exact ⟨_, rfl, rfl⟩
    | succ j => exact ih hd

theorem stepTalk_wired {out : ℕ} {cmd : DriveCommand} {ds : List Binding} (hw : Wired out ds) {j : ℕ} {d : Binding}
    (hd : ds[j]? = some d) (image : List UInt8) :
    (stepTalk cmd ds image)[j]? = some (statusword image d, (nextControlword (statusword image d) cmd d.frHigh).1) := by
  obtain ⟨sw, htalk, -⟩ := @stepDrives_getElem? j cmd ds image d hd
  have hreads : (stepReads cmd ds image)[j]? = some sw := by
    rw [← stepTalk_reads, List.getElem?_map, htalk]
    rfl
  rw [stepReads_eq cmd image hw.cw_below hw.sw_above, List.getElem?_map, hd] at hreads
  obtain rfl := Option.some.inj hreads
  exact htalk

namespace Cia402

def talk (j : ℕ) : Cia402 → List (List UInt8 × DriveCommand) → List (UInt16 × UInt16)
  | _, [] => []
  | c, (image, cmd) :: es => (stepTalk cmd c.drives image)[j]?.toList ++ talk j (c.step image cmd).1 es

theorem mem_talk {j : ℕ} {c : Cia402} {es : List (List UInt8 × DriveCommand)} {p : UInt16 × UInt16}
    (h : p ∈ c.talk j es) : ∃ e ∈ es, ∃ frHigh, p.2 = (nextControlword p.1 e.2 frHigh).1 := by
  induction es generalizing c with
  | nil => exact absurd h List.not_mem_nil
  | cons e es ih =>
    rcases List.mem_append.mp h with h | h
    · exact ⟨e, List.mem_cons_self, mem_stepTalk (List.mem_of_getElem? (Option.mem_toList.mp h))⟩
    · obtain ⟨e', he', hp⟩ := ih h
      exact ⟨e', List.mem_cons_of_mem _ he', hp⟩

theorem talk_eq_nil {j : ℕ} {c : Cia402} (hj : c.drives[j]? = none) (es : List (List UInt8 × DriveCommand)) :
    c.talk j es = [] := by
  have hnone : ∀ {cmd ds image}, ds[j]? = none → (stepTalk cmd ds image)[j]? = none ∧
      (stepDrives cmd ds image).1[j]? = none := by
    intro cmd ds image h
    clear hj
    induction ds generalizing image j with
    | nil => exact ⟨rfl, rfl⟩
    | cons d ds ih =>
      cases j with
      | zero => exact absurd h nofun
      | succ j => exact ih h
  induction es generalizing c with
  | nil => rfl
  | cons e es ih =>
    rw [talk, (hnone hj).1, ih (c := (c.step e.1 e.2).1) (hnone hj).2]
    rfl

def after (c : Cia402) (es : List (List UInt8 × DriveCommand)) : Cia402 := es.foldl (fun c e => (c.step e.1 e.2).1) c

theorem sameWiring_after (c : Cia402) (es : List (List UInt8 × DriveCommand)) :
    SameWiring c.drives (c.after es).drives := by
  induction es generalizing c with
  | nil => rfl
  | cons e es ih => exact (sameWiring_stepDrives e.2 c.drives e.1).trans (ih (c.step e.1 e.2).1)

theorem talk_append (j : ℕ) (c : Cia402) (es es' : List (List UInt8 × DriveCommand)) :
    c.talk j (es ++ es') = c.talk j es ++ (c.after es).talk j es' := by
  induction es generalizing c with
  | nil => rfl
  | cons e es ih =>
    rw [List.cons_append, talk, ih, talk, List.append_assoc]
    rfl

theorem length_talk {j : ℕ} {c : Cia402} {d : Binding} (hd : c.drives[j]? = some d)
    (es : List (List UInt8 × DriveCommand)) : (c.talk j es).length = es.length := by
  induction es generalizing c d with
  | nil => rfl
  | cons e es ih =>
    obtain ⟨sw, htalk, hstep⟩ := @stepDrives_getElem? j e.2 c.drives e.1 d hd
    rw [talk, htalk, List.length_append, ih (c := (c.step e.1 e.2).1) hstep, List.length_cons, Nat.add_comm]
    rfl

theorem talk_at {j : ℕ} {c : Cia402} {d : Binding} (hd : c.drives[j]? = some d)
    (pre post : List (List UInt8 × DriveCommand)) (image : List UInt8) (cmd : DriveCommand) :
    (c.talk j (pre ++ (image, cmd) :: post))[pre.length]? = (stepTalk cmd (c.after pre).drives image)[j]? := by
  have hlen := length_talk hd pre
  rw [talk_append, List.getElem?_append_right hlen.le, hlen, Nat.sub_self, talk]
  have hj : j < (stepTalk cmd (c.after pre).drives image).length := by
    have hsame := congrArg List.length (c.sameWiring_after pre)
    rw [List.length_map, List.length_map] at hsame
    rw [length_stepTalk, ← hsame]
    exact (List.getElem?_eq_some_iff.mp hd).1
  rw [List.getElem?_eq_getElem hj]
  rfl

/-- The row is what stands in the images: `step` puts one word of each drive into its controlword pin and does nothing
else to the image, and where the pins keep apart these are the bytes of the word in the row. -/
structure Spoken (j : ℕ) (c : Cia402) (es : List (List UInt8 × DriveCommand)) : Prop where
  writes : ∀ pre image cmd post, es = pre ++ (image, cmd) :: post → ∃ words : List UInt16,
    words.length = c.drives.length ∧ words[j]? = ((c.talk j es)[pre.length]?).map Prod.snd ∧
      ((c.after pre).step image cmd).2 = ((c.drives.map Binding.cw).zip words).foldl
        (fun image p => writeValue image p.1 p.2.toUInt64.toInt64) image
  bytes : ∀ pre image cmd post, es = pre ++ (image, cmd) :: post → ∀ d, c.drives[j]? = some d →
    ∀ out, Wired out c.drives → d.cw.ByteAligned → d.cw.byteOffset + d.cw.nbytes ≤ image.length →
      (c.talk j es)[pre.length]? = some (statusword image d, wordAt ((c.after pre).step image cmd).2 d.cw)

theorem spoken_talk (j : ℕ) (c : Cia402) (es : List (List UInt8 × DriveCommand)) : c.Spoken j es := by
  constructor
  · rintro pre image cmd post rfl
    have hsame := c.sameWiring_after pre
    have hcw : (c.after pre).drives.map Binding.cw = c.drives.map Binding.cw := by
      have h := congrArg (List.map Prod.fst) hsame
      rw [List.map_map, List.map_map] at h
      exact h.symm
    have hlen : (c.after pre).drives.length = c.drives.length := by
      simpa using congrArg List.length hcw
    refine ⟨(stepTalk cmd (c.after pre).drives image).map Prod.snd, ?_, ?_, ?_⟩
    · rw [List.length_map, length_stepTalk, hlen]
    · rw [List.getElem?_map]
      cases hd : c.drives[j]? with
      | some d => rw [talk_at hd]
      | none =>
        rw [talk_eq_nil hd, List.getElem?_eq_none (by rw [length_stepTalk, hlen]; exact List.getElem?_eq_none_iff.mp hd)]
        rfl
    · rw [← hcw]
      exact stepDrives_writes cmd _ image
  · rintro pre image cmd post rfl d hd out hw ha hin
    have hsame := c.sameWiring_after pre
    have hpair : ((c.after pre).drives.map fun d => (d.cw, d.sw))[j]? = some (d.cw, d.sw) := by
      rw [← hsame, List.getElem?_map, hd]
      rfl
    obtain ⟨e, he, hes⟩ := Option.map_eq_some_iff.mp (List.getElem?_map ▸ hpair)
    obtain ⟨hcw, hsw⟩ := Prod.mk.inj hes
    have hwired : Wired out (c.after pre).drives := hw.of_sameWiring hsame
    have hstatus : statusword image e = statusword image d := by rw [statusword, statusword, hsw]
    have hword : wordAt (stepDrives cmd (c.after pre).drives image).2 e.cw =
        (nextControlword (statusword image e) cmd e.frHigh).1 :=
      wordAt_stepDrives hwired (List.mem_of_getElem? he) (by rw [hcw]; exact ha) (by rw [hcw]; exact hin)
    rw [talk_at hd, stepTalk_wired hwired he, hstatus, ← hstatus, ← hword, hcw]
    rfl

end Cia402

end EcMaster

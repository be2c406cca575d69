import EcMaster.QuickStop

namespace EcMaster

def Faulted (sw : UInt16) : Prop := sw &&& swFault ≠ 0

def ResetBit (cw : UInt16) : Prop := cw &&& cwFaultReset ≠ 0

theorem nextControlword_high (sw : UInt16) (cmd : DriveCommand) (frHigh : Bool) :
    (nextControlword sw cmd frHigh).2 = true ↔ Faulted sw ∧ cmd.faultReset = true ∧ frHigh = false := by
  rw [nextControlword, Faulted]
  split_ifs <;> simp_all

theorem nextControlword_word (sw : UInt16) (cmd : DriveCommand) (frHigh : Bool) :
    if (nextControlword sw cmd frHigh).2 then (nextControlword sw cmd frHigh).1 = cwFaultReset
    else ¬ResetBit (nextControlword sw cmd frHigh).1 := by
  rw [nextControlword]
  cases frHigh
  all_goals
    split_ifs
    all_goals first | rfl | (rw [ResetBit]; decide) | simp_all

theorem resetBit_iff (sw : UInt16) (cmd : DriveCommand) (frHigh : Bool) :
    ResetBit (nextControlword sw cmd frHigh).1 ↔ (nextControlword sw cmd frHigh).2 = true := by
  have hword := nextControlword_word sw cmd frHigh
  cases hlevel : (nextControlword sw cmd frHigh).2 with
  | false =>
    rw [hlevel, if_neg Bool.false_ne_true] at hword
    exact ⟨fun h => absurd h hword, fun h => absurd h Bool.false_ne_true⟩
  | true =>
    rw [hlevel, if_pos rfl] at hword
    rw [hword]
    exact ⟨fun _ => rfl, fun _ => by rw [ResetBit]; decide⟩

theorem eq_cwFaultReset_iff (sw : UInt16) (cmd : DriveCommand) (frHigh : Bool) :
    (nextControlword sw cmd frHigh).1 = cwFaultReset ↔ (nextControlword sw cmd frHigh).2 = true := by
  rw [← resetBit_iff]
  constructor
  · intro h
    rw [h, ResetBit]
    decide
  · intro h
    have hword := nextControlword_word sw cmd frHigh
    rwa [(resetBit_iff sw cmd frHigh).mp h, if_pos rfl] at hword

theorem nextControlword_low {sw : UInt16} {cmd : DriveCommand} (hf : Faulted sw) (hr : cmd.faultReset = true) :
    (nextControlword sw cmd true).1 = cwDisableVoltage := by
  rw [nextControlword]
  refine (congrArg Prod.fst (if_pos hf)).trans ?_
  rw [if_pos hr]
  rfl

def pulses : Bool → List (UInt16 × DriveCommand) → List (UInt16 × UInt16)
  | _, [] => []
  | frHigh, (sw, cmd) :: ticks =>
    (sw, (nextControlword sw cmd frHigh).1) :: pulses (nextControlword sw cmd frHigh).2 ticks

theorem pulses_next {frHigh : Bool} {ticks : List (UInt16 × DriveCommand)} {i : ℕ} {p : UInt16 × UInt16}
    (hp : (pulses frHigh ticks)[i]? = some p) : ∃ cmd level, ticks[i]? = some (p.1, cmd) ∧
      p.2 = (nextControlword p.1 cmd level).1 ∧ ∀ q, (pulses frHigh ticks)[i + 1]? = some q →
        ∃ cmd', ticks[i + 1]? = some (q.1, cmd') ∧
          q.2 = (nextControlword q.1 cmd' (nextControlword p.1 cmd level).2).1 := by
  induction ticks generalizing frHigh i with
  | nil => exact absurd hp nofun
  | cons tick ticks ih =>
    obtain ⟨sw, cmd⟩ := tick
    rw [pulses] at hp ⊢
    cases i with
    | zero =>
      obtain rfl := Option.some.inj hp
      refine ⟨cmd, frHigh, rfl, rfl, fun q hq => ?_⟩
      cases ticks with
      | nil => exact absurd hq nofun
      | cons tick' ticks =>
        obtain ⟨sw', cmd'⟩ := tick'
        obtain rfl := Option.some.inj hq
        exact ⟨cmd', rfl, rfl⟩
    | succ i => exact ih hp

namespace Cia402

theorem talk_eq_pulses {j : ℕ} {c : Cia402} {d : Binding} (hd : c.drives[j]? = some d)
    (es : List (List UInt8 × DriveCommand)) :
    ∃ sws : List UInt16, sws.length = es.length ∧ c.talk j es = pulses d.frHigh (sws.zip (es.map Prod.snd)) := by
  induction es generalizing c d with
  | nil => exact ⟨[], rfl, rfl⟩
  | cons e es ih =>
    obtain ⟨image, cmd⟩ := e
    obtain ⟨sw, htalk, hstep⟩ := @stepDrives_getElem? j cmd c.drives image d hd
    obtain ⟨sws, hlen, hrest⟩ := ih (c := (c.step image cmd).1) hstep
    refine ⟨sw :: sws, congrArg Nat.succ hlen, ?_⟩
    rw [talk, htalk, hrest]
    rfl

theorem talk_next {j : ℕ} {c : Cia402} {es : List (List UInt8 × DriveCommand)} {i : ℕ} {p : UInt16 × UInt16}
    (hp : (c.talk j es)[i]? = some p) : ∃ cmd level, (es.map Prod.snd)[i]? = some cmd ∧
      p.2 = (nextControlword p.1 cmd level).1 ∧ ∀ q, (c.talk j es)[i + 1]? = some q →
        ∃ cmd', (es.map Prod.snd)[i + 1]? = some cmd' ∧
          q.2 = (nextControlword q.1 cmd' (nextControlword p.1 cmd level).2).1 := by
  cases hd : c.drives[j]? with
  | none =>
    rw [talk_eq_nil hd] at hp
    exact absurd hp nofun
  | some d =>
    obtain ⟨sws, -, htalk⟩ := talk_eq_pulses hd es
    rw [htalk] at hp ⊢
    obtain ⟨cmd, level, hcmd, hword, hnext⟩ := pulses_next hp
    refine ⟨cmd, level, (List.getElem?_zip_eq_some.mp hcmd).2, hword, fun q hq => ?_⟩
    obtain ⟨cmd', hcmd', hword'⟩ := hnext q hq
    exact ⟨cmd', (List.getElem?_zip_eq_some.mp hcmd').2, hword'⟩

end Cia402

def Rises (talk : List (UInt16 × UInt16)) (k : ℕ) : Prop :=
  (∃ q, talk[k]? = some q ∧ q.2 = cwFaultReset) ∧ ∀ i p, k = i + 1 → talk[i]? = some p → ¬ResetBit p.2

/-- What one drive is told to reset its fault: `talk` is what it says and is told, `cmds` are the commands. -/
structure EdgeTrain (talk : List (UInt16 × UInt16)) (cmds : List DriveCommand) : Prop where
  only : ∀ p ∈ talk, ResetBit p.2 → p.2 = cwFaultReset
  rises : ∀ i q, talk[i]? = some q → q.2 = cwFaultReset → Rises talk i
  alternates : ∀ i p q cmd cmd', talk[i]? = some p → talk[i + 1]? = some q →
    cmds[i]? = some cmd → cmds[i + 1]? = some cmd' → Faulted p.1 → Faulted q.1 →
      cmd.faultReset = true → cmd'.faultReset = true →
        p.2 = cwFaultReset ∧ q.2 = cwDisableVoltage ∨ p.2 = cwDisableVoltage ∧ q.2 = cwFaultReset
  again : ∀ i p q cmd', talk[i]? = some p → talk[i + 1]? = some q → cmds[i + 1]? = some cmd' →
    ¬Faulted p.1 → Faulted q.1 → cmd'.faultReset = true → Rises talk (i + 1)
  within : ∀ i p q cmd cmd', talk[i]? = some p → talk[i + 1]? = some q →
    cmds[i]? = some cmd → cmds[i + 1]? = some cmd' → Faulted p.1 → Faulted q.1 →
      cmd.faultReset = true → cmd'.faultReset = true → Rises talk i ∨ Rises talk (i + 1)

namespace Cia402

variable {j : ℕ} {c : Cia402} {es : List (List UInt8 × DriveCommand)} {i : ℕ} {p q : UInt16 × UInt16}

theorem talk_only (hp : p ∈ c.talk j es) (h : ResetBit p.2) : p.2 = cwFaultReset := by
  obtain ⟨e, -, frHigh, hword⟩ := mem_talk hp
  rw [hword] at h ⊢
  exact (eq_cwFaultReset_iff _ _ _).mpr ((resetBit_iff _ _ _).mp h)

theorem talk_rises (hq : (c.talk j es)[i]? = some q) (h : q.2 = cwFaultReset) : Rises (c.talk j es) i := by
  refine ⟨⟨q, hq, h⟩, ?_⟩
  rintro k p rfl hp
  obtain ⟨cmd, level, -, hword, hnext⟩ := talk_next hp
  obtain ⟨cmd', -, hword'⟩ := hnext q hq
  have hlow := ((nextControlword_high _ _ _).mp ((eq_cwFaultReset_iff _ _ _).mp (hword' ▸ h))).2.2
  rw [hword, resetBit_iff, hlow]
  exact Bool.false_ne_true

theorem talk_alternates {cmd cmd' : DriveCommand} (hp : (c.talk j es)[i]? = some p)
    (hq : (c.talk j es)[i + 1]? = some q) (hcmd : (es.map Prod.snd)[i]? = some cmd)
    (hcmd' : (es.map Prod.snd)[i + 1]? = some cmd') (hfp : Faulted p.1) (hfq : Faulted q.1)
    (hr : cmd.faultReset = true) (hr' : cmd'.faultReset = true) :
    p.2 = cwFaultReset ∧ q.2 = cwDisableVoltage ∨ p.2 = cwDisableVoltage ∧ q.2 = cwFaultReset := by
  obtain ⟨a, level, ha, hword, hnext⟩ := talk_next hp
  obtain ⟨b, hb, hword'⟩ := hnext q hq
  obtain rfl := Option.some.inj (hcmd.symm.trans ha)
  obtain rfl := Option.some.inj (hcmd'.symm.trans hb)
  cases level with
  | false =>
    have hhigh := (nextControlword_high p.1 cmd false).mpr ⟨hfp, hr, rfl⟩
    rw [hhigh] at hword'
    exact Or.inl ⟨hword.trans ((eq_cwFaultReset_iff _ _ _).mpr hhigh), hword'.trans (nextControlword_low hfq hr')⟩
  | true =>
    have hlow : (nextControlword p.1 cmd true).2 = false :=
      Bool.eq_false_iff.mpr fun h => absurd ((nextControlword_high _ _ _).mp h).2.2 nofun
    rw [hlow] at hword'
    refine Or.inr ⟨hword.trans (nextControlword_low hfp hr), hword'.trans ((eq_cwFaultReset_iff _ _ _).mpr ?_)⟩
    exact (nextControlword_high _ _ _).mpr ⟨hfq, hr', rfl⟩

theorem talk_again {cmd' : DriveCommand} (hp : (c.talk j es)[i]? = some p) (hq : (c.talk j es)[i + 1]? = some q)
    (hcmd' : (es.map Prod.snd)[i + 1]? = some cmd') (hfp : ¬Faulted p.1) (hfq : Faulted q.1)
    (hr' : cmd'.faultReset = true) : Rises (c.talk j es) (i + 1) := by
  obtain ⟨cmd, level, -, -, hnext⟩ := talk_next hp
  obtain ⟨b, hb, hword'⟩ := hnext q hq
  obtain rfl := Option.some.inj (hcmd'.symm.trans hb)
  have hlow : (nextControlword p.1 cmd level).2 = false :=
    Bool.eq_false_iff.mpr fun h => hfp ((nextControlword_high _ _ _).mp h).1
  rw [hlow] at hword'
  have hhigh := (nextControlword_high q.1 cmd' false).mpr ⟨hfq, hr', rfl⟩
  exact talk_rises hq (hword'.trans ((eq_cwFaultReset_iff _ _ _).mpr hhigh))

theorem edgeTrain_talk (c : Cia402) (j : ℕ) (es : List (List UInt8 × DriveCommand)) :
    EdgeTrain (c.talk j es) (es.map Prod.snd) where
  only _ hp h := talk_only hp h
  rises _ _ hq h := talk_rises hq h
  alternates _ _ _ _ _ hp hq hcmd hcmd' hfp hfq hr hr' := talk_alternates hp hq hcmd hcmd' hfp hfq hr hr'
  again _ _ _ _ hp hq hcmd' hfp hfq hr' := talk_again hp hq hcmd' hfp hfq hr'
  within _ _ _ _ _ hp hq hcmd hcmd' hfp hfq hr hr' := by
    rcases talk_alternates hp hq hcmd hcmd' hfp hfq hr hr' with ⟨h, -⟩ | ⟨-, h⟩
    · exact Or.inl (talk_rises hp h)
    · exact Or.inr (talk_rises hq h)

/-- Whatever the drives report and the host commands, what stands in the images to reset a fault is a train of
edges on bit 7. -/
theorem faultReset_edges (c : Cia402) (j : ℕ) (es : List (List UInt8 × DriveCommand)) :
    c.Spoken j es ∧ EdgeTrain (c.talk j es) (es.map Prod.snd) :=
  ⟨spoken_talk j c es, edgeTrain_talk c j es⟩

end Cia402

end EcMaster

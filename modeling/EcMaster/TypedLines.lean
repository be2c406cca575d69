import EcMaster.Console

namespace EcMaster

open Library.Run

/-- What the host has typed: the line under way, without a limit on its length, and the complete lines. -/
structure Typed where
  line : Cli.Text
  lines : List Cli.Text

namespace Typed

def init : Typed := ⟨[], []⟩

def byte (t : Typed) (b : UInt8) : Typed :=
  if Console.endsLine b then if t.line = [] then t else ⟨[], t.lines ++ [t.line]⟩
  else if Console.erases b then { t with line := t.line.dropLast }
  else if Console.prints b then { t with line := t.line ++ [Char.ofNat b.toNat] }
  else t

def step (t : Typed) : ConsoleEvent → Typed
  | .usb ready packet _ => if ready then run byte t (packet.getD []) else { t with line := [] }
  | .work _ => t

end Typed

namespace Console

variable {read : ℕ → List UInt8 → Option (List UInt8)}

def accepted (c : Console) : List Cli.Command := c.executed ++ c.ecatCmd.toList

structure Tracks (c : Console) (t : Typed) : Prop where
  line : c.ecatLine = t.line
  accepted : c.accepted = t.lines.map Cli.parse

structure Lost (c : Console) (t : Typed) : Prop where
  line : c.ecatLine = t.line
  accepted : c.accepted.length < t.lines.length

theorem usbByte_line {c : Console} {t : Typed} (hl : c.ecatLine = t.line) {b : UInt8}
    (hs : prints b → t.line.length < ecatLineCap) : (c.usbByte b).ecatLine = (t.byte b).line := by
  rw [usbByte, Typed.byte, hl]
  split_ifs with h₁ h₂ h₃ h₄ h₅
  · exact hl
  · rfl
  · rfl
  · rfl
  · exact absurd (hs h₄) h₅
  · exact hl

theorem usbByte_accepted (c : Console) (b : UInt8) :
    (c.usbByte b).accepted = c.accepted ++
      if endsLine b ∧ c.ecatLine ≠ [] ∧ c.ecatCmd = none then [Cli.parse c.ecatLine] else [] := by
  rw [usbByte]
  by_cases h₁ : endsLine b = true
  · by_cases h₂ : c.ecatLine = []
    · simp [h₁, h₂]
    · cases hc : c.ecatCmd with
      | none => simp [h₁, h₂, accepted, hc]
      | some cmd => simp [h₁, h₂, accepted, hc]
  · have hn : ¬ (endsLine b = true ∧ c.ecatLine ≠ [] ∧ c.ecatCmd = none) := fun h => h₁ h.1
    rw [if_neg h₁, if_neg hn, List.append_nil]
    split_ifs <;> rfl

theorem byte_lines (t : Typed) (b : UInt8) :
    (t.byte b).lines = t.lines ++ if endsLine b ∧ t.line ≠ [] then [t.line] else [] := by
  rw [Typed.byte]
  by_cases h₁ : endsLine b = true
  · by_cases h₂ : t.line = []
    · simp [h₁, h₂]
    · simp [h₁, h₂]
  · have hn : ¬ (endsLine b = true ∧ t.line ≠ []) := fun h => h₁ h.1
    rw [if_neg h₁, if_neg hn, List.append_nil]
    split_ifs <;> rfl

def FreeByte (c : Console) (b : UInt8) : Prop := endsLine b → c.ecatLine ≠ [] → c.ecatCmd = none

def ShortByte (t : Typed) (b : UInt8) : Prop := prints b → t.line.length < ecatLineCap

theorem Tracks.byte {c : Console} {t : Typed} (h : c.Tracks t) {b : UInt8} (hs : ShortByte t b) (hf : c.FreeByte b) :
    (c.usbByte b).Tracks (t.byte b) := by
  refine ⟨usbByte_line h.line hs, ?_⟩
  rw [usbByte_accepted, byte_lines, h.accepted, ← h.line, List.map_append]
  by_cases hb : endsLine b = true ∧ c.ecatLine ≠ []
  · rw [if_pos ⟨hb.1, hb.2, hf hb.1 hb.2⟩, if_pos hb]
    rfl
  · rw [if_neg fun hn => hb ⟨hn.1, hn.2.1⟩, if_neg hb]
    rfl

theorem Tracks.lose {c : Console} {t : Typed} (h : c.Tracks t) {b : UInt8} (hs : ShortByte t b) (hf : ¬ c.FreeByte b) :
    (c.usbByte b).Lost (t.byte b) := by
  obtain ⟨he, hf⟩ := Classical.not_imp.mp hf
  obtain ⟨hl, hc⟩ := Classical.not_imp.mp hf
  refine ⟨usbByte_line h.line hs, ?_⟩
  rw [usbByte_accepted, byte_lines, h.accepted, ← h.line, if_neg fun hn => hc hn.2.2, if_pos ⟨he, hl⟩]
  simp

theorem Lost.byte {c : Console} {t : Typed} (h : c.Lost t) {b : UInt8} (hs : ShortByte t b) :
    (c.usbByte b).Lost (t.byte b) := by
  have ha := h.accepted
  refine ⟨usbByte_line h.line hs, ?_⟩
  rw [usbByte_accepted, byte_lines, ← h.line, List.length_append, List.length_append]
  by_cases hb : endsLine b = true ∧ c.ecatLine ≠ []
  · rw [if_pos hb]
    split_ifs
    · simp only [List.length_singleton]
      omega
    · simp only [List.length_singleton, List.length_nil]
      omega
  · rw [if_neg fun hn => hb ⟨hn.1, hn.2.1⟩, if_neg hb]
    simpa using ha

def FreeBytes (c : Console) (bytes : List UInt8) : Prop := ∀ c' b, Takes usbByte c bytes c' b → c'.FreeByte b

def ShortBytes (t : Typed) (bytes : List UInt8) : Prop := ∀ t' b, Takes Typed.byte t bytes t' b → ShortByte t' b

theorem short_both {c : Console} {t : Typed} {bytes : List UInt8} (hs : ShortBytes t bytes) :
    ∀ p b, Takes (both usbByte Typed.byte) (c, t) bytes p b → ShortByte p.2 b := by
  intro p b hp
  obtain ⟨pre, post, rfl, -, h⟩ := takes_both.mp hp
  exact hs p.2 b ⟨pre, post, rfl, h⟩

theorem free_both {c : Console} {t : Typed} {bytes : List UInt8} :
    (∀ p b, Takes (both usbByte Typed.byte) (c, t) bytes p b → p.1.FreeByte b) ↔ c.FreeBytes bytes := by
  constructor
  · rintro h c' b ⟨pre, post, rfl, rfl⟩
    exact h (run usbByte c pre, run Typed.byte t pre) b (takes_both.mpr ⟨pre, post, rfl, rfl, rfl⟩)
  · intro h p b hp
    obtain ⟨pre, post, rfl, hc, -⟩ := takes_both.mp hp
    exact h p.1 b ⟨pre, post, rfl, hc⟩

theorem Tracks.bytes {c : Console} {t : Typed} (h : c.Tracks t) {bytes : List UInt8} (hs : ShortBytes t bytes) :
    c.FreeBytes bytes ∧ (run usbByte c bytes).Tracks (run Typed.byte t bytes) ∨
      ¬ c.FreeBytes bytes ∧ (run usbByte c bytes).Lost (run Typed.byte t bytes) := by
  have hrun := run_split (I := fun p : Console × Typed => p.1.Tracks p.2) (J := fun p => p.1.Lost p.2)
    (A := fun p b => ShortByte p.2 b) (G := fun p b => p.1.FreeByte b) (fun _ _ hi ha hg => hi.byte ha hg)
    (fun _ _ hi ha hb => hi.lose ha hb) (fun _ _ hj ha => hj.byte ha) (show (c, t).1.Tracks (c, t).2 from h)
    (short_both hs)
  rwa [free_both, run_both] at hrun

theorem Lost.bytes {c : Console} {t : Typed} (h : c.Lost t) {bytes : List UInt8} (hs : ShortBytes t bytes) :
    (run usbByte c bytes).Lost (run Typed.byte t bytes) := by
  have hrun := run_invariant_of (J := fun p : Console × Typed => p.1.Lost p.2) (A := fun p b => ShortByte p.2 b)
    (fun _ _ hj ha => hj.byte ha) (show (c, t).1.Lost (c, t).2 from h) (short_both hs)
  rwa [run_both] at hrun

end Console

end EcMaster

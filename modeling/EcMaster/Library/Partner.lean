import EcMaster.Library.Dialogue

/-!
Scripts with a partner who has a state of his own. `replay` follows a record and
gives the state that it leaves the partner in, if he may answer so. `Secures` is
what a script needs of the partner so as not to fail, and to end as agreed.
-/

namespace Library.Dialogue.Script

variable {Q A ε α β W : Type}

abbrev Partner (W Q A ε : Type) := W → Q → Except ε A → Option W

variable (P : Partner W Q A ε)

def replay : W → Record Q A ε → Option W
  | w, [] => some w
  | w, (q, o) :: log => (P w q o).bind fun w' => replay w' log

def Secures : Script Q A ε α → (α → W → Prop) → W → Prop
  | done a, post, w => post a w
  | fail _, _, _ => False
  | skip next, post, w => Secures next post w
  | ask q next, post, w => ∀ o w', P w q o = some w' → Secures (next o) post w'

variable {P} {post post' : α → W → Prop} {w w' : W}

theorem Secures.mono {p : Script Q A ε α} (h : p.Secures P post w) (hp : ∀ a w, post a w → post' a w) :
    p.Secures P post' w := by
  induction p generalizing w with
  | done a => exact hp a w h
  | fail e => exact h
  | skip p ih => exact ih h
  | ask q next ih => exact fun o w' hw => ih o (h o w' hw)

theorem Secures.bind {p : Script Q A ε α} {f : α → Script Q A ε β} {post : β → W → Prop}
    (h : p.Secures P (fun a w => (f a).Secures P post w) w) : (p.bind f).Secures P post w := by
  induction p generalizing w with
  | done a => exact h
  | fail e => exact h
  | skip p ih => exact ih h
  | ask q next ih => exact fun o w' hw => ih o (h o w' hw)

theorem Secures.map {p : Script Q A ε α} {f : α → β} {post : β → W → Prop}
    (h : p.Secures P (fun a w => post (f a) w) w) : (p.map f).Secures P post w := h.bind

theorem Secures.reaches {p r : Script Q A ε α} (h : p.Secures P post w) {log : Record Q A ε}
    (hr : p.Reaches log r) (hw : replay P w log = some w') : r.Secures P post w' := by
  induction hr generalizing w with
  | here =>
    obtain rfl := Option.some.inj hw
    exact h
  | skip _ ih => exact ih h hw
  | ask _ ih =>
    obtain ⟨v, hv, hw⟩ := Option.bind_eq_some_iff.mp hw
    exact ih (h _ v hv) hw

theorem Secures.returns {p : Script Q A ε α} (h : p.Secures P post w) {log : Record Q A ε} {a : α}
    (hr : p.Returns log a) (hw : replay P w log = some w') : post a w' := h.reaches hr hw

theorem Secures.not_fail {p : Script Q A ε α} (h : p.Secures P post w) {log : Record Q A ε} {e : ε}
    (hw : replay P w log = some w') : ¬ p.Reaches log (fail e) := fun hr => h.reaches hr hw

theorem Secures.attempt {p : Script Q A ε α} (h : p.Secures P post w) :
    p.attempt.Secures P (fun r w => ∃ a, r = .ok a ∧ post a w) w := by
  induction p generalizing w with
  | done a => exact ⟨a, rfl, h⟩
  | fail e => exact h.elim
  | skip p ih => exact ih h
  | ask q next ih => exact fun o w' hw => ih o (h o w' hw)

theorem Reaches.attempt {p r : Script Q A ε α} {log : Record Q A ε} (h : p.Reaches log r) :
    p.attempt.Reaches log r.attempt := by
  induction h with
  | here => exact Reaches.here _
  | skip _ ih => exact ih.skip
  | ask _ ih => exact ih.ask

theorem Secures.ends {p r : Script Q A ε α} {post : Except ε α → W → Prop} (h : p.attempt.Secures P post w)
    {log : Record Q A ε} (hr : p.Reaches log r) (hw : replay P w log = some w') : r.attempt.Secures P post w' :=
  h.reaches hr.attempt hw

end Library.Dialogue.Script

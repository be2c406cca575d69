import Mathlib

/-!
Runs of a deterministic transition system. `run` folds the step function over
the events, `Takes` says that a run takes a given event in a given state, and
`log` collects what an observer sees, the latest observation first.
-/

namespace Library.Run

variable {σ ε ο : Type*} (step : σ → ε → σ)

def run (s : σ) (es : List ε) : σ := es.foldl step s

def Takes (s₀ : σ) (es : List ε) (s : σ) (e : ε) : Prop :=
  ∃ pre post, es = pre ++ e :: post ∧ s = run step s₀ pre

def log (obs : σ → ε → Option ο) (s₀ : σ) (es : List ε) : List ο :=
  (es.foldl (fun p e => (step p.1 e, (obs p.1 e).toList ++ p.2)) (s₀, [])).2

def visited : σ → List ε → List σ
  | _, [] => []
  | s, e :: es => step s e :: visited (step s e) es

@[simp] theorem run_nil (s : σ) : run step s [] = s := rfl

theorem run_append (s : σ) (es fs : List ε) : run step s (es ++ fs) = run step (run step s es) fs :=
  List.foldl_append

theorem run_concat (s : σ) (es : List ε) (e : ε) :
    run step s (es ++ [e]) = step (run step s es) e := by
  rw [run_append]; rfl

theorem run_invariant {I : σ → Prop} {s₀ : σ} (h₀ : I s₀) (hs : ∀ s e, I s → I (step s e))
    (es : List ε) : I (run step s₀ es) := by
  induction es using List.reverseRecOn with
  | nil => exact h₀
  | append_singleton es e ih => rw [run_concat]; exact hs _ e ih

theorem run_history {P : List ε → σ → Prop} {s₀ : σ} (h₀ : P [] s₀)
    (hs : ∀ es e, P es (run step s₀ es) → P (es ++ [e]) (step (run step s₀ es) e)) (es : List ε) :
    P es (run step s₀ es) := by
  induction es using List.reverseRecOn with
  | nil => exact h₀
  | append_singleton es e ih => rw [run_concat]; exact hs es e ih

variable {step}

theorem takes_last (s₀ : σ) (es : List ε) (e : ε) : Takes step s₀ (es ++ [e]) (run step s₀ es) e :=
  ⟨es, [], rfl, rfl⟩

theorem takes_head (s : σ) (e : ε) (es : List ε) : Takes step s (e :: es) s e := ⟨[], es, rfl, rfl⟩

theorem Takes.tail {s₀ : σ} {e₀ : ε} {es : List ε} {s : σ} {e : ε} (h : Takes step (step s₀ e₀) es s e) :
    Takes step s₀ (e₀ :: es) s e := by
  obtain ⟨pre, post, rfl, rfl⟩ := h
  exact ⟨e₀ :: pre, post, rfl, rfl⟩

theorem takes_cons {s₀ : σ} {e₀ : ε} {es : List ε} {s : σ} {e : ε} (h : Takes step s₀ (e₀ :: es) s e) :
    s = s₀ ∧ e = e₀ ∨ Takes step (step s₀ e₀) es s e := by
  obtain ⟨_ | ⟨a, pre⟩, post, he, rfl⟩ := h
  · obtain ⟨rfl, -⟩ := List.cons.inj he
    exact Or.inl ⟨rfl, rfl⟩
  · obtain ⟨rfl, rfl⟩ := List.cons.inj he
    exact Or.inr ⟨pre, post, rfl, rfl⟩

theorem takes_concat {s₀ : σ} {es : List ε} {e₀ : ε} {s : σ} {e : ε} :
    Takes step s₀ (es ++ [e₀]) s e ↔ Takes step s₀ es s e ∨ s = run step s₀ es ∧ e = e₀ := by
  constructor
  · rintro ⟨pre, post, he, rfl⟩
    rcases List.eq_nil_or_concat post with rfl | ⟨post, x, rfl⟩
    · obtain ⟨rfl, hx⟩ := List.append_inj' he rfl
      exact Or.inr ⟨rfl, (List.cons.inj hx).1.symm⟩
    · have hl : es ++ [e₀] = (pre ++ e :: post) ++ [x] := by simpa using he
      exact Or.inl ⟨pre, post, (List.append_inj' hl rfl).1, rfl⟩
  · rintro (h | ⟨rfl, rfl⟩)
    · obtain ⟨pre, post, rfl, rfl⟩ := h
      exact ⟨pre, post ++ [e₀], by simp, rfl⟩
    · exact takes_last s₀ es e

theorem not_takes_nil {s₀ : σ} {s : σ} {e : ε} : ¬ Takes step s₀ [] s e := by
  rintro ⟨pre, post, he, -⟩
  simp at he

theorem Takes.append {s₀ : σ} {es : List ε} {s : σ} {e : ε} (h : Takes step s₀ es s e) (fs : List ε) :
    Takes step s₀ (es ++ fs) s e := by
  obtain ⟨pre, post, rfl, rfl⟩ := h
  exact ⟨pre, post ++ fs, by simp, rfl⟩

theorem Takes.reached {s₀ : σ} {es : List ε} {s : σ} {e : ε} (h : Takes step s₀ es s e) :
    ∃ pre, s = run step s₀ pre := by
  obtain ⟨pre, _, _, h⟩ := h
  exact ⟨pre, h⟩

def Along (step : σ → ε → σ) (P : σ → ε → Prop) : σ → List ε → Prop
  | _, [] => True
  | s, e :: es => P s e ∧ Along step P (step s e) es

instance decidableAlong {P : σ → ε → Prop} [∀ s e, Decidable (P s e)] : ∀ s es, Decidable (Along step P s es)
  | _, [] => inferInstanceAs (Decidable True)
  | s, e :: es => @instDecidableAnd _ _ _ (decidableAlong (step s e) es)

theorem along_iff {P : σ → ε → Prop} {s₀ : σ} {es : List ε} :
    Along step P s₀ es ↔ ∀ s e, Takes step s₀ es s e → P s e := by
  induction es generalizing s₀ with
  | nil => exact iff_of_true trivial fun s e h => absurd h not_takes_nil
  | cons e₀ es ih =>
    rw [Along, ih]
    constructor
    · rintro ⟨h₀, h⟩ s e ht
      rcases takes_cons ht with ⟨rfl, rfl⟩ | ht
      · exact h₀
      · exact h s e ht
    · intro h
      exact ⟨h s₀ e₀ (takes_head s₀ e₀ es), fun s e ht => h s e ht.tail⟩

theorem run_split {I J : σ → Prop} {A G : σ → ε → Prop} (hI : ∀ s e, I s → A s e → G s e → I (step s e))
    (hB : ∀ s e, I s → A s e → ¬ G s e → J (step s e)) (hJ : ∀ s e, J s → A s e → J (step s e)) {s₀ : σ} (h₀ : I s₀)
    {es : List ε} (ha : ∀ s e, Takes step s₀ es s e → A s e) :
    (∀ s e, Takes step s₀ es s e → G s e) ∧ I (run step s₀ es) ∨
      ¬ (∀ s e, Takes step s₀ es s e → G s e) ∧ J (run step s₀ es) := by
  induction es using List.reverseRecOn with
  | nil => exact Or.inl ⟨fun s e h => absurd h not_takes_nil, h₀⟩
  | append_singleton es e ih =>
    have hl := ha _ _ (takes_last s₀ es e)
    rw [run_concat]
    rcases ih fun s f ht => ha s f (takes_concat.mpr (Or.inl ht)) with ⟨hg, hi⟩ | ⟨hb, hj⟩
    · by_cases hge : G (run step s₀ es) e
      · refine Or.inl ⟨fun s f ht => ?_, hI _ _ hi hl hge⟩
        rcases takes_concat.mp ht with ht | ⟨rfl, rfl⟩
        · exact hg s f ht
        · exact hge
      · exact Or.inr ⟨fun h => hge (h _ _ (takes_last s₀ es e)), hB _ _ hi hl hge⟩
    · exact Or.inr ⟨fun h => hb fun s f ht => h s f (takes_concat.mpr (Or.inl ht)), hJ _ _ hj hl⟩

theorem run_invariant_of {J : σ → Prop} {A : σ → ε → Prop} (hJ : ∀ s e, J s → A s e → J (step s e)) {s₀ : σ}
    (h₀ : J s₀) {es : List ε} (ha : ∀ s e, Takes step s₀ es s e → A s e) : J (run step s₀ es) := by
  induction es using List.reverseRecOn with
  | nil => exact h₀
  | append_singleton es e ih =>
    rw [run_concat]
    exact hJ _ _ (ih fun s f ht => ha s f (takes_concat.mpr (Or.inl ht))) (ha _ _ (takes_last s₀ es e))

def both {τ : Type*} (f : σ → ε → σ) (g : τ → ε → τ) (p : σ × τ) (e : ε) : σ × τ := (f p.1 e, g p.2 e)

theorem run_both {τ : Type*} (f : σ → ε → σ) (g : τ → ε → τ) (s : σ) (t : τ) (es : List ε) :
    run (both f g) (s, t) es = (run f s es, run g t es) := by
  induction es generalizing s t with
  | nil => rfl
  | cons e es ih => exact ih (f s e) (g t e)

theorem takes_both {τ : Type*} {f : σ → ε → σ} {g : τ → ε → τ} {s₀ : σ} {t₀ : τ} {es : List ε} {p : σ × τ} {e : ε} :
    Takes (both f g) (s₀, t₀) es p e ↔ ∃ pre post, es = pre ++ e :: post ∧ p.1 = run f s₀ pre ∧ p.2 = run g t₀ pre := by
  simp only [Takes, run_both, Prod.ext_iff]

theorem fold_log (obs : σ → ε → Option ο) (s₀ : σ) (es : List ε) :
    es.foldl (fun p e => (step p.1 e, (obs p.1 e).toList ++ p.2)) (s₀, []) =
      (run step s₀ es, log step obs s₀ es) := by
  induction es using List.reverseRecOn with
  | nil => rfl
  | append_singleton es e ih =>
    refine Prod.ext ?_ rfl
    rw [List.foldl_append, ih, run_concat]
    rfl

@[simp] theorem log_nil (obs : σ → ε → Option ο) (s₀ : σ) : log step obs s₀ [] = [] := rfl

theorem log_concat (obs : σ → ε → Option ο) (s₀ : σ) (es : List ε) (e : ε) :
    log step obs s₀ (es ++ [e]) = (obs (run step s₀ es) e).toList ++ log step obs s₀ es := by
  rw [log, List.foldl_append, fold_log]
  rfl

theorem reverse_log_concat (obs : σ → ε → Option ο) (s₀ : σ) (es : List ε) (e : ε) :
    (log step obs s₀ (es ++ [e])).reverse = (log step obs s₀ es).reverse ++ (obs (run step s₀ es) e).toList := by
  rw [log_concat, List.reverse_append]
  cases obs (run step s₀ es) e <;> rfl

def withHistory {η : Type*} (step : σ → ε → σ) (note : σ → ε → η → η) (p : σ × η) (e : ε) : σ × η :=
  (step p.1 e, note p.1 e p.2)

theorem run_withHistory {η : Type*} (note : σ → ε → η → η) (s₀ : σ) (h₀ : η) (es : List ε) :
    (run (withHistory step note) (s₀, h₀) es).1 = run step s₀ es := by
  induction es using List.reverseRecOn with
  | nil => rfl
  | append_singleton es e ih => rw [run_concat, run_concat, withHistory, ih]

end Library.Run

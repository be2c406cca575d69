import Mathlib

/-!
Finite dialogues. A `Script` asks questions and goes on with the answers, may
fail, and may let a turn pass; `bind` puts one script behind another. `Reaches`
is a session with its record, and `Move` one turn of a player who may also wait
for an answer, each time with less patience.
-/

namespace Library.Dialogue

inductive Script (Q A ε α : Type)
  | done (a : α)
  | fail (e : ε)
  | skip (next : Script Q A ε α)
  | ask (q : Q) (next : Except ε A → Script Q A ε α)

abbrev Record (Q A ε : Type) := List (Q × Except ε A)

namespace Script

variable {Q A ε α β : Type}

def bind : Script Q A ε α → (α → Script Q A ε β) → Script Q A ε β
  | done a, f => f a
  | fail e, _ => fail e
  | skip next, f => skip (next.bind f)
  | ask q next, f => ask q fun o => (next o).bind f

def attempt : Script Q A ε α → Script Q A ε (Except ε α)
  | done a => done (.ok a)
  | fail e => done (.error e)
  | skip next => skip next.attempt
  | ask q next => ask q fun o => (next o).attempt

def map (f : α → β) (p : Script Q A ε α) : Script Q A ε β := p.bind fun a => done (f a)

@[simp] theorem done_bind (a : α) (f : α → Script Q A ε β) : (done a).bind f = f a := rfl

@[simp] theorem fail_bind (e : ε) (f : α → Script Q A ε β) : (fail e).bind f = fail e := rfl

@[simp] theorem skip_bind (p : Script Q A ε α) (f : α → Script Q A ε β) : (skip p).bind f = skip (p.bind f) := rfl

@[simp] theorem ask_bind (q : Q) (next : Except ε A → Script Q A ε α) (f : α → Script Q A ε β) :
    (ask q next).bind f = ask q fun o => (next o).bind f := rfl

@[simp] theorem bind_done (p : Script Q A ε α) : p.bind done = p := by
  induction p with
  | done a => rfl
  | fail e => rfl
  | skip p ih => rw [skip_bind, ih]
  | ask q next ih =>
    rw [ask_bind]
    congr 1
    exact funext ih

theorem bind_assoc {γ : Type} (p : Script Q A ε α) (f : α → Script Q A ε β) (g : β → Script Q A ε γ) :
    (p.bind f).bind g = p.bind fun a => (f a).bind g := by
  induction p with
  | done a => rfl
  | fail e => rfl
  | skip p ih => rw [skip_bind, skip_bind, skip_bind, ih]
  | ask q next ih =>
    rw [ask_bind, ask_bind, ask_bind]
    congr 1
    exact funext ih

/-- One session: `Reaches p log r` when the answers in `log` lead from `p` to `r`. -/
inductive Reaches : Script Q A ε α → Record Q A ε → Script Q A ε α → Prop
  | here (p : Script Q A ε α) : Reaches p [] p
  | skip {p r : Script Q A ε α} {log : Record Q A ε} (h : Reaches p log r) : Reaches (.skip p) log r
  | ask {q : Q} {next : Except ε A → Script Q A ε α} {o : Except ε A} {r : Script Q A ε α} {log : Record Q A ε}
      (h : Reaches (next o) log r) : Reaches (.ask q next) ((q, o) :: log) r

def Returns (p : Script Q A ε α) (log : Record Q A ε) (a : α) : Prop := p.Reaches log (done a)

theorem Reaches.trans {p r r' : Script Q A ε α} {log log' : Record Q A ε} (h : p.Reaches log r)
    (h' : r.Reaches log' r') : p.Reaches (log ++ log') r' := by
  induction h with
  | here => exact h'
  | skip _ ih => exact (ih h').skip
  | ask _ ih => exact (ih h').ask

@[simp] theorem returns_done {a b : α} {log : Record Q A ε} : (done a).Returns log b ↔ log = [] ∧ a = b := by
  constructor
  · rintro ⟨⟩
    exact ⟨rfl, rfl⟩
  · rintro ⟨rfl, rfl⟩
    exact Reaches.here _

@[simp] theorem not_returns_fail {e : ε} {log : Record Q A ε} {a : α} : ¬(fail e).Returns log a := by
  rintro ⟨⟩

@[simp] theorem returns_skip {p : Script Q A ε α} {log : Record Q A ε} {a : α} :
    (skip p).Returns log a ↔ p.Returns log a := by
  constructor
  · rintro ⟨⟩
    assumption
  · exact Reaches.skip

theorem returns_ask {q : Q} {next : Except ε A → Script Q A ε α} {log : Record Q A ε} {a : α} :
    (ask q next).Returns log a ↔ ∃ o rest, log = (q, o) :: rest ∧ (next o).Returns rest a := by
  constructor
  · rintro ⟨⟩
    exact ⟨_, _, rfl, by assumption⟩
  · rintro ⟨o, rest, rfl, h⟩
    exact Reaches.ask h

theorem returns_bind {p : Script Q A ε α} {f : α → Script Q A ε β} {log : Record Q A ε} {b : β} :
    (p.bind f).Returns log b ↔ ∃ l l' a, log = l ++ l' ∧ p.Returns l a ∧ (f a).Returns l' b := by
  induction p generalizing log with
  | done a =>
    constructor
    · intro h
      exact ⟨[], log, a, rfl, Reaches.here _, h⟩
    · rintro ⟨l, l', a', rfl, h, h'⟩
      obtain ⟨rfl, rfl⟩ := returns_done.mp h
      exact h'
  | fail e =>
    constructor
    · intro h
      exact absurd h not_returns_fail
    · rintro ⟨l, l', a, -, h, -⟩
      exact absurd h not_returns_fail
  | skip p ih => simp only [skip_bind, returns_skip, ih]
  | ask q next ih =>
    rw [ask_bind, returns_ask]
    constructor
    · rintro ⟨o, rest, rfl, h⟩
      obtain ⟨l, l', a, rfl, h, h'⟩ := (ih o).mp h
      exact ⟨(q, o) :: l, l', a, rfl, Reaches.ask h, h'⟩
    · rintro ⟨l, l', a, rfl, h, h'⟩
      obtain ⟨o, rest, rfl, hn⟩ := returns_ask.mp h
      exact ⟨o, rest ++ l', rfl, (ih o).mpr ⟨rest, l', a, rfl, hn, h'⟩⟩

theorem map_map {γ : Type} (p : Script Q A ε α) (f : α → β) (g : β → γ) : (p.map f).map g = p.map fun a => g (f a) := by
  rw [map, map, bind_assoc]
  rfl

theorem returns_map {p : Script Q A ε α} {f : α → β} {log : Record Q A ε} {b : β} :
    (p.map f).Returns log b ↔ ∃ a, p.Returns log a ∧ f a = b := by
  rw [map, returns_bind]
  constructor
  · rintro ⟨l, l', a, rfl, h, h'⟩
    obtain ⟨rfl, rfl⟩ := returns_done.mp h'
    exact ⟨a, by rwa [List.append_nil], rfl⟩
  · rintro ⟨a, h, rfl⟩
    exact ⟨log, [], a, (List.append_nil _).symm, h, Reaches.here _⟩

def result : Script Q A ε α → Record Q A ε → Option α
  | done a, [] => some a
  | skip next, log => next.result log
  | ask _ next, (_, o) :: log => (next o).result log
  | _, _ => none

theorem result_of_returns {p : Script Q A ε α} {log : Record Q A ε} {a : α} (h : p.Returns log a) :
    p.result log = some a := by
  induction p generalizing log with
  | done b =>
    obtain ⟨rfl, rfl⟩ := returns_done.mp h
    rfl
  | fail e => exact absurd h not_returns_fail
  | skip p ih =>
    rw [result]
    exact ih (returns_skip.mp h)
  | ask q next ih =>
    obtain ⟨o, rest, rfl, hn⟩ := returns_ask.mp h
    rw [result]
    exact ih o hn

def consume : Script Q A ε α → Record Q A ε → Option (α × Record Q A ε)
  | done a, log => some (a, log)
  | skip next, log => next.consume log
  | ask _ next, (_, o) :: log => (next o).consume log
  | _, _ => none

def Asks (P : Q → Prop) : Script Q A ε α → Prop
  | done _ => True
  | fail _ => True
  | skip next => next.Asks P
  | ask q next => P q ∧ ∀ o, (next o).Asks P

theorem Asks.attempt {P : Q → Prop} {p : Script Q A ε α} (h : p.Asks P) : p.attempt.Asks P := by
  induction p with
  | done a => trivial
  | fail e => trivial
  | skip p ih => exact ih h
  | ask q next ih => exact ⟨h.1, fun o => ih o (h.2 o)⟩

theorem Asks.reaches {P : Q → Prop} {p r : Script Q A ε α} {log : Record Q A ε} (h : p.Asks P)
    (hr : p.Reaches log r) : (∀ x ∈ log, P x.1) ∧ r.Asks P := by
  induction hr with
  | here => exact ⟨fun x hx => absurd hx List.not_mem_nil, h⟩
  | skip _ ih => exact ih h
  | @ask q next o r log _ ih =>
    obtain ⟨hl, hr⟩ := ih (h.2 o)
    exact ⟨List.forall_mem_cons.mpr ⟨h.1, hl⟩, hr⟩

/-- One turn of a player: what is left of the script, and the patience with the open question. -/
inductive Move : Script Q A ε α × ℕ → Record Q A ε → Script Q A ε α × ℕ → Prop
  | skip (p : Script Q A ε α) (n n' : ℕ) : Move (.skip p, n) [] (p, n')
  | wait (q : Q) (next : Except ε A → Script Q A ε α) {n n' : ℕ} (h : n' < n) : Move (.ask q next, n) [] (.ask q next, n')
  | hear (q : Q) (next : Except ε A → Script Q A ε α) (n n' : ℕ) (o : Except ε A) :
      Move (.ask q next, n) [(q, o)] (next o, n')

theorem Move.reaches {a b : Script Q A ε α × ℕ} {log : Record Q A ε} (h : Move a log b) : a.1.Reaches log b.1 := by
  cases h with
  | skip p n n' => exact (Reaches.here p).skip
  | wait q next h => exact Reaches.here _
  | hear q next n n' o => exact (Reaches.here (next o)).ask

theorem Move.consume {a b : Script Q A ε α × ℕ} {log : Record Q A ε} (h : Move a log b) (rest : Record Q A ε) :
    a.1.consume (log ++ rest) = b.1.consume rest := by
  cases h with
  | skip p n n' => rfl
  | wait q next h => rfl
  | hear q next n n' o => rfl

theorem Move.bind {p p' : Script Q A ε α} {n n' : ℕ} {log : Record Q A ε} (h : Move (p, n) log (p', n'))
    (f : α → Script Q A ε β) : Move (p.bind f, n) log (p'.bind f, n') := by
  cases h with
  | skip => exact .skip _ _ _
  | wait q next h => exact .wait _ _ h
  | hear q next n n' o => exact .hear q (fun o => (next o).bind f) n n' o

theorem Move.attempt {p p' : Script Q A ε α} {n n' : ℕ} {log : Record Q A ε} (h : Move (p, n) log (p', n')) :
    Move (p.attempt, n) log (p'.attempt, n') := by
  cases h with
  | skip => exact .skip _ _ _
  | wait q next h => exact .wait _ _ h
  | hear q next n n' o => exact .hear q (fun o => (next o).attempt) n n' o

theorem Move.patience {p p' : Script Q A ε α} {n n' m : ℕ} {log : Record Q A ε} (h : Move (p, n) log (p', n'))
    (hm : m ≤ n') : Move (p, n) log (p', m) := by
  cases h with
  | skip => exact .skip _ _ _
  | wait q next h => exact .wait _ _ (lt_of_le_of_lt hm h)
  | hear q next n n' o => exact .hear q next n m o

def Pieces {ι τ : Type} (P : ι → List τ → Prop) : List ι → List τ → Prop
  | [], log => log = []
  | i :: is, log => ∃ l l', log = l ++ l' ∧ P i l ∧ Pieces P is l'

theorem Pieces.append {ι τ : Type} {P : ι → List τ → Prop} {is js : List ι} {log log' : List τ} (h : Pieces P is log)
    (h' : Pieces P js log') : Pieces P (is ++ js) (log ++ log') := by
  induction is generalizing log with
  | nil =>
    obtain rfl : log = [] := h
    exact h'
  | cons i is ih =>
    obtain ⟨l, l', rfl, hi, h⟩ := h
    exact ⟨l, l' ++ log', List.append_assoc _ _ _, hi, ih h⟩

theorem Pieces.piece {ι τ : Type} {P : ι → List τ → Prop} {is : List ι} {log : List τ} (h : Pieces P is log) {i : ι}
    (hi : i ∈ is) : ∃ l, P i l ∧ l <:+: log := by
  induction is generalizing log with
  | nil => exact absurd hi List.not_mem_nil
  | cons j is ih =>
    obtain ⟨l, l', rfl, hj, hs⟩ := h
    rcases List.mem_cons.mp hi with rfl | hi
    · exact ⟨l, hj, (List.prefix_append l l').isInfix⟩
    · obtain ⟨m, hm, hsub⟩ := ih hs hi
      exact ⟨m, hm, hsub.trans (List.suffix_append l l').isInfix⟩

theorem Pieces.mem {ι τ : Type} {P : ι → List τ → Prop} {is : List ι} {log : List τ} (h : Pieces P is log) {i : ι}
    (hi : i ∈ is) : ∃ l, P i l ∧ ∀ x ∈ l, x ∈ log := by
  obtain ⟨l, hl, hsub⟩ := h.piece hi
  exact ⟨l, hl, fun x hx => hsub.subset hx⟩

theorem Pieces.single {ι τ : Type} {P : ι → List τ → Prop} {i : ι} {log : List τ} (h : P i log) : Pieces P [i] log :=
  ⟨log, [], (List.append_nil _).symm, h, rfl⟩

def Turn (b a : Script Q A ε α × ℕ) : Prop := ∃ log, Move a log b

theorem turn_acc (p : Script Q A ε α) (n : ℕ) : Acc Turn (p, n) := by
  induction p generalizing n with
  | done a => exact ⟨_, fun b ⟨_, h⟩ => nomatch h⟩
  | fail e => exact ⟨_, fun b ⟨_, h⟩ => nomatch h⟩
  | skip p ih =>
    refine ⟨_, fun b ⟨log, h⟩ => ?_⟩
    cases h with
    | skip p n n' => exact ih n'
  | ask q next ih =>
    induction n using Nat.strong_induction_on with
    | _ n ihn =>
      refine ⟨_, fun b ⟨log, h⟩ => ?_⟩
      cases h with
      | wait q next h => exact ihn _ h
      | hear q next n n' o => exact ih o n'

end Script

open Script

def playing {σ E : Type} (next : σ → E → Option σ) (s : σ) (es : ℕ → E) : ℕ → Option σ
  | 0 => some s
  | n + 1 => (playing next s es n).bind fun s => next s (es n)

theorem playing_succ {σ E : Type} (next : σ → E → Option σ) (s : σ) (es : ℕ → E) (n : ℕ) :
    playing next s es (n + 1) = (next s (es 0)).bind fun s => playing next s (fun i => es (i + 1)) n := by
  induction n with
  | zero => simp [playing]
  | succ n ih => rw [playing, ih, Option.bind_assoc]; rfl

theorem playing_ends {Q A ε α σ E : Type} (pos : σ → Script Q A ε α × ℕ) {good : σ → Prop} {next : σ → E → Option σ}
    (h : ∀ s e s', good s → next s e = some s' → good s' ∧ Turn (pos s') (pos s)) {s : σ} (hs : good s) (es : ℕ → E) :
    ∃ n, playing next s es n = none := by
  have hacc := turn_acc (pos s).1 (pos s).2
  generalize hp : ((pos s).1, (pos s).2) = p at hacc
  induction hacc generalizing s es with
  | intro p _ ih =>
    cases hn : next s (es 0) with
    | none => exact ⟨1, by simp [playing, hn]⟩
    | some s' =>
      obtain ⟨hs', ht⟩ := h s (es 0) s' hs hn
      obtain ⟨n, hn'⟩ := ih (pos s') (hp ▸ ht) hs' (fun i => es (i + 1)) rfl
      exact ⟨n + 1, by rw [playing_succ, hn]; exact hn'⟩

theorem playing_last {σ E : Type} {next : σ → E → Option σ} {s : σ} {es : ℕ → E} {n : ℕ} (h : playing next s es n = none) :
    ∃ m s', playing next s es m = some s' ∧ next s' (es m) = none := by
  induction n with
  | zero => exact absurd h (by simp [playing])
  | succ n ih =>
    cases hn : playing next s es n with
    | none => exact ih hn
    | some s' =>
      rw [playing, hn] at h
      exact ⟨n, s', hn, h⟩

theorem playing_keeps {σ E : Type} {P : σ → Prop} {next : σ → E → Option σ}
    (h : ∀ s e s', P s → next s e = some s' → P s') {s : σ} (hs : P s) {es : ℕ → E} {n : ℕ} {s' : σ}
    (hn : playing next s es n = some s') : P s' := by
  induction n generalizing s' with
  | zero =>
    obtain rfl := Option.some.inj hn
    exact hs
  | succ n ih =>
    obtain ⟨t, ht, hnext⟩ := Option.bind_eq_some_iff.mp hn
    exact h t (es n) s' (ih ht) hnext

theorem playing_reaches {Q A ε α σ E : Type} (pos : σ → Script Q A ε α × ℕ) (record : σ → Record Q A ε)
    {good : σ → Prop} {next : σ → E → Option σ}
    (h : ∀ s e s', good s → next s e = some s' →
      good s' ∧ ∃ lines, record s' = record s ++ lines ∧ Move (pos s) lines (pos s'))
    {s : σ} (hs : good s) {es : ℕ → E} {n : ℕ} {s' : σ} (hn : playing next s es n = some s') :
    good s' ∧ ∃ lines, record s' = record s ++ lines ∧ (pos s).1.Reaches lines (pos s').1 := by
  induction n generalizing s' with
  | zero =>
    obtain rfl := Option.some.inj hn
    exact ⟨hs, [], (List.append_nil _).symm, Reaches.here _⟩
  | succ n ih =>
    obtain ⟨t, ht, hnext⟩ := Option.bind_eq_some_iff.mp hn
    obtain ⟨hgood, lines, hrec, hreach⟩ := ih ht
    obtain ⟨hgood', lines', hrec', hmove⟩ := h t (es n) s' hgood hnext
    exact ⟨hgood', lines ++ lines', by rw [hrec', hrec, List.append_assoc], hreach.trans hmove.reaches⟩

end Library.Dialogue

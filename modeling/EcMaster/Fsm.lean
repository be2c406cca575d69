import EcMaster.Exchange

namespace EcMaster

open Library.Dialogue Library.Dialogue.Script

abbrev Procedure (α : Type) := Script (List Access) (List UInt8) EcError α

variable {α β σ τ : Type}

def Turns (a : Procedure α × ℕ) (k : Link) (b : Procedure α × ℕ) (k' : Link) : Prop :=
  ∃ lines, k'.log = k.log ++ lines ∧ Move a lines b

theorem Turns.bind {p p' : Procedure α} {n n' : ℕ} {k k' : Link} (h : Turns (p, n) k (p', n') k')
    (f : α → Procedure β) : Turns (p.bind f, n) k (p'.bind f, n') k' := by
  obtain ⟨lines, hlog, hm⟩ := h
  exact ⟨lines, hlog, hm.bind f⟩

theorem Turns.attempt {p p' : Procedure α} {n n' : ℕ} {k k' : Link} (h : Turns (p, n) k (p', n') k') :
    Turns (p.attempt, n) k (p'.attempt, n') k' := by
  obtain ⟨lines, hlog, hm⟩ := h
  exact ⟨lines, hlog, hm.attempt⟩

theorem Turns.patience {p p' : Procedure α} {n n' m : ℕ} {k k' : Link} (h : Turns (p, n) k (p', n') k')
    (hm : m ≤ n') : Turns (p, n) k (p', m) k' := by
  obtain ⟨lines, hlog, hmv⟩ := h
  exact ⟨lines, hlog, hmv.patience hm⟩

theorem Turns.skip (p : Procedure α) (n n' : ℕ) (k : Link) : Turns (.skip p, n) k (p, n') k :=
  ⟨[], (List.append_nil _).symm, .skip p n n'⟩

def exchange (request : List Access) (hear : List UInt8 → Procedure α) : Procedure α :=
  .ask request fun
    | .error e => .fail e
    | .ok rx => hear rx

def replied (hear : Reply → Procedure α) (rx : List UInt8) : Procedure α :=
  match parse rx with
  | none => .fail .frameTooShort
  | some reply => hear reply

def confirmed (next : Procedure α) (reply : Reply) : Procedure α :=
  if reply.workingCounter ≠ 1 then .fail .workingCounter else next

theorem returns_exchange {request : List Access} {hear : List UInt8 → Procedure α} {log : Exchanged} {a : α} :
    (exchange request hear).Returns log a ↔ ∃ rx rest, log = (request, .ok rx) :: rest ∧ (hear rx).Returns rest a := by
  rw [exchange, returns_ask]
  constructor
  · rintro ⟨_ | rx, rest, rfl, h⟩
    · exact absurd h not_returns_fail
    · exact ⟨rx, rest, rfl, h⟩
  · rintro ⟨rx, rest, rfl, h⟩
    exact ⟨.ok rx, rest, rfl, h⟩

theorem returns_replied {hear : Reply → Procedure α} {rx : List UInt8} {log : Exchanged} {a : α} :
    (replied hear rx).Returns log a ↔ ∃ reply, parse rx = some reply ∧ (hear reply).Returns log a := by
  rw [replied]
  cases parse rx with
  | none => simp
  | some reply => simp

theorem returns_confirmed {next : Procedure α} {reply : Reply} {log : Exchanged} {a : α} :
    (confirmed next reply).Returns log a ↔ reply.workingCounter = 1 ∧ next.Returns log a := by
  rw [confirmed]
  split
  · simp_all
  · simp_all

def asking : Procedure α → List (List Access)
  | .ask q _ => [q]
  | _ => []

section Reaches

variable {log : Exchanged} {r : Procedure α}

theorem reaches_fail {e : EcError} (h : (Script.fail e : Procedure α).Reaches log r) : log = [] ∧ r = .fail e := by
  cases h
  exact ⟨rfl, rfl⟩

theorem reaches_done {a : α} (h : (Script.done a : Procedure α).Reaches log r) : log = [] ∧ r = .done a := by
  cases h
  exact ⟨rfl, rfl⟩

theorem reaches_heard {request : List Access} {hear : Reply → Procedure α}
    (h : (exchange request (replied hear)).Reaches log r) :
    (log = [] ∧ asking r = [request] ∧ (∀ a, r ≠ .done a) ∧ ∀ e, r ≠ .fail e) ∨
      (∃ e, log = [(request, .error e)] ∧ r = .fail e) ∨
      (∃ rx, log = [(request, .ok rx)] ∧ parse rx = none ∧ r = .fail .frameTooShort) ∨
      ∃ rx reply rest, log = (request, .ok rx) :: rest ∧ parse rx = some reply ∧ (hear reply).Reaches rest r := by
  rcases h with _ | _ | @⟨_, _, o, _, rest, h⟩
  · exact Or.inl ⟨rfl, rfl, nofun, nofun⟩
  cases o with
  | error e =>
    obtain ⟨rfl, rfl⟩ := reaches_fail h
    exact Or.inr (Or.inl ⟨e, rfl, rfl⟩)
  | ok rx =>
    dsimp only at h
    rw [replied] at h
    cases hp : parse rx with
    | none =>
      rw [hp] at h
      obtain ⟨rfl, rfl⟩ := reaches_fail h
      exact Or.inr (Or.inr (Or.inl ⟨rx, rfl, hp, rfl⟩))
    | some reply =>
      rw [hp] at h
      exact Or.inr (Or.inr (Or.inr ⟨rx, reply, rest, rfl, hp, h⟩))

end Reaches

def position (script : σ → Procedure α) (left : σ → ℕ) (result : σ → α) :
    Except EcError (Bool × σ) → Procedure α × ℕ
  | .error e => (.fail e, Exchange.fresh)
  | .ok (true, s) => (.done (result s), Exchange.fresh)
  | .ok (false, s) => (script s, left s)

theorem Exchange.left_le (x : Exchange) : x.left ≤ fresh := by
  rw [left]
  split
  · exact le_rfl
  · exact (Nat.sub_le _ _).trans (Nat.le_succ _)

theorem Pump.miss_cases (p : Pump) (maxAttempts : ℕ) :
    (p.miss maxAttempts).1 = .error .timeout ∨
      (p.miss maxAttempts = (.ok none, { p with attempts := p.attempts + 1 }) ∧ p.attempts + 1 < maxAttempts) := by
  rw [miss]
  dsimp only
  split
  · exact Or.inl rfl
  · exact Or.inr ⟨rfl, by omega⟩

theorem Device.pump_cases (dev : Device) (p : Pump) (frame : List UInt8) (outLen maxAttempts : ℕ) :
    (∃ e, (dev.pump p frame outLen maxAttempts).1 = .error e) ∨
      (∃ rx, (dev.pump p frame outLen maxAttempts).1 = .ok (some rx)) ∨
      ((dev.pump p frame outLen maxAttempts).1 = .ok none ∧ (dev.pump p frame outLen maxAttempts).2.1.sent = true ∧
        ((p.sent = false ∧ (dev.pump p frame outLen maxAttempts).2.1.attempts = 0) ∨
          (p.sent = true ∧ (dev.pump p frame outLen maxAttempts).2.1.attempts = p.attempts + 1 ∧
            p.attempts + 1 < maxAttempts))) := by
  have hmiss := p.miss_cases maxAttempts
  rw [pump]
  cases hs : p.sent with
  | false =>
    rw [Bool.not_false, if_pos rfl]
    rcases dev.send frame with ⟨_ | _, dev'⟩
    · exact Or.inl ⟨_, rfl⟩
    · exact Or.inr (Or.inr ⟨rfl, rfl, Or.inl ⟨rfl, rfl⟩⟩)
  | true =>
    rw [Bool.not_true, if_neg (by decide)]
    have hwait : (p.miss maxAttempts).1 = .error .timeout ∨ ((p.miss maxAttempts).1 = .ok none ∧
        (p.miss maxAttempts).2.sent = true ∧ (p.miss maxAttempts).2.attempts = p.attempts + 1 ∧
          p.attempts + 1 < maxAttempts) := by
      rcases hmiss with he | ⟨hm, hlt⟩
      · exact Or.inl he
      · exact Or.inr ⟨by rw [hm], by rw [hm]; exact hs, by rw [hm], hlt⟩
    rcases dev.poll outLen with ⟨_ | rx, dev'⟩
    · rcases hwait with he | ⟨h₁, h₂, h₃, h₄⟩
      · exact Or.inl ⟨_, he⟩
      · exact Or.inr (Or.inr ⟨h₁, h₂, Or.inr ⟨rfl, h₃, h₄⟩⟩)
    · dsimp only
      split
      · exact Or.inr (Or.inl ⟨rx, rfl⟩)
      · rcases hwait with he | ⟨h₁, h₂, h₃, h₄⟩
        · exact Or.inl ⟨_, he⟩
        · exact Or.inr (Or.inr ⟨h₁, h₂, Or.inr ⟨rfl, h₃, h₄⟩⟩)

namespace Exchange

theorem left_waiting {x : Exchange} {tx : UInt8 × List Access} (h : x.tx = some tx) (hs : x.pump.sent = true) :
    x.left = pumpMaxAttempts - x.pump.attempts := by
  rw [left, if_neg]
  rw [h, hs]
  simp

theorem drive_cases (x : Exchange) (b : Buffers) (request : List Access) (k : Link) :
    (∃ e, (x.drive b request k).1 = .error e ∧
        (x.drive b request k).2.2.log = k.log ++ [(x.asked request, .error e)]) ∨
      (∃ rx, (x.drive b request k).1 = .ok (some rx) ∧
        (x.drive b request k).2.2.log = k.log ++ [(x.asked request, .ok rx)]) ∨
      ((x.drive b request k).1 = .ok none ∧ (x.drive b request k).2.2.log = k.log ∧
        (∃ index, (x.drive b request k).2.1.tx = some (index, x.asked request)) ∧
          (x.drive b request k).2.1.left < x.left) := by
  rcases htx : x.tx with _ | ⟨index, asked⟩
  · have hask : x.asked request = request := by rw [Exchange.asked, htx]
    have hleft : x.left = fresh := if_pos (Or.inl htx)
    rw [hask, hleft, drive, htx]
    dsimp only
    rcases Device.pump_cases k.device x.pump.reset (Access.frame b.tx k.index request) b.rx pumpMaxAttempts with
      ⟨e, he⟩ | ⟨rx, hrx⟩ | ⟨hn, hsent, hp⟩
    · exact Or.inl ⟨e, he, by rw [he]; rfl⟩
    · exact Or.inr (Or.inl ⟨rx, hrx, by rw [hrx]; rfl⟩)
    · refine Or.inr (Or.inr ⟨hn, by rw [hn]; exact List.append_nil _, ⟨k.index, rfl⟩, ?_⟩)
      rcases hp with ⟨-, hp⟩ | ⟨hs, -, -⟩
      · rw [left_waiting rfl hsent, hp]
        exact Nat.lt_succ_self _
      · exact absurd hs (by simp [Pump.reset])
  · have hask : x.asked request = asked := by rw [Exchange.asked, htx]
    rw [hask, drive, htx]
    dsimp only
    rcases Device.pump_cases k.device x.pump (Access.frame b.tx index asked) b.rx pumpMaxAttempts with
      ⟨e, he⟩ | ⟨rx, hrx⟩ | ⟨hn, hsent, hp⟩
    · exact Or.inl ⟨e, he, by rw [he]; rfl⟩
    · exact Or.inr (Or.inl ⟨rx, hrx, by rw [hrx]; rfl⟩)
    · refine Or.inr (Or.inr ⟨hn, by rw [hn]; exact List.append_nil _, ⟨index, rfl⟩, ?_⟩)
      rcases hp with ⟨hs, hp⟩ | ⟨hs, hp, hlt⟩
      · rw [left_waiting rfl hsent, hp, left, if_pos (Or.inr (by rw [hs]; rfl))]
        exact Nat.lt_succ_self _
      · rw [left_waiting rfl hsent, hp, left_waiting htx hs]
        omega

theorem step_turns {x : Exchange} {b : Buffers} {request : List Access} {k : Link} {stay : Exchange → β}
    {hear : List UInt8 → Except EcError β} {pos : Except EcError β → Procedure α × ℕ} {next : List UInt8 → Procedure α}
    (hstay : ∀ y index, y.tx = some (index, x.asked request) →
      pos (.ok (stay y)) = (exchange (x.asked request) next, y.left))
    (herr : ∀ e, (pos (.error e)).1 = .fail e) (hhear : ∀ rx, (pos (hear rx)).1 = next rx) :
    Turns (exchange (x.asked request) next, x.left) k (pos (x.step b request k stay hear).1)
      (x.step b request k stay hear).2 := by
  have hcases := x.drive_cases b request k
  rw [step]
  rcases hd : x.drive b request k with ⟨_ | _ | rx, y, k'⟩
  all_goals rw [hd] at hcases
  all_goals simp only [reduceCtorEq, false_and, exists_false, false_or, or_false, Except.error.injEq, Except.ok.injEq,
    Option.some.injEq, exists_eq_left', true_and] at hcases
  case error e =>
    refine ⟨_, hcases, ?_⟩
    have hp : pos (.error e) = (.fail e, (pos (.error e)).2) := Prod.ext (herr e) rfl
    rw [hp]
    exact .hear _ _ _ _ (.error e)
  case ok.none =>
    obtain ⟨hlog, ⟨index, htx⟩, hlt⟩ := hcases
    refine ⟨[], by rw [List.append_nil]; exact hlog, ?_⟩
    dsimp only
    rw [hstay y index htx]
    exact .wait _ _ hlt
  case ok.some =>
    refine ⟨_, hcases, ?_⟩
    have hp : pos (hear rx) = (next rx, (pos (hear rx)).2) := Prod.ext (hhear rx) rfl
    dsimp only
    rw [hp]
    exact .hear _ _ _ _ (.ok rx)

end Exchange

def Exchange.resume (x : Exchange) : Procedure α → Procedure α
  | .ask request next => .ask (x.asked request) next
  | p => p

@[simp] theorem Exchange.resume_idle (p : Procedure α) : Exchange.idle.resume p = p := by
  cases p <;> rfl

@[simp] theorem Exchange.left_idle : Exchange.idle.left = Exchange.fresh := rfl

theorem Exchange.poll_turns {x : Exchange} {b : Buffers} {request : List Access} {k : Link} {stay : Exchange → σ}
    {hear : List UInt8 → Except EcError (Bool × σ)} {script : σ → Procedure α} {left : σ → ℕ} {result : σ → α}
    {next : List UInt8 → Procedure α} (hscript : ∀ y, script (stay y) = y.resume (exchange request next))
    (hleft : ∀ y, left (stay y) = y.left) (hhear : ∀ rx, (position script left result (hear rx)).1 = next rx) :
    Turns (x.resume (exchange request next), x.left) k
      (position script left result (x.step b request k (fun y => (false, stay y)) hear).1)
      (x.step b request k (fun y => (false, stay y)) hear).2 := by
  refine step_turns (fun y index hy => ?_) (fun e => rfl) hhear
  have hasked : y.asked request = x.asked request := by rw [asked, hy]
  change (script (stay y), left (stay y)) = _
  rw [hscript, hleft, exchange, resume, hasked]
  rfl

theorem hear_onReply {hear : Reply → Except EcError (Bool × σ)} {script : σ → Procedure α} {left : σ → ℕ}
    {result : σ → α} {next : Reply → Procedure α}
    (h : ∀ reply, (position script left result (hear reply)).1 = next reply) (rx : List UInt8) :
    (position script left result (onReply hear rx)).1 = replied next rx := by
  rw [onReply, replied]
  cases parse rx with
  | none => rfl
  | some reply => exact h reply

structure Plays (script : σ → Procedure α) (left : σ → ℕ) (result : σ → α) (good : σ → Prop) (s : σ) (k : Link)
    (r : Except EcError (Bool × σ) × Link) : Prop where
  turns : Turns (script s, left s) k (position script left result r.1) r.2
  keeps : ∀ s', r.1 = .ok (false, s') → good s'

/-- A state machine with the procedure that it follows, one turn each step. -/
structure Fsm (σ α : Type) where
  step : σ → Link → Except EcError (Bool × σ) × Link
  script : σ → Procedure α
  left : σ → ℕ
  result : σ → α
  good : σ → Prop
  left_le : ∀ s, left s ≤ Exchange.fresh
  plays : ∀ s k, good s → Plays script left result good s k (step s k)

def Fsm.simple (step : σ → Link → Except EcError (Bool × σ) × Link) (script : σ → Procedure α) (left : σ → ℕ)
    (result : σ → α) (left_le : ∀ s, left s ≤ Exchange.fresh)
    (turns : ∀ s k, Turns (script s, left s) k (position script left result (step s k).1) (step s k).2) : Fsm σ α :=
  ⟨step, script, left, result, fun _ => True, left_le, fun s k _ => ⟨turns s k, fun _ _ => trivial⟩⟩

def nested (r : Except EcError (Bool × σ) × Link) (stay : σ → β) (finish : σ → Except EcError β) :
    Except EcError β × Link :=
  (match r.1 with
    | .error e => .error e
    | .ok (false, s) => .ok (stay s)
    | .ok (true, s) => finish s, r.2)

theorem Fsm.nested_turns {γ : Type} (m : Fsm σ α) {s : σ} {k : Link} {stay : σ → β} {finish : σ → Except EcError β}
    {f : α → Procedure γ} {pos : Except EcError β → Procedure γ × ℕ} (hs : m.good s)
    (herr : ∀ e, pos (.error e) = (.fail e, Exchange.fresh))
    (hstay : ∀ s', pos (.ok (stay s')) = ((m.script s').bind f, m.left s'))
    (hdone : ∀ s', (pos (finish s')).1 = f (m.result s') ∧ (pos (finish s')).2 ≤ Exchange.fresh) :
    Turns ((m.script s).bind f, m.left s) k (pos (nested (m.step s k) stay finish).1)
      (nested (m.step s k) stay finish).2 := by
  have h := (m.plays s k hs).turns
  rw [nested]
  rcases hr : m.step s k with ⟨_ | ⟨_ | _, s'⟩, k'⟩
  all_goals rw [hr] at h
  · dsimp only
    rw [herr]
    exact h.bind f
  · dsimp only
    rw [hstay]
    exact h.bind f
  · obtain ⟨hp, hn⟩ := hdone s'
    have hpos : pos (finish s') = (f (m.result s'), (pos (finish s')).2) := Prod.ext hp rfl
    dsimp only
    rw [hpos]
    exact (h.bind f).patience hn

theorem Fsm.nested_ok (m : Fsm σ α) {s : σ} {k : Link} {stay : σ → β} {finish : σ → Except EcError β} {b : β}
    (hs : m.good s) (h : (nested (m.step s k) stay finish).1 = .ok b) :
    (∃ s', m.good s' ∧ b = stay s') ∨ ∃ s', finish s' = .ok b := by
  have hkeep := (m.plays s k hs).keeps
  rw [nested] at h
  rcases hr : m.step s k with ⟨_ | ⟨_ | _, s'⟩, k'⟩
  all_goals rw [hr] at h hkeep
  · exact absurd h (by simp)
  · exact Or.inl ⟨s', hkeep s' rfl, (Except.ok.inj h).symm⟩
  · exact Or.inr ⟨s', h⟩

theorem Exchange.step_ok {x : Exchange} {bufs : Buffers} {request : List Access} {k : Link} {stay : Exchange → β}
    {hear : List UInt8 → Except EcError β} {b : β} (h : (x.step bufs request k stay hear).1 = .ok b) :
    (∃ y, b = stay y) ∨ ∃ rx, hear rx = .ok b := by
  rw [step] at h
  rcases hd : x.drive bufs request k with ⟨_ | _ | rx, y, k'⟩
  all_goals rw [hd] at h
  · exact absurd h (by simp)
  · exact Or.inl ⟨y, (Except.ok.inj h).symm⟩
  · exact Or.inr ⟨rx, h⟩

theorem onReply_ok {hear : Reply → Except EcError β} {rx : List UInt8} {b : β} (h : onReply hear rx = .ok b) :
    ∃ reply, parse rx = some reply ∧ hear reply = .ok b := by
  rw [onReply] at h
  cases hp : parse rx with
  | none => rw [hp] at h; exact absurd h (by simp)
  | some reply => rw [hp] at h; exact ⟨reply, rfl, h⟩

def calls (step : σ → Link → Except EcError (Bool × σ) × Link) (s : σ) (log : Exchanged) :
    List (Device × UInt8) → Except EcError (Bool × σ) × Exchanged
  | [] => (.ok (false, s), log)
  | (device, index) :: es =>
    match step s ⟨device, index, log⟩ with
    | (.ok (false, s), k) => calls step s k.log es
    | (r, k) => (r, k.log)

def finished : Except EcError (Bool × σ) → Bool
  | .ok (true, _) => true
  | _ => false

theorem of_finished {r : Except EcError (Bool × σ) × τ} (h : finished r.1 = true) : ∃ s, r = (.ok (true, s), r.2) := by
  obtain ⟨e | ⟨_ | _, s⟩, log⟩ := r
  · exact absurd h Bool.false_ne_true
  · exact absurd h Bool.false_ne_true
  · exact ⟨s, rfl⟩

theorem Fsm.calls_reaches (m : Fsm σ α) {s : σ} (hs : m.good s) (log : Exchanged) (es : List (Device × UInt8)) :
    ∃ lines, (calls m.step s log es).2 = log ++ lines ∧
      (m.script s).Reaches lines (position m.script m.left m.result (calls m.step s log es).1).1 := by
  induction es generalizing s log with
  | nil => exact ⟨[], (List.append_nil _).symm, Reaches.here _⟩
  | cons e es ih =>
    obtain ⟨⟨lines, hlog, hm⟩, hkeep⟩ := m.plays s ⟨e.1, e.2, log⟩ hs
    have hr := hm.reaches
    rw [calls]
    rcases hstep : m.step s ⟨e.1, e.2, log⟩ with ⟨_ | ⟨_ | _, s'⟩, k⟩
    all_goals rw [hstep] at hlog hr hkeep
    · exact ⟨lines, hlog, hr⟩
    · obtain ⟨lines', hlog', hr'⟩ := ih (hkeep s' rfl) k.log
      exact ⟨lines ++ lines', by rw [hlog', hlog, List.append_assoc], hr.trans hr'⟩
    · exact ⟨lines, hlog, hr⟩

theorem Fsm.returns_of_calls (m : Fsm σ α) {s s' : σ} (hs : m.good s) {es : List (Device × UInt8)} {log : Exchanged}
    (h : calls m.step s [] es = (.ok (true, s'), log)) : (m.script s).Returns log (m.result s') := by
  obtain ⟨lines, hlog, hr⟩ := m.calls_reaches hs [] es
  rw [h] at hlog hr
  rw [List.nil_append] at hlog
  rw [show log = lines from hlog]
  exact hr

def polls (es : ℕ → Device × UInt8) (n : ℕ) : List (Device × UInt8) := (List.range n).map es

theorem polls_succ (es : ℕ → Device × UInt8) (n : ℕ) : polls es (n + 1) = es 0 :: polls (fun i => es (i + 1)) n := by
  rw [polls, List.range_succ_eq_map, List.map_cons, List.map_map]
  rfl

def advance (step : σ → Link → Except EcError (Bool × σ) × Link) (p : σ × Exchanged) (e : Device × UInt8) :
    Option (σ × Exchanged) :=
  match step p.1 ⟨e.1, e.2, p.2⟩ with
  | (.ok (false, s), k) => some (s, k.log)
  | _ => none

theorem playing_of_calls {step : σ → Link → Except EcError (Bool × σ) × Link} {s s' : σ} {log : Exchanged}
    {es : ℕ → Device × UInt8} {n : ℕ} (h : (calls step s log (polls es n)).1 = .ok (false, s')) :
    playing (advance step) (s, log) es n ≠ none := by
  induction n generalizing s log es with
  | zero => exact Option.some_ne_none _
  | succ n ih =>
    rw [polls_succ, calls] at h
    rw [playing_succ, advance]
    rcases hstep : step s ⟨(es 0).1, (es 0).2, log⟩ with ⟨_ | ⟨_ | _, s''⟩, k⟩
    all_goals rw [hstep] at h
    · exact absurd h nofun
    · exact ih h
    · exact absurd h nofun

theorem Fsm.calls_end (m : Fsm σ α) {s : σ} (hs : m.good s) (es : ℕ → Device × UInt8) :
    ∃ n, ∀ s', (calls m.step s [] (polls es n)).1 ≠ .ok (false, s') := by
  have hturn : ∀ (p : σ × Exchanged) (e : Device × UInt8) (p' : σ × Exchanged), m.good p.1 →
      advance m.step p e = some p' → m.good p'.1 ∧ Turn (m.script p'.1, m.left p'.1) (m.script p.1, m.left p.1) := by
    intro p e p' hp h
    obtain ⟨⟨lines, -, hmove⟩, hkeep⟩ := m.plays p.1 ⟨e.1, e.2, p.2⟩ hp
    rw [advance] at h
    rcases hstep : m.step p.1 ⟨e.1, e.2, p.2⟩ with ⟨_ | ⟨_ | _, s'⟩, k⟩
    all_goals rw [hstep] at h hmove hkeep
    · exact absurd h nofun
    · obtain rfl := Option.some.inj h
      exact ⟨hkeep s' rfl, lines, hmove⟩
    · exact absurd h nofun
  obtain ⟨n, hn⟩ := playing_ends (fun p : σ × Exchanged => (m.script p.1, m.left p.1)) hturn
    (show m.good (s, ([] : Exchanged)).1 from hs) es
  exact ⟨n, fun s' h => playing_of_calls h hn⟩

theorem calls_append {step : σ → Link → Except EcError (Bool × σ) × Link} {s : σ} {log : Exchanged}
    {es : List (Device × UInt8)} (h : ∀ s', (calls step s log es).1 ≠ .ok (false, s')) (fs : List (Device × UInt8)) :
    calls step s log (es ++ fs) = calls step s log es := by
  induction es generalizing s log with
  | nil => exact absurd rfl (h s)
  | cons e es ih =>
    rw [calls] at h
    rw [List.cons_append, calls, calls]
    rcases hstep : step s ⟨e.1, e.2, log⟩ with ⟨_ | ⟨_ | _, s'⟩, k⟩
    · rfl
    · rw [hstep] at h
      exact ih h
    · rfl

theorem polls_add (es : ℕ → Device × UInt8) (n m : ℕ) : polls es (n + m) = polls es n ++ polls (fun i => es (n + i)) m := by
  rw [polls, List.range_add, List.map_append, List.map_map]
  rfl

theorem calls_always {step : σ → Link → Except EcError (Bool × σ) × Link} {s : σ} {es : ℕ → Device × UInt8} {k : ℕ}
    {P : Except EcError (Bool × σ) × Exchanged → Prop} (hend : finished (calls step s [] (polls es k)).1 = true)
    (h : ∀ n < k + 1, P (calls step s [] (polls es n))) (n : ℕ) : P (calls step s [] (polls es n)) := by
  by_cases hn : n < k + 1
  · exact h n hn
  · obtain ⟨m, rfl⟩ := Nat.exists_eq_add_of_le (Nat.le_of_succ_le (Nat.not_lt.mp hn))
    rw [polls_add, calls_append fun s' hs => ?_]
    · exact h k (Nat.lt_succ_self k)
    · rw [hs] at hend
      exact absurd hend Bool.false_ne_true

end EcMaster

import EcMaster.Agenda

namespace EcMaster

open Library.Dialogue Library.Dialogue.Script Library.Segment Library.LittleEndian

def statusAsk (station : UInt16) : List Access := [⟨.fprd, station, regAlStatus, [0, 0]⟩]

def ackWrite (station : UInt16) (target : UInt8) : List Access :=
  [⟨.fpwr, station, regAlControl, [target ||| alStateAckError, 0]⟩]

def codeAsk (station : UInt16) : List Access := [⟨.fprd, station, regAlStatusCode, [0, 0]⟩]

def ErrorSeen (station : UInt16) (x : List Access × Except EcError (List UInt8)) : Prop :=
  x.1 = statusAsk station ∧ ∃ rx reply, x.2 = .ok rx ∧ parse rx = some reply ∧ reply.workingCounter = 1 ∧
    reply.data.headD 0 &&& alStateError ≠ 0

def codeWord : List UInt8 → UInt16
  | low :: high :: _ => UInt16.ofNat (low.toNat + 256 * high.toNat)
  | _ => 0

theorem statusCode_bytes (reply : Reply) : statusCode reply = codeWord reply.data := by
  rw [statusCode]
  rcases reply.data with _ | ⟨low, _ | ⟨high, rest⟩⟩
  · rfl
  · rfl
  · exact if_pos (by simp)

def codeError : Except EcError (List UInt8) → EcError
  | .error e => e
  | .ok rx =>
    match parse rx with
    | none => .frameTooShort
    | some reply => .stateChange (codeWord reply.data)

theorem ackWrite_ne_statusAsk (station : UInt16) (target : UInt8) : ackWrite station target ≠ statusAsk station := by
  simp [ackWrite, statusAsk]

theorem ackWrite_ne_codeAsk (station : UInt16) (target : UInt8) : ackWrite station target ≠ codeAsk station := by
  simp [ackWrite, codeAsk]

theorem codeAsk_ne_statusAsk (station : UInt16) : codeAsk station ≠ statusAsk station := by
  simp [codeAsk, statusAsk, regAlStatusCode, regAlStatus]

section Session

variable {station : UInt16} {target : UInt8} {log : Exchanged} {r : Procedure Unit}

def Quiet (station : UInt16) (x : List Access × Except EcError (List UInt8)) : Prop :=
  x.1 = statusAsk station ∧ ¬ErrorSeen station x

theorem quiet_of_reply {o : Except EcError (List UInt8)}
    (h : ∀ rx reply, o = .ok rx → parse rx = some reply → reply.workingCounter = 1 →
      reply.data.headD 0 &&& alStateError = 0) : Quiet station (statusAsk station, o) := by
  refine ⟨rfl, ?_⟩
  rintro ⟨-, rx, reply, ho, hp, hw, he⟩
  exact he (h rx reply ho hp hw)

theorem reaches_status {onError again : Procedure Unit}
    (h : (exchange (statusAsk station) (replied (heardStatus target onError again))).Reaches log r) :
    ((∀ x ∈ log, Quiet station x) ∧ ∀ q ∈ asking r, q = statusAsk station) ∨
      ∃ x l, log = x :: l ∧ (ErrorSeen station x ∧ onError.Reaches l r ∨ Quiet station x ∧ again.Reaches l r) := by
  rcases reaches_heard h with ⟨rfl, hask, -⟩ | ⟨e, rfl, rfl⟩ | ⟨rx, rfl, hp, rfl⟩ | ⟨rx, reply, rest, rfl, hp, h⟩
  · refine Or.inl ⟨fun x hx => absurd hx List.not_mem_nil, fun q hq => ?_⟩
    rw [hask] at hq
    exact List.mem_singleton.mp hq
  · exact Or.inl ⟨List.forall_mem_singleton.mpr (quiet_of_reply fun _ _ h => by cases h), fun q hq => absurd hq List.not_mem_nil⟩
  · refine Or.inl ⟨List.forall_mem_singleton.mpr (quiet_of_reply fun rx' reply hrx hp' => ?_), fun q hq => absurd hq List.not_mem_nil⟩
    obtain rfl := Except.ok.inj hrx
    cases hp.symm.trans hp'
  · have hquiet (hz : reply.workingCounter = 1 → reply.data.headD 0 &&& alStateError = 0) :
        Quiet station (statusAsk station, .ok rx) := by
      refine quiet_of_reply fun rx' reply' hrx hp' => ?_
      obtain rfl := Except.ok.inj hrx
      obtain rfl := Option.some.inj (hp.symm.trans hp')
      exact hz
    rw [heardStatus, confirmed] at h
    split_ifs at h with hw he ht
    · obtain ⟨rfl, rfl⟩ := reaches_fail h
      exact Or.inl ⟨List.forall_mem_singleton.mpr (hquiet fun h₁ => absurd h₁ hw), fun q hq => absurd hq List.not_mem_nil⟩
    · exact Or.inr ⟨_, rest, rfl, Or.inl ⟨⟨rfl, rx, reply, rfl, hp, not_not.mp hw, he⟩, h⟩⟩
    · obtain ⟨rfl, rfl⟩ := reaches_done h
      exact Or.inl ⟨List.forall_mem_singleton.mpr (hquiet fun _ => not_not.mp he), fun q hq => absurd hq List.not_mem_nil⟩
    · exact Or.inr ⟨_, rest, rfl, Or.inr ⟨hquiet fun _ => not_not.mp he, h⟩⟩

theorem reaches_awaitState {onError : Procedure Unit} {n : ℕ}
    (h : (awaitState station target onError n).Reaches log r) :
    ((∀ x ∈ log, Quiet station x) ∧ ∀ q ∈ asking r, q = statusAsk station) ∨
      ∃ early x l, log = early ++ x :: l ∧ (∀ y ∈ early, Quiet station y) ∧ ErrorSeen station x ∧
        onError.Reaches l r := by
  induction n generalizing log with
  | zero =>
    rcases reaches_status h with hq | ⟨x, l, rfl, ⟨hx, hl⟩ | ⟨hx, hl⟩⟩
    · exact Or.inl hq
    · exact Or.inr ⟨[], x, l, rfl, nofun, hx, hl⟩
    · obtain ⟨rfl, rfl⟩ := reaches_fail hl
      exact Or.inl ⟨List.forall_mem_singleton.mpr hx, nofun⟩
  | succ n ih =>
    rcases reaches_status h with hq | ⟨x, l, rfl, ⟨hx, hl⟩ | ⟨hx, hl⟩⟩
    · exact Or.inl hq
    · exact Or.inr ⟨[], x, l, rfl, nofun, hx, hl⟩
    · rcases ih hl with ⟨hq, hask⟩ | ⟨early, y, l, rfl, hq, hy, hl⟩
      · exact Or.inl ⟨List.forall_mem_cons.mpr ⟨hx, hq⟩, hask⟩
      · exact Or.inr ⟨x :: early, y, l, rfl, List.forall_mem_cons.mpr ⟨hx, hq⟩, hy, hl⟩

theorem reaches_readCode (h : (readCode station).Reaches log r) :
    (log = [] ∧ asking r = [codeAsk station] ∧ (∀ a, r ≠ .done a) ∧ ∀ e, r ≠ .fail e) ∨
      ∃ o, log = [(codeAsk station, o)] ∧ r = .fail (codeError o) := by
  rcases reaches_heard h with hopen | ⟨e, rfl, rfl⟩ | ⟨rx, rfl, hp, rfl⟩ | ⟨rx, reply, rest, rfl, hp, h⟩
  · exact Or.inl hopen
  · exact Or.inr ⟨.error e, rfl, rfl⟩
  · exact Or.inr ⟨.ok rx, rfl, by simp only [codeError, hp]⟩
  · obtain ⟨rfl, rfl⟩ := reaches_fail h
    exact Or.inr ⟨.ok rx, rfl, by simp only [codeError, hp, statusCode_bytes]⟩

theorem reaches_confirmed {request : List Access} {next : Procedure Unit}
    (h : (exchange request (replied (confirmed next))).Reaches log r) :
    (log = [] ∧ asking r = [request]) ∨
      ∃ x l, log = x :: l ∧ x.1 = request ∧ ((l = [] ∧ asking r = []) ∨ next.Reaches l r) := by
  rcases reaches_heard h with ⟨rfl, hask, -⟩ | ⟨e, rfl, rfl⟩ | ⟨rx, rfl, hp, rfl⟩ | ⟨rx, reply, rest, rfl, hp, h⟩
  · exact Or.inl ⟨rfl, hask⟩
  · exact Or.inr ⟨_, [], rfl, rfl, Or.inl ⟨rfl, rfl⟩⟩
  · exact Or.inr ⟨_, [], rfl, rfl, Or.inl ⟨rfl, rfl⟩⟩
  · rw [confirmed] at h
    split_ifs at h
    · obtain ⟨rfl, rfl⟩ := reaches_fail h
      exact Or.inr ⟨_, [], rfl, rfl, Or.inl ⟨rfl, rfl⟩⟩
    · exact Or.inr ⟨_, rest, rfl, rfl, Or.inr h⟩

def EndsWithCode (station : UInt16) (log : Exchanged) (j : ℕ) (e : EcError) : Prop :=
  ∃ o, log.length = j + 2 ∧ log[j + 1]? = some (codeAsk station, o) ∧ e = codeError o

def Condemned (station : UInt16) (log : Exchanged) (r : Procedure Unit) (j : ℕ) : Prop :=
  (∀ a, r ≠ .done a) ∧ ∀ e, r = .fail e → EndsWithCode station log j e

theorem Quiet.ne_ackWrite {x : List Access × Except EcError (List UInt8)} (h : Quiet station x) :
    x.1 ≠ ackWrite station target := by
  rw [h.1]
  exact (ackWrite_ne_statusAsk station target).symm

theorem requests_ne {P : List Access → Prop} {l : Exchanged} {asks : List (List Access)} (hl : ∀ x ∈ l, P x.1)
    (hasks : ∀ q ∈ asks, P q) : ∀ q ∈ l.map Prod.fst ++ asks, P q := by
  intro q hq
  rcases List.mem_append.mp hq with hq | hq
  · obtain ⟨x, hx, rfl⟩ := List.mem_map.mp hq
    exact hl x hx
  · exact hasks q hq

theorem after_acknowledge {n : ℕ} (h : (awaitState station target (readCode station) n).Reaches log r) :
    (∀ q ∈ log.map Prod.fst ++ asking r, q ≠ ackWrite station target) ∧
      ∀ i x, log[i]? = some x → ErrorSeen station x → Condemned station log r i := by
  have hstatus := (ackWrite_ne_statusAsk station target).symm
  have hcode := (ackWrite_ne_codeAsk station target).symm
  rcases reaches_awaitState h with ⟨hq, hask⟩ | ⟨early, x, l, rfl, hq, hx, hl⟩
  · constructor
    · refine requests_ne (fun y hy => (hq y hy).ne_ackWrite) fun q hq => ?_
      rw [hask q hq]
      exact hstatus
    · intro i y hy hseen
      exact absurd hseen (hq y (List.mem_of_getElem? hy)).2
  have hearly : ∀ i y, i < early.length → (early ++ x :: l)[i]? = some y → ¬ErrorSeen station y := by
    intro i y hi hy
    rw [List.getElem?_append_left hi] at hy
    exact (hq y (List.mem_of_getElem? hy)).2
  rcases reaches_readCode hl with ⟨rfl, hask, hdone, hfail⟩ | ⟨o, rfl, rfl⟩
  · constructor
    · refine requests_ne (fun y hy => ?_) fun q hq => ?_
      · rcases List.mem_append.mp hy with hy | hy
        · exact (hq y hy).ne_ackWrite
        · rw [List.mem_singleton.mp hy, hx.1]
          exact hstatus
      · rw [hask] at hq
        rw [List.mem_singleton.mp hq]
        exact hcode
    · intro i y hy hseen
      exact ⟨hdone, fun e he => absurd he (hfail e)⟩
  · constructor
    · refine requests_ne (fun y hy => ?_) nofun
      rcases List.mem_append.mp hy with hy | hy
      · exact (hq y hy).ne_ackWrite
      · rcases List.mem_cons.mp hy with rfl | hy
        · rw [hx.1]
          exact hstatus
        · rw [List.mem_singleton.mp hy]
          exact hcode
    · intro i y hy hseen
      have hi : i = early.length := by
        rcases Nat.lt_trichotomy i early.length with hi | hi | hi
        · exact absurd hseen (hearly i y hi hy)
        · exact hi
        · obtain ⟨m, rfl⟩ := Nat.exists_eq_add_of_lt hi
          rw [List.getElem?_append_right (by omega), show early.length + m + 1 - early.length = m + 1 by omega,
            List.getElem?_cons_succ] at hy
          obtain rfl := List.mem_singleton.mp (List.mem_of_getElem? hy)
          exact absurd hseen.1 (codeAsk_ne_statusAsk station)
      refine ⟨nofun, fun e he => ⟨o, ?_, ?_, (Script.fail.inj he).symm⟩⟩
      · rw [List.length_append, hi]
        rfl
      · rw [hi, List.getElem?_append_right (Nat.le_succ _), show early.length.succ - early.length = 1 by omega]
        rfl

/-- The acknowledge was written after the exchanges of `opening`, the last of which showed the error bit. -/
structure AcknowledgedOnce (station : UInt16) (target : UInt8) (log : Exchanged) (r : Procedure Unit)
    (opening : Exchanged) (failed : List Access × Except EcError (List UInt8)) (later : List (List Access)) : Prop where
  started : opening ≠ []
  seen : ErrorSeen station failed
  requests : log.map Prod.fst ++ asking r = (opening ++ [failed]).map Prod.fst ++ ackWrite station target :: later
  before : ∀ q ∈ ((opening ++ [failed]).map Prod.fst).tail, q ≠ ackWrite station target
  after : ∀ q ∈ later, q ≠ ackWrite station target
  record : ∃ l, log = opening ++ failed :: l ∧
    ∀ i x, l[i + 1]? = some x → ErrorSeen station x → Condemned station log r (opening.length + i + 2)

theorem Condemned.append {l : Exchanged} {i : ℕ} (h : Condemned station l r i) (before : Exchanged) :
    Condemned station (before ++ l) r (before.length + i) := by
  obtain ⟨hdone, hfail⟩ := h
  refine ⟨hdone, fun e he => ?_⟩
  obtain ⟨o, hlen, hlast, rfl⟩ := hfail e he
  refine ⟨o, ?_, ?_, rfl⟩
  · rw [List.length_append, hlen]
    rfl
  · rw [List.getElem?_append_right (by omega), show before.length + i + 1 - before.length = i + 1 by omega]
    exact hlast

theorem reaches_acknowledge {opening l : Exchanged} {failed : List Access × Except EcError (List UInt8)}
    (hne : opening ≠ []) (hq : ∀ y ∈ opening.tail, Quiet station y) (hx : ErrorSeen station failed)
    (h : (acknowledge station target).Reaches l r) :
    ∃ later, AcknowledgedOnce station target (opening ++ failed :: l) r opening failed later := by
  have hbefore : ∀ q ∈ ((opening ++ [failed]).map Prod.fst).tail, q ≠ ackWrite station target := by
    rw [← List.map_tail, List.tail_append_of_ne_nil hne, ← List.append_nil (List.map _ _)]
    refine requests_ne (fun y hy => ?_) nofun
    rcases List.mem_append.mp hy with hy | hy
    · exact (hq y hy).ne_ackWrite
    · rw [List.mem_singleton.mp hy, hx.1]
      exact (ackWrite_ne_statusAsk station target).symm
  rcases reaches_confirmed h with ⟨rfl, hask⟩ | ⟨a, rest, rfl, ha, ⟨rfl, hask⟩ | hrest⟩
  · refine ⟨[], hne, hx, ?_, hbefore, nofun, [], rfl, nofun⟩
    rw [hask]
    rfl
  · refine ⟨[], hne, hx, ?_, hbefore, nofun, [a], rfl, nofun⟩
    have ha : a.1 = ackWrite station target := ha
    rw [hask]
    simp [ha]
  · obtain ⟨hother, hseen⟩ := after_acknowledge hrest
    refine ⟨_, hne, hx, ?_, hbefore, hother, a :: rest, rfl, fun i x hi hs => ?_⟩
    · have ha : a.1 = ackWrite station target := ha
      simp [ha]
    · have hc := (hseen i x hi hs).append (opening ++ [failed, a])
      rw [List.append_assoc, List.length_append] at hc
      rw [show opening.length + i + 2 = opening.length + 2 + i by omega]
      exact hc

theorem reaches_changeState (h : (changeState station target).Reaches log r) :
    (∃ later, log.map Prod.fst ++ asking r = [⟨.fpwr, station, regAlControl, [target, 0]⟩] :: later) ∧
      ((∀ q ∈ (log.map Prod.fst ++ asking r).tail, q ≠ ackWrite station target) ∨
        ∃ opening failed later, AcknowledgedOnce station target log r opening failed later) := by
  rcases reaches_confirmed h with ⟨rfl, hask⟩ | ⟨x, l, rfl, hx, ⟨rfl, hask⟩ | hl⟩
  · rw [hask]
    exact ⟨⟨[], rfl⟩, Or.inl nofun⟩
  · rw [hask]
    exact ⟨⟨[], by rw [← hx]; rfl⟩, Or.inl nofun⟩
  · refine ⟨⟨_, by rw [← hx]; rfl⟩, ?_⟩
    rcases reaches_awaitState hl with ⟨hq, hask⟩ | ⟨early, y, l, rfl, hq, hy, hl⟩
    · refine Or.inl (requests_ne (fun z hz => (hq z hz).ne_ackWrite) fun q hq => ?_)
      rw [hask q hq]
      exact (ackWrite_ne_statusAsk station target).symm
    · obtain ⟨later, hack⟩ := reaches_acknowledge (List.cons_ne_nil x early) hq hy hl
      exact Or.inr ⟨_, _, later, hack⟩

theorem AcknowledgedOnce.at_index {opening : Exchanged} {failed : List Access × Except EcError (List UInt8)}
    {later : List (List Access)} (h : AcknowledgedOnce station target log r opening failed later) {i : ℕ}
    (hi : (log.map Prod.fst ++ asking r)[i + 1]? = some (ackWrite station target)) : i = opening.length := by
  rw [h.requests] at hi
  have hlen : ((opening ++ [failed]).map Prod.fst).length = opening.length + 1 := by
    rw [List.length_map, List.length_append]
    rfl
  rcases Nat.lt_trichotomy i opening.length with hlt | heq | hgt
  · rw [List.getElem?_append_left (by omega), ← List.getElem?_tail] at hi
    exact absurd rfl (h.before _ (List.mem_of_getElem? hi))
  · exact heq
  · rw [List.getElem?_append_right (by omega), hlen,
      show i + 1 - (opening.length + 1) = (i - opening.length - 1) + 1 by omega, List.getElem?_cons_succ] at hi
    exact absurd rfl (h.after _ (List.mem_of_getElem? hi))

theorem acknowledge_of_reaches (h : (changeState station target).Reaches log r) {i : ℕ}
    (hi : (log.map Prod.fst ++ asking r)[i + 1]? = some (ackWrite station target)) :
    (∃ x, log[i]? = some x ∧ ErrorSeen station x) ∧
      (∀ j, (log.map Prod.fst ++ asking r)[j + 1]? = some (ackWrite station target) → j = i) ∧
      ∀ j x, i + 1 < j → log[j]? = some x → ErrorSeen station x → Condemned station log r j := by
  rcases (reaches_changeState h).2 with hnone | ⟨opening, failed, later, hack⟩
  · rw [← List.getElem?_tail] at hi
    exact absurd rfl (hnone _ (List.mem_of_getElem? hi))
  obtain rfl := hack.at_index hi
  obtain ⟨l, hlog, hseen⟩ := hack.record
  refine ⟨⟨failed, ?_, hack.seen⟩, fun j hj => hack.at_index hj, fun j x hj hx hs => ?_⟩
  · rw [hlog, List.getElem?_append_right le_rfl, Nat.sub_self]
    rfl
  · obtain ⟨m, rfl⟩ := Nat.exists_eq_add_of_le (show opening.length + 2 ≤ j by omega)
    rw [hlog, List.getElem?_append_right (by omega),
      show opening.length + 2 + m - opening.length = (m + 1) + 1 by omega, List.getElem?_cons_succ] at hx
    rw [show opening.length + 2 + m = opening.length + m + 2 by omega]
    exact hseen m x hx hs

end Session

namespace FsmChange

def onWire : Except EcError (Bool × FsmChange) → List (List Access)
  | .ok (false, s) => (s.x.tx.map Prod.snd).toList
  | _ => []

def requests (r : Except EcError (Bool × FsmChange)) (log : Exchanged) : List (List Access) :=
  log.map Prod.fst ++ onWire r

theorem step_pending {s s' : FsmChange} {k : Link} (hs : s.state ≠ .done) (h : (s.step k).1 = .ok (false, s')) :
    s'.state ≠ .done := by
  have hpoll : ∀ {request : Access} {hear : Reply → Except EcError (Bool × FsmChange)},
      (s.poll request k hear).1 = .ok (false, s') → (∀ reply, hear reply = .ok (false, s') → s'.state ≠ .done) →
        s'.state ≠ .done := by
    intro request hear h hhear
    rcases Exchange.step_ok h with ⟨y, hy⟩ | ⟨rx, hrx⟩
    · obtain rfl := (Prod.ext_iff.mp hy).2
      exact hs
    · obtain ⟨reply, -, hreply⟩ := onReply_ok hrx
      exact hhear reply hreply
  rw [step] at h
  rcases hstate : s.state
  all_goals rw [hstate] at h
  · refine hpoll h fun reply hreply => ?_
    split_ifs at hreply
    obtain rfl := (Prod.ext_iff.mp (Except.ok.inj hreply)).2
    exact fun h => by cases h
  · refine hpoll h fun reply hreply => ?_
    dsimp only at hreply
    split_ifs at hreply
    · obtain rfl := (Prod.ext_iff.mp (Except.ok.inj hreply)).2
      exact fun h => by cases h
    · obtain rfl := (Prod.ext_iff.mp (Except.ok.inj hreply)).2
      exact fun h => by cases h
    · cases (Prod.ext_iff.mp (Except.ok.inj hreply)).1
    · obtain rfl := (Prod.ext_iff.mp (Except.ok.inj hreply)).2
      exact fun h => by cases h
  · refine hpoll h fun reply hreply => ?_
    split_ifs at hreply
    obtain rfl := (Prod.ext_iff.mp (Except.ok.inj hreply)).2
    exact fun h => by cases h
  · exact hpoll h fun reply hreply => by cases hreply
  · exact absurd hstate hs

theorem calls_pending {s s' : FsmChange} {log : Exchanged} {es : List (Device × UInt8)} (hs : s.state ≠ .done)
    (h : (calls step s log es).1 = .ok (false, s')) : s'.state ≠ .done := by
  induction es generalizing s log with
  | nil =>
    obtain rfl := (Prod.ext_iff.mp (Except.ok.inj h)).2
    exact hs
  | cons e es ih =>
    rw [calls] at h
    rcases hstep : step s ⟨e.1, e.2, log⟩ with ⟨_ | ⟨_ | _, s''⟩, k⟩
    all_goals rw [hstep] at h
    · cases h
    · exact ih (step_pending hs (congrArg Prod.fst hstep)) h
    · cases h

theorem requests_le {r : Except EcError (Bool × FsmChange)} (h : ∀ s, r = .ok (false, s) → s.state ≠ .done)
    (log : Exchanged) : requests r log <+: log.map Prod.fst ++ asking (pos r).1 := by
  refine List.prefix_append_right_inj _ |>.mpr ?_
  rcases r with e | ⟨_ | _, s⟩
  · exact List.nil_prefix
  · have hs := h s rfl
    change (s.x.tx.map Prod.snd).toList <+: asking (s.x.resume s.plan)
    cases htx : s.x.tx with
    | none => exact List.nil_prefix
    | some q =>
      have hasked : ∀ request : List Access, s.x.asked request = q.2 := fun request => by rw [Exchange.asked, htx]
      have hplan : ∃ request next, s.plan = .ask request next := by
        rw [plan]
        cases hstate : s.state with
        | writeControl => exact ⟨_, _, rfl⟩
        | readStatus => exact ⟨_, _, awaitState_eq _ _ _ _⟩
        | ackError => exact ⟨_, _, rfl⟩
        | readStatusCode => exact ⟨_, _, rfl⟩
        | done => exact absurd hstate hs
      obtain ⟨request, next, hplan⟩ := hplan
      rw [hplan, Exchange.resume, asking, hasked]
      exact List.prefix_rfl
  · exact List.nil_prefix

theorem reaches_of_calls (station : UInt16) (target : UInt8) (es : List (Device × UInt8)) :
    (changeState station target).Reaches (calls step (new station target) [] es).2
      (pos (calls step (new station target) [] es).1).1 := by
  obtain ⟨lines, hlog, hreach⟩ := fsm.calls_reaches (s := new station target) trivial [] es
  change (new station target).script.Reaches lines _ at hreach
  rw [script_new] at hreach
  rw [List.nil_append] at hlog
  rw [show (calls step (new station target) [] es).2 = lines from hlog]
  exact hreach

end FsmChange

/-- What a transition has done with the slave so far. -/
structure Transition (station : UInt16) (target : UInt8) (r : Except EcError (Bool × FsmChange)) (log : Exchanged) :
    Prop where
  confirmed : ∀ s, r = .ok (true, s) → Reached station target log
  requested : ∀ q, (FsmChange.requests r log)[0]? = some q → q = [⟨.fpwr, station, regAlControl, [target, 0]⟩]
  seen : ∀ i, (FsmChange.requests r log)[i + 1]? = some (ackWrite station target) →
    ∃ x, log[i]? = some x ∧ ErrorSeen station x
  once : ∀ i j, (FsmChange.requests r log)[i + 1]? = some (ackWrite station target) →
    (FsmChange.requests r log)[j + 1]? = some (ackWrite station target) → j = i
  again : ∀ i j x, (FsmChange.requests r log)[i + 1]? = some (ackWrite station target) → i + 1 < j →
    log[j]? = some x → ErrorSeen station x →
      (∀ s, r ≠ .ok (true, s)) ∧ ∀ e, r = .error e → EndsWithCode station log j e

/-- Every transition ends, whatever the bus answers. It succeeds only with the slave's confirmation, acknowledges an
error at most once and only one it has seen, and an error seen again is reported with the slave's code. -/
theorem state_change_confirmed (station : UInt16) (target : UInt8) :
    (∀ es, Transition station target (calls FsmChange.step (.new station target) [] es).1
      (calls FsmChange.step (.new station target) [] es).2) ∧
    ∀ es : ℕ → Device × UInt8, ∃ n, ∀ s', (calls FsmChange.step (.new station target) [] (polls es n)).1 ≠ .ok (false, s') := by
  refine ⟨fun es => ?_, fun es => FsmChange.fsm.calls_end trivial es⟩
  have hreach := FsmChange.reaches_of_calls station target es
  have hpending : ∀ s', (calls FsmChange.step (.new station target) [] es).1 = .ok (false, s') → s'.state ≠ .done :=
    fun s' h => FsmChange.calls_pending (show (FsmChange.new station target).state ≠ .done from nofun) h
  generalize (calls FsmChange.step (.new station target) [] es).1 = r at hreach hpending ⊢
  generalize (calls FsmChange.step (.new station target) [] es).2 = log at hreach ⊢
  have hsent : ∀ {i : ℕ} {q : List Access}, (FsmChange.requests r log)[i]? = some q →
      (log.map Prod.fst ++ asking (FsmChange.pos r).1)[i]? = some q := fun {i q} h => by
    obtain ⟨hi, rfl⟩ := List.getElem?_eq_some_iff.mp h
    exact List.prefix_iff_getElem?.mp (FsmChange.requests_le hpending log) i hi
  constructor
  case confirmed =>
    rintro s rfl
    exact returns_changeState hreach
  case requested =>
    intro q hq
    obtain ⟨later, hl⟩ := (reaches_changeState hreach).1
    have h := hsent hq
    rw [hl] at h
    exact (Option.some.inj h).symm
  case seen =>
    intro i hi
    exact (acknowledge_of_reaches hreach (hsent hi)).1
  case once =>
    intro i j hi hj
    exact (acknowledge_of_reaches hreach (hsent hi)).2.1 j (hsent hj)
  case again =>
    intro i j x hi hj hx hs
    obtain ⟨hdone, hfail⟩ := (acknowledge_of_reaches hreach (hsent hi)).2.2 j x hj hx hs
    constructor
    · rintro s rfl
      exact hdone () rfl
    · rintro e rfl
      exact hfail e rfl

end EcMaster

import EcMaster.ScanRecord

namespace EcMaster

open Library.Dialogue Library.Dialogue.Script Library.Segment Library.LittleEndian

variable {β : Type}

def Exchange.Open (x : Exchange) (request : List Access) : Prop := ∀ q, x.tx = some q → q.2 = request

theorem Exchange.open_idle (request : List Access) : Exchange.idle.Open request := nofun

theorem Exchange.Open.asked {x : Exchange} {request : List Access} (h : x.Open request) : x.asked request = request := by
  rw [Exchange.asked]
  cases hx : x.tx with
  | none => rfl
  | some q => exact h q hx

theorem Exchange.Open.step {x : Exchange} {request : List Access} (h : x.Open request) (b : Buffers) (k : Link)
    (stay : Exchange → β) (hear : List UInt8 → Except EcError β) :
    (∃ y, y.Open request ∧ (x.step b request k stay hear).1 = .ok (stay y) ∧ (x.step b request k stay hear).2.log = k.log) ∨
      (∃ e, (x.step b request k stay hear).1 = .error e ∧
        (x.step b request k stay hear).2.log = k.log ++ [(request, .error e)]) ∨
      ∃ rx, (x.step b request k stay hear).1 = hear rx ∧
        (x.step b request k stay hear).2.log = k.log ++ [(request, .ok rx)] := by
  have hcases := x.drive_cases b request k
  rw [h.asked] at hcases
  rw [Exchange.step]
  rcases hd : x.drive b request k with ⟨e | _ | rx, y, k'⟩
  all_goals rw [hd] at hcases
  · rcases hcases with ⟨e', he, hlog⟩ | ⟨rx, hrx, -⟩ | ⟨hn, -⟩
    · obtain rfl := Except.error.inj he
      exact Or.inr (Or.inl ⟨e, rfl, hlog⟩)
    · cases hrx
    · cases hn
  · rcases hcases with ⟨e', he, -⟩ | ⟨rx, hrx, -⟩ | ⟨-, hlog, ⟨index, htx⟩, -⟩
    · cases he
    · cases hrx
    · refine Or.inl ⟨y, fun q hq => ?_, rfl, hlog⟩
      obtain rfl := Option.some.inj (htx.symm.trans hq)
      rfl
  · rcases hcases with ⟨e', he, -⟩ | ⟨rx', hrx, hlog⟩ | ⟨hn, -⟩
    · cases he
    · obtain rfl := Option.some.inj (Except.ok.inj hrx)
      exact Or.inr (Or.inr ⟨rx, rfl, hlog⟩)
    · cases hn

theorem Exchange.Open.step_reply {x : Exchange} {a : Access} (h : x.Open [a]) {b : Buffers} {k : Link}
    {stay : Exchange → β} {hear : Reply → Except EcError β} {P : Except EcError β × Link → Prop}
    (hwait : ∀ y k', y.Open [a] → k'.log = k.log → P (.ok (stay y), k'))
    (hrefused : ∀ e z k', k'.log = k.log ++ [z] → Refused z → P (.error e, k'))
    (hheard : ∀ rx reply k', parse rx = some reply → k'.log = k.log ++ [([a], .ok rx)] → P (hear reply, k')) :
    P (x.step b [a] k stay (onReply hear)) := by
  rcases h.step b k stay (onReply hear) with ⟨y, hy, hr, hlog⟩ | ⟨e, hr, hlog⟩ | ⟨rx, hr, hlog⟩
  all_goals
    generalize x.step b [a] k stay (onReply hear) = r at hr hlog ⊢
    obtain ⟨r, k'⟩ := r
    obtain rfl : r = _ := hr
  · exact hwait y k' hy hlog
  · exact hrefused e _ k' hlog trivial
  · rw [onReply]
    cases hp : parse rx with
    | none => exact hrefused _ _ k' hlog (by simp only [Refused, hp])
    | some reply => exact hheard rx reply k' hp hlog

theorem Heard.intro {a : Access} {P : Reply → Prop} {rx : List UInt8} {reply : Reply} (hp : parse rx = some reply)
    (h : P reply) : Heard a P [([a], .ok rx)] := ⟨rx, reply, rfl, hp, h⟩

namespace Sii

def Progress (station : UInt16) (s : Sii) (log : Exchanged) : Prop :=
  match s.phase with
  | .command => log = [] ∧ s.x.Open [siiCommand station s.word]
  | .poll => s.x.Open [siiRead station] ∧ s.polls < siiMaxPolls ∧ ∃ c polls, log = c ++ polls ∧
      Heard (siiCommand station s.word) (fun reply => reply.workingCounter ≠ 0) c ∧
      (∀ x ∈ polls, Heard (siiRead station) Reply.Unready [x]) ∧ polls.length = s.polls

theorem progress_reset (station word : UInt16) (s : Sii) : (s.reset word).Progress station [] :=
  ⟨rfl, Exchange.open_idle _⟩

def Reads (station : UInt16) (s : Sii) (base log : Exchanged) (r : Except EcError (Bool × Sii) × Link) : Prop :=
  (∃ s' log', r.1 = .ok (false, s') ∧ s'.word = s.word ∧ r.2.log = base ++ log' ∧ s'.Progress station log') ∨
    (∃ s' log', r.1 = .ok (true, s') ∧ r.2.log = base ++ log' ∧ WordRead station s.word s'.value log') ∨
      ∃ e z, r.1 = .error e ∧ r.2.log = base ++ log ++ [z] ∧ (Refused z ∨ Exhausted (base ++ log ++ [z]))

theorem reads_command {station word : UInt16} {polls : ℕ} {x : Exchange} {value : UInt32}
    (h : x.Open [siiCommand station word]) {base : Exchanged} {k : Link} (hk : k.log = base) :
    Reads station ⟨.command, word, polls, x, value⟩ base [] (Sii.step station ⟨.command, word, polls, x, value⟩ k) := by
  rw [step]
  dsimp only
  rw [siiCommand_eq]
  refine h.step_reply (fun y k' hy hlog => ?_) (fun e z k' hlog hz => ?_) (fun rx reply k' hparse hlog => ?_)
  · exact Or.inl ⟨_, [], rfl, rfl, by rw [hlog, hk, List.append_nil], rfl, hy⟩
  · exact Or.inr (Or.inr ⟨e, z, rfl, by rw [hlog, hk, List.append_nil], Or.inl hz⟩)
  · split_ifs with hwkc
    · refine Or.inr (Or.inr ⟨_, _, rfl, by rw [hlog, hk, List.append_nil], Or.inl ?_⟩)
      simp only [Refused, hparse, siiCommand]
      exact Or.inr (Or.inr (Or.inl ⟨trivial, hwkc⟩))
    · refine Or.inl ⟨_, [([siiCommand station word], .ok rx)], rfl, rfl, by rw [hlog, hk], ?_⟩
      exact ⟨Exchange.open_idle _, (by decide : 0 < siiMaxPolls), _, [], (List.append_nil _).symm, .intro hparse hwkc, List.forall_mem_nil _, rfl⟩

theorem reads_again {station word : UInt16} {polls : ℕ} {x : Exchange} {value : UInt32} {base log : Exchanged}
    (h : Progress station ⟨.poll, word, polls, x, value⟩ log) {rx : List UInt8} {reply : Reply}
    (hparse : parse rx = some reply) (hu : reply.Unready) {k : Link}
    (hk : k.log = base ++ log ++ [([siiRead station], .ok rx)]) :
    Reads station ⟨.poll, word, polls, x, value⟩ base log
      (if polls + 1 ≥ siiMaxPolls then .error .siiTimeout else .ok (false, ⟨.poll, word, polls + 1, .idle, value⟩), k) := by
  obtain ⟨-, hlt, c, ps, rfl, hc, hps, hlen⟩ := h
  have hall : ∀ z ∈ ps ++ [([siiRead station], .ok rx)], Heard (siiRead station) Reply.Unready [z] := by
    intro z hz
    rcases List.mem_append.mp hz with hz | hz
    · exact hps z hz
    · rw [List.mem_singleton.mp hz]
      exact .intro hparse hu
  have hcount : (ps ++ [([siiRead station], Except.ok rx)] : Exchanged).length = polls + 1 := by
    rw [List.length_append, hlen]
    rfl
  split_ifs with hmax
  · refine Or.inr (Or.inr ⟨_, _, rfl, hk, Or.inr ⟨base ++ c, ps ++ [([siiRead station], .ok rx)], ?_, ?_, ?_⟩⟩)
    · simp only [List.append_assoc]
    · rw [hcount]
      change polls < siiMaxPolls at hlt
      omega
    · exact fun z hz => ⟨station, hall z hz⟩
  · refine Or.inl ⟨_, c ++ (ps ++ [([siiRead station], .ok rx)]), rfl, rfl, by rw [hk]; simp only [List.append_assoc], ?_⟩
    exact ⟨Exchange.open_idle _, Nat.lt_of_not_le hmax, c, _, rfl, hc, hall, hcount⟩

theorem reads_poll {station word : UInt16} {polls : ℕ} {x : Exchange} {value : UInt32} {log : Exchanged}
    (h : Progress station ⟨.poll, word, polls, x, value⟩ log) {base : Exchanged} {k : Link} (hk : k.log = base ++ log) :
    Reads station ⟨.poll, word, polls, x, value⟩ base log (Sii.step station ⟨.poll, word, polls, x, value⟩ k) := by
  have hopen : x.Open [siiRead station] := h.1
  refine hopen.step_reply (fun y k' hy hlog => ?_) (fun e z k' hlog hz => ?_) (fun rx reply k' hparse hlog => ?_)
  · exact Or.inl ⟨_, log, rfl, rfl, hlog.trans hk, hy, h.2⟩
  · exact Or.inr (Or.inr ⟨e, z, rfl, by rw [hlog, hk], Or.inl hz⟩)
  · rw [hk] at hlog
    dsimp only
    by_cases hshort : reply.workingCounter = 0 ∨ reply.data.length < 10
    · rw [if_pos hshort]
      exact reads_again h hparse (hshort.imp id Or.inl) hlog
    obtain ⟨hwkc, hfull⟩ := not_or.mp hshort
    rw [if_neg hshort]
    by_cases herror : reply.data.getD 1 0 &&& siiStatusError ≠ 0
    · rw [if_pos herror]
      refine Or.inr (Or.inr ⟨_, _, rfl, hlog, Or.inl ?_⟩)
      simp only [Refused, hparse, siiRead]
      exact Or.inr (Or.inr (Or.inr ⟨trivial, trivial, hwkc, Nat.le_of_not_lt hfull, herror⟩))
    rw [if_neg herror]
    by_cases hbusy : reply.data.getD 1 0 &&& siiStatusBusy = 0
    · rw [if_pos hbusy]
      obtain ⟨-, hlt, c, ps, rfl, hc, hps, hlen⟩ := h
      refine Or.inr (Or.inl ⟨_, c ++ ps ++ [([siiRead station], .ok rx)], rfl, by rw [hlog]; simp only [List.append_assoc],
        c, ps, _, rfl, hc, hps, hlen ▸ hlt, .intro hparse ⟨⟨hwkc, Nat.le_of_not_lt hfull, not_not.mp herror, hbusy⟩, rfl⟩⟩)
    · rw [if_neg hbusy]
      exact reads_again h hparse (Or.inr (Or.inr ⟨not_not.mp herror, hbusy⟩)) hlog

theorem Progress.step {station : UInt16} {s : Sii} {log : Exchanged} (h : s.Progress station log) {base : Exchanged}
    {k : Link} (hk : k.log = base ++ log) : s.Reads station base log (s.step station k) := by
  obtain ⟨_ | _, word, polls, x, value⟩ := s
  · obtain ⟨rfl, hopen⟩ := h
    exact reads_command hopen (hk.trans (List.append_nil base))
  · exact reads_poll h hk

end Sii

end EcMaster

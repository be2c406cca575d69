import EcMaster.Library.Run
import EcMaster.ScanProgress

namespace EcMaster

open Library.Dialogue Library.Dialogue.Script Library.Run Library.Segment Library.LittleEndian

def Ended.unready (x : Ended) : Prop := ∃ station, Heard (siiRead station) Reply.Unready [x]

/-- Nothing has been refused, and the last exchange is no poll for a word that is not there. -/
structure Settled (log : Exchanged) : Prop where
  accepted : ∀ x ∈ log, ¬Refused x
  last : ∀ x ∈ log.getLast?, ¬Ended.unready x

theorem Settled.nil : Settled [] := ⟨nofun, nofun⟩

theorem accepted_append {a b : Exchanged} (ha : ∀ x ∈ a, ¬Refused x) (hb : ∀ x ∈ b, ¬Refused x) :
    ∀ x ∈ a ++ b, ¬Refused x := by
  intro x hx
  rcases List.mem_append.mp hx with hx | hx
  · exact ha x hx
  · exact hb x hx

theorem Settled.after {a b : Exchanged} (ha : ∀ x ∈ a, ¬Refused x) (hb : Settled b) (hne : b ≠ []) :
    Settled (a ++ b) := by
  refine ⟨accepted_append ha hb.accepted, ?_⟩
  rw [List.getLast?_append_of_ne_nil a hne]
  exact hb.last

theorem Settled.append {a b : Exchanged} (ha : Settled a) (hb : Settled b) : Settled (a ++ b) := by
  rcases eq_or_ne b [] with rfl | hne
  · rwa [List.append_nil]
  · exact hb.after ha.accepted hne

theorem Settled.not_exhausted {log : Exchanged} (h : Settled log) : ¬Exhausted log := by
  rintro ⟨earlier, polls, rfl, hlen, hall⟩
  have hne : polls ≠ [] := by
    rintro rfl
    exact absurd hlen (by decide)
  apply h.last (polls.getLast hne)
  · rw [List.getLast?_append, List.getLast?_eq_some_getLast hne]
    rfl
  · exact hall _ (List.getLast_mem hne)

def Denies (a : Access) (reply : Reply) : Prop :=
  a.command = .apwr ∧ reply.workingCounter ≠ 1 ∨
    a.command = .fprd ∧ (a.ado = 0x0130 ∨ a.ado = 0x0000) ∧ reply.workingCounter ≠ 1 ∨
      a.command = .fpwr ∧ reply.workingCounter = 0 ∨
        a.command = .fprd ∧ a.ado = 0x0502 ∧ reply.workingCounter ≠ 0 ∧ 10 ≤ reply.data.length ∧
          reply.data.getD 1 0 &&& 0x20 ≠ 0

theorem Heard.accepted {a : Access} {P : Reply → Prop} {log : Exchanged} (h : Heard a P log)
    (hp : ∀ reply, P reply → ¬Denies a reply) : ∀ x ∈ log, ¬Refused x := by
  obtain ⟨rx, reply, rfl, hparse, hP⟩ := h
  intro x hx
  rw [List.mem_singleton.mp hx, Refused, hparse]
  exact hp reply hP

theorem Heard.settled {a : Access} {P : Reply → Prop} {log : Exchanged} (h : Heard a P log)
    (hp : ∀ reply, P reply → ¬Denies a reply) (hu : ∀ reply station, a = siiRead station → P reply → ¬reply.Unready) :
    Settled log := by
  refine ⟨h.accepted hp, ?_⟩
  obtain ⟨rx, reply, rfl, hparse, hP⟩ := h
  rintro x hx ⟨station, rx', reply', he, hparse', hunready⟩
  obtain rfl := Option.some.inj hx
  obtain ⟨hq, ho⟩ := Prod.mk.inj (List.singleton_inj.mp he)
  obtain rfl := Except.ok.inj ho
  obtain rfl := Option.some.inj (hparse.symm.trans hparse')
  exact hu reply station (List.singleton_inj.mp hq) hP hunready

theorem Heard.ne_nil {a : Access} {P : Reply → Prop} {log : Exchanged} (h : Heard a P log) : log ≠ [] := by
  obtain ⟨rx, reply, rfl, -⟩ := h
  exact List.cons_ne_nil _ _

theorem siiRead_ado (station : UInt16) : ¬((siiRead station).ado = regAlStatus ∨ (siiRead station).ado = regDlInfo) := by
  change ¬(regSiiControl = regAlStatus ∨ regSiiControl = regDlInfo)
  decide

theorem accepted_polls {station : UInt16} {polls : Exchanged}
    (h : ∀ x ∈ polls, Heard (siiRead station) Reply.Unready [x]) : ∀ x ∈ polls, ¬Refused x := by
  intro x hx
  refine (h x hx).accepted (fun reply hu hd => ?_) x (List.mem_singleton_self x)
  rcases hd with ⟨hc, -⟩ | ⟨-, ha, -⟩ | ⟨hc, -⟩ | ⟨-, -, hw, hl, he⟩
  · exact absurd hc nofun
  · exact siiRead_ado station ha
  · exact absurd hc nofun
  · rcases hu with hu | hu | ⟨hu, -⟩
    · exact hw hu
    · exact absurd hl (Nat.not_le_of_lt hu)
    · exact he hu

theorem settled_command {station word : UInt16} {log : Exchanged}
    (h : Heard (siiCommand station word) (fun reply => reply.workingCounter ≠ 0) log) : Settled log := by
  refine h.settled (fun reply hw hd => ?_) nofun
  rcases hd with ⟨hc, -⟩ | ⟨hc, -⟩ | ⟨-, hz⟩ | ⟨hc, -⟩
  · exact absurd hc nofun
  · exact absurd hc nofun
  · exact hw hz
  · exact absurd hc nofun

theorem settled_word {station word : UInt16} {value : UInt32} {log : Exchanged} (h : WordRead station word value log) :
    Settled log := by
  obtain ⟨c, polls, r, rfl, hc, hpolls, -, hr⟩ := h
  refine Settled.after (accepted_append (settled_command hc).accepted (accepted_polls hpolls)) ?_ hr.ne_nil
  refine hr.settled (fun reply h hd => ?_) (fun reply _ _ h hu => ?_)
  · rcases hd with ⟨hc, -⟩ | ⟨-, ha, -⟩ | ⟨hc, -⟩ | ⟨-, -, -, -, he⟩
    · exact absurd hc nofun
    · exact siiRead_ado station ha
    · exact absurd hc nofun
    · exact he h.1.sound
  · rcases hu with hu | hu | ⟨-, hu⟩
    · exact h.1.acknowledged hu
    · exact absurd h.1.full (Nat.not_le_of_lt hu)
    · exact hu h.1.idle

theorem settled_pieces {ι : Type} {P : ι → Exchanged → Prop} (hP : ∀ i l, P i l → Settled l) {is : List ι} {log : Exchanged}
    (h : Pieces P is log) : Settled log := by
  induction is generalizing log with
  | nil =>
    obtain rfl : log = [] := h
    exact .nil
  | cons i is ih =>
    obtain ⟨l, l', rfl, hl, h⟩ := h
    exact (hP i l hl).append (ih h)

theorem settled_address {ringPos station : UInt16} {log : Exchanged}
    (h : Heard (addressWrite ringPos station) (fun reply => reply.workingCounter = 1) log) : Settled log := by
  refine h.settled (fun reply hw hd => ?_) nofun
  rcases hd with ⟨-, hn⟩ | ⟨hc, -⟩ | ⟨hc, -⟩ | ⟨hc, -⟩
  · exact hn hw
  · exact absurd hc nofun
  · exact absurd hc nofun
  · exact absurd hc nofun

theorem settled_read {station ado : UInt16} {payload : List UInt8} {P : Reply → Prop} {log : Exchanged}
    (h : Heard ⟨.fprd, station, ado, payload⟩ (fun reply => reply.workingCounter = 1 ∧ P reply) log)
    (ha : ado ≠ regSiiControl) : Settled log := by
  refine h.settled (fun reply hw hd => ?_) (fun reply station he => ?_)
  · rcases hd with ⟨hc, -⟩ | ⟨-, -, hn⟩ | ⟨hc, -⟩ | ⟨-, hs, -⟩
    · exact absurd hc nofun
    · exact hn hw.1
    · exact absurd hc nofun
    · exact ha hs
  · exact absurd (congrArg Access.ado he) ha

theorem BaseRead.settled {ringPos station : UInt16} {al baseType fmmus syncs : UInt8} {apwr status base : Exchanged}
    (h : BaseRead ringPos station al baseType fmmus syncs apwr status base) : Settled (apwr ++ status ++ base) :=
  ((settled_address h.addressed).append (settled_read h.status (by decide))).append (settled_read h.base (by decide))

theorem settled_scan {info : SlaveInfo} {log : Exchanged} (h : SlaveScan info log) : Settled log := by
  obtain ⟨apwr, status, base, words, w, rfl, hb, hw, -⟩ := h
  exact hb.settled.append (settled_pieces (fun _ _ => settled_word) hw)

theorem settled_counted {count : UInt16} {log : Exchanged} (h : Counted count log) : Settled log := by
  refine Heard.settled h (fun reply _ hd => ?_) nofun
  rcases hd with ⟨hc, -⟩ | ⟨hc, -⟩ | ⟨hc, -⟩ | ⟨hc, -⟩ <;> exact absurd hc nofun

theorem settled_clear {log : Exchanged} (h : Heard addressClear (fun _ => True) log) : Settled log := by
  refine h.settled (fun reply _ hd => ?_) nofun
  rcases hd with ⟨hc, -⟩ | ⟨hc, -⟩ | ⟨hc, -⟩ | ⟨hc, -⟩ <;> exact absurd hc nofun

theorem InTurn.settled {count : UInt16} {c : Cur} {published : List SlaveInfo} {log : Exchanged}
    (h : InTurn count c published log) : Settled log := by
  obtain ⟨head, scans, rfl, ⟨c, b, rfl, hc, -, hb⟩, hscans⟩ := h.scans
  exact ((settled_counted hc).append (settled_clear hb)).append (settled_pieces (fun _ _ => settled_scan) hscans)

theorem Finished.settled {published : List SlaveInfo} {log : Exchanged} (h : Finished published log) : Settled log := by
  obtain ⟨count, c, rest, scans, rfl, hc, hrest, hscans, -⟩ := h
  refine ((settled_counted hc).append ?_).append (settled_pieces (fun _ _ => settled_scan) hscans)
  rcases hrest with rfl | hb
  · exact .nil
  · exact settled_clear hb

theorem not_exhausted_polls {earlier c polls : Exchanged} {station word : UInt16}
    (hc : Heard (siiCommand station word) (fun reply => reply.workingCounter ≠ 0) c) (hl : polls.length < siiMaxPolls) :
    ¬Exhausted (earlier ++ c ++ polls) := by
  rintro ⟨before, ps, he, hlen, hall⟩
  obtain ⟨rx, reply, rfl, -⟩ := hc
  have hsuffix : ([([siiCommand station word], Except.ok rx)] ++ polls : Exchanged) <:+ ps := by
    have hleft : ([([siiCommand station word], Except.ok rx)] ++ polls : Exchanged) <:+ before ++ ps :=
      ⟨earlier, by rw [← he, List.append_assoc]⟩
    apply List.suffix_of_suffix_length_le hleft (List.suffix_append before ps)
    · rw [hlen, List.length_append, List.length_singleton]
      omega
  obtain ⟨station', rx', reply', hx, -⟩ := hall _ (hsuffix.subset (List.mem_append_left _ (List.mem_singleton_self _)))
  have ha := List.singleton_inj.mp (Prod.mk.inj (List.singleton_inj.mp hx)).1
  exact absurd (congrArg Access.command ha) nofun

theorem accepted_command {station : UInt16} {sii : Sii} {log : Exchanged} (h : sii.Progress station log) :
    ∀ x ∈ log, ¬Refused x := by
  rw [Sii.Progress] at h
  cases hp : sii.phase with
  | command =>
    rw [hp] at h
    rw [h.1]
    nofun
  | poll =>
    rw [hp] at h
    obtain ⟨-, -, c, polls, rfl, hc, hpolls, -⟩ := h
    exact accepted_append (settled_command hc).accepted (accepted_polls hpolls)

theorem ScanFsm.Progress.going {s : ScanFsm} {published : List SlaveInfo} {log : Exchanged}
    (h : s.Progress published log) : Accounted published log ∧ InOrder published ∧ ¬Stopped log := by
  have hstop {log : Exchanged} (h : Settled log) : ¬Stopped log := by
    rintro (⟨x, hx, hr⟩ | he)
    · exact h.accepted x hx hr
    · exact h.not_exhausted he
  have hnone {log : Exchanged} : Accounted [] log := ⟨[], [], log, rfl, rfl, nofun⟩
  have hturn {count : UInt16} {c : Cur} {l : Exchanged} (ht : InTurn count c published l) (tail : Exchanged) :
      Accounted published (l ++ tail) := by
    have hl := ht.settled
    obtain ⟨head, scans, rfl, -, hscans⟩ := ht.scans
    exact ⟨head, scans, tail, rfl, hscans, hl.accepted⟩
  obtain ⟨stage, count, x, cur, sii, completed⟩ := s
  cases stage with
  | count =>
    obtain ⟨-, rfl, rfl⟩ := h
    exact ⟨hnone, nofun, hstop .nil⟩
  | clear =>
    obtain ⟨-, rfl, -, hc⟩ := h
    exact ⟨hnone, nofun, hstop (settled_counted hc)⟩
  | apwr =>
    obtain ⟨-, ht⟩ := h
    refine ⟨?_, ht.inOrder, hstop ht.settled⟩
    have ha := hturn ht []
    rwa [List.append_nil] at ha
  | al =>
    obtain ⟨-, l, apwr, rfl, ht, ha⟩ := h
    exact ⟨hturn ht _, ht.inOrder, hstop (ht.settled.append (settled_address ha))⟩
  | dl =>
    obtain ⟨-, l, apwr, status, rfl, ht, ha, hs⟩ := h
    refine ⟨?_, ht.inOrder, hstop ((ht.settled.append (settled_address ha)).append (settled_read hs (by decide)))⟩
    rw [List.append_assoc]
    exact hturn ht _
  | sii field =>
    obtain ⟨-, l, apwr, status, base, words, p, rfl, ht, hb, hw, hp⟩ := h
    have hl : Settled (l ++ apwr ++ status ++ base ++ words) := by
      have hbase := ht.settled.append hb.settled
      simp only [← List.append_assoc] at hbase
      exact hbase.append (settled_pieces (fun _ _ => settled_word) hw)
    refine ⟨?_, ht.inOrder, ?_⟩
    · have ha := hturn ht (apwr ++ status ++ base ++ words ++ p)
      simpa only [List.append_assoc] using ha
    · rintro (⟨x, hx, hr⟩ | he)
      · exact accepted_append hl.accepted (accepted_command hp) x hx hr
      · rw [Sii.Progress] at hp
        cases hphase : sii.phase with
        | command =>
          simp only [hphase] at hp
          rw [hp.1, List.append_nil] at he
          exact hl.not_exhausted he
        | poll =>
          simp only [hphase] at hp
          obtain ⟨-, hlt, c, polls, rfl, hc, -, hlen⟩ := hp
          rw [← List.append_assoc] at he
          exact not_exhausted_polls hc (hlen ▸ hlt) he
  | done =>
    have hs := Finished.settled h
    obtain ⟨count, c, rest, scans, rfl, -, -, hscans, horder, -⟩ := h
    exact ⟨⟨c ++ rest, scans, [], (List.append_nil _).symm, hscans, hs.accepted⟩, horder, hstop hs⟩

theorem Accounted.append {published : List SlaveInfo} {log : Exchanged} (h : Accounted published log) (tail : Exchanged) :
    Accounted published (log ++ tail) := by
  obtain ⟨head, scans, rest, rfl, hscans, ha⟩ := h
  exact ⟨head, scans, rest ++ tail, List.append_assoc _ _ _, hscans, ha⟩

namespace Scanning

def Sound (t : Scanning) : Prop :=
  t.fsm.completed = none ∧
    match t.outcome with
    | none => t.fsm.Progress t.published t.log
    | some (.ok ()) => t.fsm.Progress t.published t.log ∧ Finished t.published t.log
    | some (.error _) => ∃ log z, t.log = log ++ [z] ∧ t.fsm.Progress t.published log ∧ (Refused z ∨ Exhausted t.log)

theorem completed_step {t : Scanning} (h : t.fsm.completed = none) (e : Device × UInt8) :
    (t.step e).fsm.completed = none := by
  rw [step]
  cases t.outcome with
  | some r => exact h
  | none =>
    dsimp only
    rcases t.fsm.step ⟨e.1, e.2, t.log⟩ with ⟨_ | ⟨b, fsm⟩, k⟩
    · exact h
    · rfl

theorem log_step {t : Scanning} (h : t.fsm.completed = none) (e : Device × UInt8) : t.log <+: (t.step e).log := by
  rw [step]
  cases t.outcome with
  | some r => exact List.prefix_rfl
  | none =>
    obtain ⟨lines, hlog, -⟩ := ScanFsm.step_turns h ⟨e.1, e.2, t.log⟩
    dsimp only
    generalize t.fsm.step ⟨e.1, e.2, t.log⟩ = r at hlog ⊢
    obtain ⟨_ | ⟨b, fsm⟩, k⟩ := r
    · exact ⟨lines, hlog.symm⟩
    · exact ⟨lines, hlog.symm⟩

theorem sound_step {t : Scanning} (h : t.Sound) {e : Device × UInt8} (hl : ∀ x ∈ (t.step e).log, KeepsLength x) :
    (t.step e).Sound := by
  have hnone := completed_step h.1 e
  obtain ⟨hc, h⟩ := h
  refine ⟨hnone, ?_⟩
  rw [step] at hl ⊢
  cases ho : t.outcome with
  | some r =>
    simp only [ho] at h ⊢
    exact h
  | none =>
    simp only [ho] at h hl
    dsimp only
    have hk : (⟨e.1, e.2, t.log⟩ : Link).log = [] ++ t.log := rfl
    have hs : (∀ x ∈ (t.fsm.step ⟨e.1, e.2, t.log⟩).2.log, KeepsLength x) →
        ScanFsm.Scans t.published [] t.log (t.fsm.step ⟨e.1, e.2, t.log⟩) := h.step hc hk
    generalize t.fsm.step ⟨e.1, e.2, t.log⟩ = r at hs hl ⊢
    obtain ⟨r, k'⟩ := r
    have hkeep : ∀ x ∈ k'.log, KeepsLength x := by
      cases r with
      | error err => exact hl
      | ok p => exact hl
    rcases hs hkeep with ⟨s', log', rfl, hlog, hp⟩ | ⟨s', rfl, hlog, hcomp, hp, hf⟩ | ⟨err, z, rfl, hlog, hz⟩
    · rw [List.nil_append] at hlog
      change ScanFsm.Progress s' _ k'.log
      rw [hlog]
      exact hp
    · rw [List.nil_append] at hlog
      change ScanFsm.Progress s' (t.published ++ s'.completed.toList) k'.log ∧
        Finished (t.published ++ s'.completed.toList) k'.log
      rw [hlog, hcomp, Option.toList_none, List.append_nil]
      exact ⟨hp, hf⟩
    · rw [List.nil_append] at hlog hz
      refine ⟨t.log, z, hlog, h, ?_⟩
      change _ ∨ Exhausted k'.log
      rw [hlog]
      exact hz

theorem sound_run {es : List (Device × UInt8)} (hl : ∀ x ∈ (run step new es).log, KeepsLength x) :
    (run step new es).Sound := by
  have hnone : ∀ es, (run step new es).fsm.completed = none :=
    run_invariant step (I := fun t => t.fsm.completed = none) rfl fun _ e h => completed_step h e
  induction es using List.reverseRecOn with
  | nil => exact ⟨rfl, ScanFsm.progress_new⟩
  | append_singleton es e ih =>
    rw [run_concat] at hl ⊢
    exact sound_step (ih fun x hx => hl x ((log_step (hnone es) e).subset hx)) hl

theorem Sound.genuine {t : Scanning} (h : t.Sound) : t.Genuine := by
  obtain ⟨-, h⟩ := h
  rcases ho : t.outcome with _ | e | _
  · simp only [ho] at h
    obtain ⟨ha, hi, hs⟩ := h.going
    exact ⟨ha, hi, ⟨fun ⟨e, he⟩ => absurd (ho.symm.trans he) nofun, fun hst => absurd hst hs⟩,
      fun hok => absurd (ho.symm.trans hok) nofun⟩
  · simp only [ho] at h
    obtain ⟨log, z, hlog, hp, hz⟩ := h
    obtain ⟨ha, hi, -⟩ := hp.going
    refine ⟨hlog ▸ ha.append [z], hi, ⟨fun _ => ?_, fun _ => ⟨e, ho⟩⟩, fun hok => absurd (ho.symm.trans hok) nofun⟩
    rcases hz with hz | hz
    · exact Or.inl ⟨z, by rw [hlog]; simp, hz⟩
    · exact Or.inr hz
  · simp only [ho] at h
    obtain ⟨hp, hf⟩ := h
    obtain ⟨ha, hi, hs⟩ := hp.going
    refine ⟨ha, hi, ⟨fun ⟨e, he⟩ => absurd (ho.symm.trans he) nofun, fun hst => absurd hst hs⟩, fun _ => ?_⟩
    obtain ⟨count, c, rest, scans, hlog, hc, -, -, -, hlen⟩ := hf
    exact ⟨count, c, rest ++ scans, by rw [hlog, List.append_assoc], hc, hlen⟩

/-- Whatever the replies to a scan, as long as they keep the length of the datagrams that they answer: its results
are genuine at every moment. -/
theorem scan_genuine {es : List (Device × UInt8)} (hl : ∀ x ∈ (run step new es).log, KeepsLength x) :
    (run step new es).Genuine :=
  (sound_run hl).genuine

def slaveAnswers (al fmmus syncs : UInt8) (words : List ℕ) : List (List UInt8 × UInt16) :=
  [(zeros 2, 1), ([al, 0], 1), ([4, 0, 0, 0, fmmus, syncs, 0, 0, 0, 0, 0, 0], 1)] ++
    words.flatMap fun word => [(zeros 4, 1), (zeros 6 ++ leBytes 4 word, 1)]

def scanTwo : List (Device × UInt8) :=
  let answers := [(zeros 2, 2), (zeros 2, 2)] ++ slaveAnswers 2 3 4 [0x994, 0x1B00, 1, 0x00801000, 0x00801080, 4] ++
    slaveAnswers 1 8 2 [0x2BE, 0x66, 7, 0x01001400, 0x01001600, 1]
  answers.zipIdx.flatMap fun p =>
    List.replicate 2 (Device.receiving [answerFrame .fprd (UInt8.ofNat p.2) p.1.1 p.1.2 []], UInt8.ofNat p.2)

theorem scan_genuine_two : (run step new (scanTwo ++ [(Device.receiving [], 0)])).Genuine ∧
    (run step new (scanTwo ++ [(Device.receiving [], 0)])).published =
      [⟨0, 1, 2, 4, 3, 4, 0x994, 0x1B00, 1, 0x1000, 0x80, 0x1080, 0x80, 4, true⟩,
        ⟨1, 2, 1, 4, 8, 2, 0x2BE, 0x66, 7, 0x1400, 0x100, 0x1600, 0x100, 1, false⟩] :=
  ⟨scan_genuine (by decide +kernel), by decide +kernel⟩

end Scanning

end EcMaster

import EcMaster.Phases

/-!
What the datagrams behind the LRW of a reply do to the engine, kind by kind and in the bytes that came back.
-/

namespace EcMaster

open Library.Segment Library.LittleEndian

def ReportsOp (d : Reply) : Prop :=
  d.workingCounter ≠ 0 ∧ d.data.headD 0 &&& 0x10 = 0 ∧ d.data.headD 0 &&& 0x0F = 0x08

def ReportsError (d : Reply) : Prop := d.workingCounter ≠ 0 ∧ d.data.headD 0 &&& 0x10 ≠ 0

def ReportsLoss (d : Reply) : Prop :=
  d.workingCounter ≠ 0 ∧ (d.data.headD 0 &&& 0x10 ≠ 0 ∨ d.data.headD 0 &&& 0x0F ≠ 0x08)

def ReportsDrift (d : Reply) : Prop := d.workingCounter ≠ 0 ∧ 4 ≤ d.data.length

def driftNs (data : List UInt8) : ℤ :=
  let low : ℤ := (data.getD 0 0).toNat + 256 * (data.getD 1 0).toNat + 65536 * (data.getD 2 0).toNat
  let high : ℤ := (data.getD 3 0).toNat
  if high < 128 then low + 16777216 * high else -(low + 16777216 * (high - 128))

theorem toInt_toInt32 {x : UInt32} (h : x.toNat < 2 ^ 31) : x.toInt32.toInt = x.toNat := by
  have hx : x.toBitVec.toNat = x.toNat := rfl
  rw [← Int32.toInt_toBitVec, UInt32.toBitVec_toInt32, BitVec.toInt_eq_toNat_of_lt (by omega), hx]

theorem decodeDcDiff_toInt (raw : UInt32) :
    (decodeDcDiff raw).toInt = if raw.toNat < 2 ^ 31 then (raw.toNat : ℤ) else -((raw.toNat : ℤ) - 2 ^ 31) := by
  have hlt := raw.toNat_lt
  have hmag : (raw &&& 0x7FFFFFFF).toNat = raw.toNat % 2 ^ 31 := by
    rw [UInt32.toNat_and]
    exact Nat.and_two_pow_sub_one_eq_mod raw.toNat 31
  have hint := toInt_toInt32 (x := raw &&& 0x7FFFFFFF) (by omega)
  have hsign : (raw &&& 0x80000000).toNat = (raw.toNat.testBit 31).toNat * 2 ^ 31 := by
    rw [UInt32.toNat_and]
    exact Nat.and_two_pow raw.toNat 31
  have hbit : raw.toNat.testBit 31 = decide (¬ raw.toNat < 2 ^ 31) := by
    rw [Nat.testBit_eq_decide_div_mod_eq, decide_eq_decide]
    omega
  have hiff : raw &&& 0x80000000 ≠ 0 ↔ ¬ raw.toNat < 2 ^ 31 := by
    rw [Ne, ← UInt32.toNat_inj, hsign, hbit]
    simp
  rw [decodeDcDiff]
  by_cases h : raw.toNat < 2 ^ 31
  · rw [if_neg (by rw [hiff]; exact not_not.mpr h), if_pos h, hint, hmag]
    omega
  · rw [if_pos (hiff.mpr h), if_neg h, Int32.toInt_neg, hint, hmag, Int.bmod_eq_of_le (by omega) (by omega)]
    omega

theorem exists_of_four_le {α : Type} {xs : List α} (h : 4 ≤ xs.length) :
    ∃ a b c d rest, xs = a :: b :: c :: d :: rest := by
  rcases xs with _ | ⟨a, _ | ⟨b, _ | ⟨c, _ | ⟨d, rest⟩⟩⟩⟩
  · simp at h
  · simp at h
  · simp at h
  · simp at h
  · exact ⟨a, b, c, d, rest, rfl⟩

theorem decodeDcDiff_bytes {data : List UInt8} (h : 4 ≤ data.length) :
    (decodeDcDiff (u32Le (slice data 0 4))).toInt = driftNs data := by
  obtain ⟨b₀, b₁, b₂, b₃, rest, rfl⟩ := exists_of_four_le h
  have h₀ := b₀.toNat_lt
  have h₁ := b₁.toNat_lt
  have h₂ := b₂.toNat_lt
  have h₃ := b₃.toNat_lt
  have hle : leNat [b₀, b₁, b₂, b₃] = b₀.toNat + 256 * b₁.toNat + 65536 * b₂.toNat + 16777216 * b₃.toNat := by
    simp only [leNat]
    omega
  have hraw : (u32Le (slice (b₀ :: b₁ :: b₂ :: b₃ :: rest) 0 4)).toNat =
      b₀.toNat + 256 * b₁.toNat + 65536 * b₂.toNat + 16777216 * b₃.toNat := by
    have hs : slice (b₀ :: b₁ :: b₂ :: b₃ :: rest) 0 4 = [b₀, b₁, b₂, b₃] := rfl
    rw [hs, ← hle]
    exact UInt32.toNat_ofNat_of_lt (by rw [hle, UInt32.size]; omega)
  have hdrift : driftNs (b₀ :: b₁ :: b₂ :: b₃ :: rest) =
      if (b₃.toNat : ℤ) < 128 then (b₀.toNat + 256 * b₁.toNat + 65536 * b₂.toNat : ℤ) + 16777216 * b₃.toNat
      else -((b₀.toNat + 256 * b₁.toNat + 65536 * b₂.toNat : ℤ) + 16777216 * (b₃.toNat - 128)) := rfl
  rw [decodeDcDiff_toInt, hraw, hdrift]
  by_cases h : b₃.toNat < 128
  · rw [if_pos (by omega), if_pos (by omega)]
    push_cast
    ring
  · rw [if_neg (by omega), if_neg (by omega)]
    push_cast
    ring

namespace Cyclic

variable {L : Layout}

structure Decoded (c : Cyclic L) (answers : List (Appended × Reply)) (c' : Cyclic L) : Prop where
  slaves : ∀ i, (c.slaves[i]? = none ∧ c'.slaves[i]? = none) ∨ ∃ s s', c.slaves[i]? = some s ∧ c'.slaves[i]? = some s' ∧
    s'.station = s.station ∧ s'.ringPos = s.ringPos ∧
    (s'.reachedOp = true ↔ s.reachedOp = true ∨ ∃ d, (.status i, d) ∈ answers ∧ ReportsOp d)
  faulted : c'.phase = .faulted ↔ c.phase = .faulted ∨ (∃ i d, (.status i, d) ∈ answers ∧ ReportsError d) ∨
    ∃ d, (.alPoll, d) ∈ answers ∧ ReportsLoss d
  drift : (∃ d, (.dcDiff, d) ∈ answers ∧ ReportsDrift d ∧ c'.dcValid = true ∧ c'.dcDiffNs.toInt = driftNs d.data) ∨
    (∀ d, (.dcDiff, d) ∈ answers → ¬ ReportsDrift d) ∧ c'.dcValid = c.dcValid ∧ c'.dcDiffNs = c.dcDiffNs

theorem Decoded.silent {c c' : Cyclic L} (hs : c'.slaves = c.slaves) (hp : c'.phase = .faulted ↔ c.phase = .faulted)
    (hv : c'.dcValid = c.dcValid) (hd : c'.dcDiffNs = c.dcDiffNs) : c.Decoded [] c' := by
  refine ⟨fun i => ?_, by simpa using hp, Or.inr ⟨fun d h => absurd h List.not_mem_nil, hv, hd⟩⟩
  rw [hs]
  cases h : c.slaves[i]? with
  | none => exact Or.inl ⟨rfl, rfl⟩
  | some s => exact Or.inr ⟨s, s, rfl, rfl, rfl, rfl, by simp⟩

theorem Decoded.reached_iff {c c' : Cyclic L} {answers : List (Appended × Reply)} (h : c.Decoded answers c') {j : ℕ}
    (hj : j < c.slaves.length) :
    c'.reached j = true ↔ c.reached j = true ∨ ∃ d, (.status j, d) ∈ answers ∧ ReportsOp d := by
  rcases h.slaves j with ⟨hn, -⟩ | ⟨s, s', hs, hs', -, -, hr⟩
  · exact absurd hn (by simp [hj])
  · simp only [reached, hs, hs', Option.map_some, Option.getD_some]
    exact hr

theorem Decoded.append {a b c : Cyclic L} {xs ys : List (Appended × Reply)} (h : a.Decoded xs b)
    (h' : b.Decoded ys c) : a.Decoded (xs ++ ys) c := by
  refine ⟨fun i => ?_, ?_, ?_⟩
  · rcases h.slaves i with ⟨ha, hb⟩ | ⟨s, t, ha, hb, hst, hrp, hro⟩
    · rcases h'.slaves i with ⟨-, hc⟩ | ⟨t, -, hb', -⟩
      · exact Or.inl ⟨ha, hc⟩
      · exact absurd (hb.symm.trans hb') (by simp)
    · rcases h'.slaves i with ⟨hb', -⟩ | ⟨t', u, hb', hc, hst', hrp', hro'⟩
      · exact absurd (hb.symm.trans hb') (by simp)
      · obtain rfl := Option.some.inj (hb.symm.trans hb')
        refine Or.inr ⟨s, u, ha, hc, hst'.trans hst, hrp'.trans hrp, ?_⟩
        rw [hro', hro]
        simp only [List.mem_append, or_and_right, exists_or, or_assoc]
  · rw [h'.faulted, h.faulted]
    simp only [List.mem_append, or_and_right, exists_or]
    rw [or_assoc, or_or_or_comm]
  · rcases h'.drift with ⟨d, hd, hr⟩ | ⟨hn, hv, he⟩
    · exact Or.inl ⟨d, List.mem_append_right _ hd, hr⟩
    · rcases h.drift with ⟨d, hd, hr, hv', he'⟩ | ⟨hn', hv', he'⟩
      · exact Or.inl ⟨d, List.mem_append_left _ hd, hr, hv.trans hv', (congrArg Int32.toInt he).trans he'⟩
      · refine Or.inr ⟨fun d hd => ?_, hv.trans hv', he.trans he'⟩
        rcases List.mem_append.mp hd with hd | hd
        · exact hn' d hd
        · exact hn d hd

theorem Decoded.idle {c : Cyclic L} {kind : Appended} {d : Reply}
    (hs : ∀ i, kind = .status i → ¬ ReportsOp d ∧ ¬ ReportsError d) (ha : kind = .alPoll → ¬ ReportsLoss d)
    (hd : kind = .dcDiff → ¬ ReportsDrift d) : c.Decoded [(kind, d)] c := by
  refine ⟨fun i => ?_, ?_, Or.inr ⟨fun e he => ?_, rfl, rfl⟩⟩
  · cases h : c.slaves[i]? with
    | none => exact Or.inl ⟨rfl, rfl⟩
    | some s =>
      refine Or.inr ⟨s, s, rfl, rfl, rfl, rfl, (or_iff_left ?_).symm⟩
      rintro ⟨e, he, hr⟩
      obtain ⟨hk, rfl⟩ := Prod.mk.inj (List.mem_singleton.mp he)
      exact (hs i hk.symm).1 hr
  · refine (or_iff_left ?_).symm
    rintro (⟨i, e, he, hr⟩ | ⟨e, he, hr⟩)
    · obtain ⟨hk, rfl⟩ := Prod.mk.inj (List.mem_singleton.mp he)
      exact (hs i hk.symm).2 hr
    · obtain ⟨hk, rfl⟩ := Prod.mk.inj (List.mem_singleton.mp he)
      exact ha hk.symm hr
  · obtain ⟨hk, rfl⟩ := Prod.mk.inj (List.mem_singleton.mp he)
    exact hd hk.symm

theorem Decoded.fault {c : Cyclic L} {kind : Appended} {d : Reply}
    (h : (∃ i, kind = .status i) ∧ ReportsError d ∨ kind = .alPoll ∧ ReportsLoss d) :
    c.Decoded [(kind, d)] (c.applyAction .fault) := by
  refine ⟨fun i => ?_, ?_, Or.inr ⟨fun e he => ?_, rfl, rfl⟩⟩
  · cases hc : c.slaves[i]? with
    | none => exact Or.inl ⟨rfl, hc⟩
    | some s =>
      refine Or.inr ⟨s, s, rfl, hc, rfl, rfl, (or_iff_left ?_).symm⟩
      rintro ⟨e, he, hr⟩
      obtain ⟨hk, rfl⟩ := Prod.mk.inj (List.mem_singleton.mp he)
      rcases h with ⟨-, hw⟩ | ⟨hk', -⟩
      · exact hw.2 hr.2.1
      · exact absurd (hk.trans hk') (by simp)
  · refine ⟨fun _ => Or.inr ?_, fun _ => rfl⟩
    rcases h with ⟨⟨i, rfl⟩, hr⟩ | ⟨rfl, hr⟩
    · exact Or.inl ⟨i, d, List.mem_singleton_self _, hr⟩
    · exact Or.inr ⟨d, List.mem_singleton_self _, hr⟩
  · obtain ⟨hk, rfl⟩ := Prod.mk.inj (List.mem_singleton.mp he)
    rcases h with ⟨⟨i, hk'⟩, -⟩ | ⟨hk', -⟩
    · exact absurd (hk.trans hk') (by simp)
    · exact absurd (hk.trans hk') (by simp)

theorem Decoded.opReached {c : Cyclic L} {j : ℕ} {d : Reply} (h : ReportsOp d) :
    c.Decoded [(.status j, d)] (c.applyAction (.opReached j)) := by
  refine ⟨fun i => ?_, ?_, Or.inr ⟨fun e he => ?_, rfl, rfl⟩⟩
  · simp only [applyAction, List.getElem?_modify]
    cases hc : c.slaves[i]? with
    | none => exact Or.inl ⟨rfl, rfl⟩
    | some s =>
      refine Or.inr ⟨s, _, rfl, rfl, ?_, ?_, ?_⟩
      · split_ifs <;> rfl
      · split_ifs <;> rfl
      · by_cases hj : j = i
        · subst hj
          simp [h]
        · simp only [if_neg hj]
          refine (or_iff_left ?_).symm
          rintro ⟨e, he, -⟩
          exact hj (Appended.status.inj (Prod.mk.inj (List.mem_singleton.mp he)).1).symm
  · refine (or_iff_left ?_).symm
    rintro (⟨i, e, he, hr⟩ | ⟨e, he, -⟩)
    · obtain ⟨-, rfl⟩ := Prod.mk.inj (List.mem_singleton.mp he)
      exact hr.2 h.2.1
    · exact absurd (Prod.mk.inj (List.mem_singleton.mp he)).1 (by simp)
  · exact absurd (Prod.mk.inj (List.mem_singleton.mp he)).1 (by simp)

theorem Decoded.ofDrift {c : Cyclic L} {d : Reply} (h : ReportsDrift d) :
    c.Decoded [(.dcDiff, d)] (c.applyAction (.drift (decodeDcDiff (u32Le (slice d.data 0 4))))) := by
  refine ⟨fun i => ?_, ?_, Or.inl ⟨d, List.mem_singleton_self _, h, rfl, decodeDcDiff_bytes h.2⟩⟩
  · cases hc : c.slaves[i]? with
    | none => exact Or.inl ⟨rfl, hc⟩
    | some s => exact Or.inr ⟨s, s, rfl, hc, rfl, rfl, by simp⟩
  · simp [applyAction]

theorem decoded_status (c : Cyclic L) (j : ℕ) (d : Reply) :
    c.Decoded [(.status j, d)] (c.applyAction (decodeAppended (.status j) d)) := by
  have hidle : ¬ ReportsOp d → ¬ ReportsError d → c.Decoded [(.status j, d)] c := fun ho he =>
    Decoded.idle (fun _ _ => ⟨ho, he⟩) (fun h => absurd h (by simp)) fun h => absurd h (by simp)
  simp only [decodeAppended]
  split_ifs with hw he ho
  · exact hidle (fun h => h.1 hw) fun h => h.1 hw
  · exact Decoded.fault (Or.inl ⟨⟨j, rfl⟩, hw, he⟩)
  · exact Decoded.opReached ⟨hw, not_not.mp he, ho⟩
  · exact hidle (fun h => ho h.2.2) fun h => he h.2

theorem decoded_alPoll (c : Cyclic L) (d : Reply) :
    c.Decoded [(.alPoll, d)] (c.applyAction (decodeAppended .alPoll d)) := by
  have hidle : ¬ ReportsLoss d → c.Decoded [(.alPoll, d)] c := fun hl =>
    Decoded.idle (fun _ h => absurd h (by simp)) (fun _ => hl) fun h => absurd h (by simp)
  simp only [decodeAppended]
  split_ifs with hw hl
  · exact hidle fun h => h.1 hw
  · exact Decoded.fault (Or.inr ⟨rfl, hw, hl⟩)
  · exact hidle fun h => hl h.2

theorem decoded_dcDiff (c : Cyclic L) (d : Reply) :
    c.Decoded [(.dcDiff, d)] (c.applyAction (decodeAppended .dcDiff d)) := by
  simp only [decodeAppended]
  split_ifs with h
  · exact Decoded.ofDrift ⟨UInt16.pos_iff_ne_zero.mp h.1, h.2⟩
  · exact Decoded.idle (fun _ h => absurd h (by simp)) (fun h => absurd h (by simp))
      fun _ hd => h ⟨UInt16.pos_iff_ne_zero.mpr hd.1, hd.2⟩

theorem decoded_applyAction (c : Cyclic L) (kind : Appended) (d : Reply) :
    c.Decoded [(kind, d)] (c.applyAction (decodeAppended kind d)) := by
  cases kind with
  | control | dcArmw =>
    exact Decoded.idle (fun _ h => absurd h (by simp)) (fun h => absurd h (by simp)) fun h => absurd h (by simp)
  | status j => exact c.decoded_status j d
  | alPoll => exact c.decoded_alPoll d
  | dcDiff => exact c.decoded_dcDiff d

theorem decoded_foldl (c : Cyclic L) (answers : List (Appended × Reply)) :
    c.Decoded answers ((answers.map fun p => decodeAppended p.1 p.2).foldl applyAction c) := by
  induction answers generalizing c with
  | nil => exact Decoded.silent rfl Iff.rfl rfl rfl
  | cons p answers ih => exact (c.decoded_applyAction p.1 p.2).append (ih _)

theorem decoded_primed (c : Cyclic L) : c.Decoded [] c.primed := by
  rw [primed]
  split_ifs with h
  · exact Decoded.silent rfl (by simp [h.1]) rfl rfl
  · exact Decoded.silent rfl Iff.rfl rfl rfl

theorem decoded_entered (c : Cyclic L) : c.Decoded [] c.entered := by
  rw [entered]
  split_ifs with h
  · exact Decoded.silent rfl (by simp [h.1]) rfl rfl
  · exact Decoded.silent rfl Iff.rfl rfl rfl

theorem decoded_absorb (c : Cyclic L) (lrw : Reply) (answers : List (Appended × Reply)) :
    c.Decoded answers (c.absorb lrw answers) := by
  set d := ({ c with domain := (c.domain.applyReply lrw).2 : Cyclic L }.countGood lrw.workingCounter)
  have hd : c.Decoded [] d := Decoded.silent rfl Iff.rfl rfl rfl
  have h := ((hd.append d.decoded_primed).append (d.primed.decoded_foldl answers)).append (decoded_entered _)
  rw [List.append_nil] at h
  exact h

theorem decoded_received {c : Cyclic L} {dev : Device} {p : Reply × ℕ} (h : c.processed dev = some p)
    (latency : UInt32) : c.Decoded (c.answered dev) (c.received dev latency) := by
  have hb : c.Decoded [] (c.beginTick latency) := Decoded.silent rfl Iff.rfl rfl rfl
  have ha := hb.append (decoded_absorb (c.beginTick latency) p.1 (c.answered dev))
  have hclear : ((c.beginTick latency).absorb p.1 (c.answered dev)).Decoded []
      ((c.beginTick latency).absorb p.1 (c.answered dev)).clearOutstanding := Decoded.silent rfl Iff.rfl rfl rfl
  have he := ha.append hclear
  rw [List.append_nil] at he
  rw [received_eq, h]
  exact he

end Cyclic

end EcMaster

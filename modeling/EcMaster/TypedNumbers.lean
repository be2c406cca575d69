import EcMaster.Numerals

namespace EcMaster.Cli

/-- What a word behind the command is: an option, with its value attached or in the next word, or an argument. -/
inductive Spelling where
  | position (attached : Option Text)
  | rate (attached : Option Text)
  | type (attached : Bool)
  | argument
  | unknown

def spelling (t : Text) : Spelling :=
  if t = "-p".toList ∨ t = "--position".toList then .position none
  else if t = "-r".toList ∨ t = "--rate".toList then .rate none
  else if t = "-t".toList ∨ t = "--type".toList then .type false
  else match stripPrefix "-p".toList t, stripPrefix "-r".toList t with
    | some v, _ => .position (some v)
    | none, some v => .rate (some v)
    | none, none =>
      if "--type=".toList.isPrefixOf t ∨ "-t".toList.isPrefixOf t then .type true
      else if "-".toList.isPrefixOf t then .unknown
      else .argument

/-- The numbers and the arguments of a command; the last one of a repeated option counts. -/
structure Spoken where
  position : Option ℕ
  rate : Option ℕ
  args : List Text

def spokenFrom (w : Spoken) : List Text → Option Spoken
  | [] => some w
  | t :: toks =>
    match spelling t, toks with
    | .position (some v), toks => (unsigned v).bind fun n => spokenFrom { w with position := some n } toks
    | .position none, v :: toks => (unsigned v).bind fun n => spokenFrom { w with position := some n } toks
    | .rate (some v), toks => (unsigned v).bind fun n => spokenFrom { w with rate := some n } toks
    | .rate none, v :: toks => (unsigned v).bind fun n => spokenFrom { w with rate := some n } toks
    | .type true, toks => spokenFrom w toks
    | .type false, _ :: toks => spokenFrom w toks
    | .argument, toks => spokenFrom { w with args := w.args ++ [t] } toks
    | _, _ => none

def spoken (toks : List Text) : Option Spoken := spokenFrom ⟨none, none, []⟩ toks

structure Numbers where
  slave : ℕ
  rate : Option ℕ
  index : Option ℕ
  subindex : Option ℕ
  deriving DecidableEq

def Command.numbers : Command → Option Numbers
  | .states slave _ => some ⟨slave.toNat, none, none, none⟩
  | .upload slave index subindex _ => some ⟨slave.toNat, none, some index.toNat, some subindex.toNat⟩
  | .download slave index subindex _ _ _ => some ⟨slave.toNat, none, some index.toNat, some subindex.toNat⟩
  | .start slave rateHz => some ⟨slave.toNat, rateHz.map UInt32.toNat, none, none⟩
  | _ => none

def Spoken.numbers (w : Spoken) (word : Text) : Option Numbers :=
  if word = "start".toList then some ⟨w.position.getD 0, w.rate, none, none⟩
  else if word = "states".toList ∨ word = "state".toList then w.position.map fun p => ⟨p, none, none, none⟩
  else if (word = "upload".toList ∨ word = "up".toList) ∨ word = "download".toList ∨ word = "down".toList then
    w.position.bind fun p => (unsigned (w.args.getD 0 [])).bind fun i =>
      (unsigned (w.args.getD 1 [])).map fun s => ⟨p, none, some i, some s⟩
  else none

def typedNumbers (line : Text) : Option Numbers :=
  match splitWhitespace (trim line) with
  | [] => none
  | word :: toks => (spoken toks).bind fun w => w.numbers word

structure Opts.Holds (o : Opts) (w : Spoken) : Prop where
  position : o.position = w.position.map UInt16.ofNat
  rate : o.rate = w.rate.map UInt32.ofNat
  args : o.args = w.args

def Opts.Reads (o : Opts) (t : Text) (toks : List Text) (o' : Opts) : Prop :=
  match spelling t with
  | .position (some v) => ∃ n, parseUint v = some n ∧ optsFrom { o with position := some (UInt16.ofNat n) } toks = .ok o'
  | .position none => ∃ v rest n, toks = v :: rest ∧ parseUint v = some n ∧
      optsFrom { o with position := some (UInt16.ofNat n) } rest = .ok o'
  | .rate (some v) => ∃ n, parseUint v = some n ∧ optsFrom { o with rate := some (UInt32.ofNat n) } toks = .ok o'
  | .rate none => ∃ v rest n, toks = v :: rest ∧ parseUint v = some n ∧
      optsFrom { o with rate := some (UInt32.ofNat n) } rest = .ok o'
  | .type true => ∃ ty, optsFrom { o with ty := ty } toks = .ok o'
  | .type false => ∃ v rest, toks = v :: rest ∧ optsFrom { o with ty := some v } rest = .ok o'
  | .argument => optsFrom { o with args := o.args ++ [t] } toks = .ok o'
  | .unknown => False

theorem optsFrom_value {o' : Opts} {f : ℕ → Opts} {msg : String} {v : Text} {rest : List Text}
    (h : (match parseUint v with
      | none => Except.error (err msg)
      | some n => optsFrom (f n) rest) = .ok o') : ∃ n, parseUint v = some n ∧ optsFrom (f n) rest = .ok o' := by
  cases hn : parseUint v with
  | none =>
    rw [hn] at h
    cases h
  | some n => exact ⟨n, rfl, by rwa [hn] at h⟩

theorem optsFrom_cons {o o' : Opts} {t : Text} {toks : List Text} (h : optsFrom o (t :: toks) = .ok o') :
    o.Reads t toks o' := by
  rw [optsFrom.eq_def] at h
  dsimp only at h
  rw [Opts.Reads, spelling]
  by_cases hp : t = "-p".toList ∨ t = "--position".toList
  · rw [if_pos hp] at h ⊢
    cases toks with
    | nil => cases h
    | cons v rest =>
      obtain ⟨n, hn, ho⟩ := optsFrom_value h
      exact ⟨v, rest, n, rfl, hn, ho⟩
  rw [if_neg hp] at h ⊢
  cases hsp : stripPrefix "-p".toList t with
  | some v =>
    have hr : ¬ (t = "-r".toList ∨ t = "--rate".toList) := by
      rintro (rfl | rfl) <;> cases hsp.symm.trans (show _ = none by decide)
    have ht : ¬ (t = "-t".toList ∨ t = "--type".toList) := by
      rintro (rfl | rfl) <;> cases hsp.symm.trans (show _ = none by decide)
    rw [if_neg hr, if_neg ht]
    rw [hsp] at h
    exact optsFrom_value h
  | none =>
    rw [hsp] at h
    dsimp only at h
    by_cases hr : t = "-r".toList ∨ t = "--rate".toList
    · rw [if_pos hr] at h ⊢
      cases toks with
      | nil => cases h
      | cons v rest =>
        obtain ⟨n, hn, ho⟩ := optsFrom_value h
        exact ⟨v, rest, n, rfl, hn, ho⟩
    rw [if_neg hr] at h ⊢
    cases hsr : stripPrefix "-r".toList t with
    | some v =>
      have ht : ¬ (t = "-t".toList ∨ t = "--type".toList) := by
        rintro (rfl | rfl) <;> cases hsr.symm.trans (show _ = none by decide)
      rw [if_neg ht]
      rw [hsr] at h
      exact optsFrom_value h
    | none =>
      rw [hsr] at h
      dsimp only at h
      by_cases ht : t = "-t".toList ∨ t = "--type".toList
      · rw [if_pos ht] at h ⊢
        cases toks with
        | nil => cases h
        | cons v rest => exact ⟨v, rest, rfl, h⟩
      rw [if_neg ht] at h ⊢
      by_cases htype : "--type=".toList.isPrefixOf t = true
      · rw [if_pos (Or.inl htype)]
        rw [stripPrefix, if_pos htype] at h
        exact ⟨_, h⟩
      rw [stripPrefix, if_neg htype] at h
      dsimp only at h
      by_cases hshort : "-t".toList.isPrefixOf t = true
      · rw [if_pos (Or.inr hshort)]
        rw [stripPrefix, if_pos hshort] at h
        exact ⟨_, h⟩
      rw [stripPrefix, if_neg hshort] at h
      dsimp only at h
      rw [if_neg (not_or.mpr ⟨htype, hshort⟩)]
      by_cases hdash : "-".toList.isPrefixOf t = true
      · rw [if_pos hdash] at h
        cases h
      · rw [if_neg hdash] at h ⊢
        split_ifs at h
        exact h

theorem Opts.Holds.said_position {o : Opts} {w : Spoken} (hw : o.Holds w) (n : ℕ) :
    Opts.Holds { o with position := some (UInt16.ofNat n) } { w with position := some n } := ⟨rfl, hw.rate, hw.args⟩

theorem Opts.Holds.said_rate {o : Opts} {w : Spoken} (hw : o.Holds w) (n : ℕ) :
    Opts.Holds { o with rate := some (UInt32.ofNat n) } { w with rate := some n } := ⟨hw.position, rfl, hw.args⟩

theorem Opts.Holds.said_type {o : Opts} {w : Spoken} (hw : o.Holds w) (ty : Option Text) :
    Opts.Holds { o with ty := ty } w := ⟨hw.position, hw.rate, hw.args⟩

theorem Opts.Holds.said_argument {o : Opts} {w : Spoken} (hw : o.Holds w) (t : Text) :
    Opts.Holds { o with args := o.args ++ [t] } { w with args := w.args ++ [t] } :=
  ⟨hw.position, hw.rate, congrArg (· ++ [t]) hw.args⟩

theorem optsFrom_holds {o o' : Opts} {w : Spoken} (hw : o.Holds w) {toks : List Text} (h : optsFrom o toks = .ok o') :
    ∃ w', spokenFrom w toks = some w' ∧ o'.Holds w' := by
  induction hn : toks.length using Nat.strong_induction_on generalizing o w toks with
  | _ n ih =>
    cases toks with
    | nil =>
      obtain rfl := Except.ok.inj h
      exact ⟨w, rfl, hw⟩
    | cons t toks =>
      have hrest : ∀ {o : Opts} {w : Spoken}, o.Holds w → optsFrom o toks = .ok o' →
          ∃ w', spokenFrom w toks = some w' ∧ o'.Holds w' :=
        fun hw h => ih toks.length (by rw [← hn]; exact Nat.lt_succ_self _) hw h rfl
      have hnext : ∀ {o : Opts} {w : Spoken} {v : Text} {rest : List Text}, toks = v :: rest → o.Holds w →
          optsFrom o rest = .ok o' → ∃ w', spokenFrom w rest = some w' ∧ o'.Holds w' := by
        rintro o w v rest rfl hw h
        exact ih rest.length (by rw [← hn, List.length_cons, List.length_cons]; omega) hw h rfl
      have hread := optsFrom_cons h
      rw [Opts.Reads] at hread
      rw [spokenFrom.eq_def]
      dsimp only
      cases hs : spelling t with
      | position attached =>
        rw [hs] at hread
        cases attached with
        | some v =>
          obtain ⟨n, hv, ho⟩ := hread
          dsimp only
          rw [unsigned_of_parse hv]
          exact hrest (hw.said_position n) ho
        | none =>
          obtain ⟨v, rest, n, rfl, hv, ho⟩ := hread
          dsimp only
          rw [unsigned_of_parse hv]
          exact hnext rfl (hw.said_position n) ho
      | rate attached =>
        rw [hs] at hread
        cases attached with
        | some v =>
          obtain ⟨n, hv, ho⟩ := hread
          dsimp only
          rw [unsigned_of_parse hv]
          exact hrest (hw.said_rate n) ho
        | none =>
          obtain ⟨v, rest, n, rfl, hv, ho⟩ := hread
          dsimp only
          rw [unsigned_of_parse hv]
          exact hnext rfl (hw.said_rate n) ho
      | type attached =>
        rw [hs] at hread
        cases attached with
        | true =>
          obtain ⟨ty, ho⟩ := hread
          exact hrest (hw.said_type ty) ho
        | false =>
          obtain ⟨v, rest, rfl, ho⟩ := hread
          exact hnext rfl (hw.said_type (some v)) ho
      | argument =>
        rw [hs] at hread
        exact hrest (hw.said_argument t) hread
      | unknown =>
        rw [hs] at hread
        exact hread.elim

theorem parseOpts_holds {o : Opts} {toks : List Text} (h : parseOpts toks = .ok o) :
    ∃ w, spoken toks = some w ∧ o.Holds w :=
  optsFrom_holds ⟨rfl, rfl, rfl⟩ h

theorem optsFrom_error {o : Opts} {toks : List Text} {e : Command} (h : optsFrom o toks = .error e) :
    ∃ msg, e = .error msg := by
  fun_induction optsFrom o toks
  all_goals first
    | exact ⟨_, (Except.error.inj h).symm⟩
    | solve_by_elim
    | cases h

def Numbers.cut (t : Numbers) : Numbers := { t with slave := t.slave % 2 ^ 16, rate := t.rate.map (· % 2 ^ 32) }

theorem parseOpts_cases {toks : List Text} {n : Numbers} {f : Opts → Command}
    (h : (match parseOpts toks with
      | .error e => e
      | .ok o => f o).numbers = some n) : ∃ o w, spoken toks = some w ∧ o.Holds w ∧ (f o).numbers = some n := by
  cases ho : parseOpts toks with
  | error e =>
    obtain ⟨msg, rfl⟩ := optsFrom_error ho
    rw [ho] at h
    exact absurd h nofun
  | ok o =>
    obtain ⟨w, hw, hh⟩ := parseOpts_holds ho
    rw [ho] at h
    exact ⟨o, w, hw, hh, h⟩

theorem parseStart_numbers {toks : List Text} {n : Numbers} (h : (parseStart toks).numbers = some n) :
    ∃ w, spoken toks = some w ∧ n = Numbers.cut ⟨w.position.getD 0, w.rate, none, none⟩ ∧
      ∀ r ∈ n.rate, 50 ≤ r ∧ r ≤ 8000 := by
  obtain ⟨o, w, hw, hh, hn⟩ := parseOpts_cases h
  have hslave : (o.position.getD 0).toNat = w.position.getD 0 % 2 ^ 16 := by
    rw [hh.position]
    cases w.position with
    | none => rfl
    | some p => exact UInt16.toNat_ofNat'
  have hrate : o.rate.map UInt32.toNat = w.rate.map (· % 2 ^ 32) := by
    rw [hh.rate]
    cases w.rate with
    | none => rfl
    | some r => exact congrArg some UInt32.toNat_ofNat'
  refine ⟨w, hw, ?_⟩
  cases hr : o.rate with
  | none =>
    rw [hr] at hn hrate
    obtain rfl := Option.some.inj hn
    refine ⟨?_, nofun⟩
    rw [Numbers.cut, ← hrate, ← hslave]
  | some hz =>
    rw [hr] at hn hrate
    dsimp only at hn
    split_ifs at hn with hrange
    · obtain rfl := Option.some.inj hn
      refine ⟨?_, ?_⟩
      · rw [Numbers.cut, ← hrate, ← hslave]
      · rintro r hmem
        obtain rfl := Option.some.inj hmem
        exact ⟨UInt32.le_iff_toNat_le.mp hrange.1, UInt32.le_iff_toNat_le.mp hrange.2⟩
    · exact absurd hn nofun

theorem position_toNat {o : Opts} {w : Spoken} (hh : o.Holds w) {slave : UInt16} (hs : o.position = some slave) :
    ∃ p, w.position = some p ∧ slave.toNat = p % 2 ^ 16 := by
  rw [hh.position] at hs
  obtain ⟨p, hp, rfl⟩ := Option.map_eq_some_iff.mp hs
  exact ⟨p, hp, UInt16.toNat_ofNat'⟩

theorem parseStates_numbers {toks : List Text} {n : Numbers} (h : (parseStates toks).numbers = some n) :
    ∃ w p, spoken toks = some w ∧ w.position = some p ∧ n = Numbers.cut ⟨p, none, none, none⟩ := by
  obtain ⟨o, w, hw, hh, hn⟩ := parseOpts_cases h
  cases hs : o.position with
  | none =>
    rw [hs] at hn
    exact absurd hn nofun
  | some slave =>
    obtain ⟨p, hp, hcut⟩ := position_toNat hh hs
    refine ⟨w, p, hw, hp, ?_⟩
    rw [Numbers.cut, ← hcut]
    rw [hs] at hn
    cases hargs : o.args with
    | nil => exact absurd (hargs ▸ hn) nofun
    | cons name rest =>
      rw [hargs] at hn
      cases rest with
      | cons _ _ => exact absurd hn nofun
      | nil =>
        dsimp only at hn
        cases ht : alStateFromName name with
        | none => exact absurd (ht ▸ hn) nofun
        | some target =>
          rw [ht] at hn
          exact (Option.some.inj hn).symm

theorem parseField_eq {bound n : ℕ} {s : Text} (h : parseField bound s = some n) : unsigned s = some n ∧ n ≤ bound := by
  rw [parseField] at h
  cases hn : parseUint s with
  | none => exact absurd (hn ▸ h) nofun
  | some v =>
    rw [hn] at h
    dsimp only at h
    split_ifs at h with hle
    obtain rfl := Option.some.inj h
    exact ⟨unsigned_of_parse hn, hle⟩

theorem parseDownload_numbers {slave index : UInt16} {subindex : UInt8} {ty : Option SdoType} {value : Text} {n : Numbers}
    (h : (parseDownload slave index subindex ty value).numbers = some n) :
    n = ⟨slave.toNat, none, some index.toNat, some subindex.toNat⟩ := by
  rw [parseDownload.eq_def] at h
  cases ty with
  | none => exact absurd h nofun
  | some ty =>
    dsimp only at h
    cases he : encodeValue ty value with
    | none => exact absurd (he ▸ h) nofun
    | some data =>
      rw [he] at h
      exact (Option.some.inj h).symm

theorem parseObject_numbers {o : Opts} {slave : UInt16} {download : Bool} {n : Numbers}
    (h : (parseObject o slave download).numbers = some n) : ∃ i s, unsigned (o.args.getD 0 []) = some i ∧
      unsigned (o.args.getD 1 []) = some s ∧ n = ⟨slave.toNat, none, some i, some s⟩ := by
  rw [parseObject] at h
  cases hi : parseField 0xFFFF (o.args.getD 0 []) with
  | none => exact absurd (hi ▸ h) nofun
  | some i =>
    rw [hi] at h
    dsimp only at h
    cases hs : parseField 0xFF (o.args.getD 1 []) with
    | none => exact absurd (hs ▸ h) nofun
    | some s =>
      rw [hs] at h
      obtain ⟨hindex, hile⟩ := parseField_eq hi
      obtain ⟨hsub, hsle⟩ := parseField_eq hs
      have hitoNat : (UInt16.ofNat i).toNat = i := UInt16.toNat_ofNat_of_lt (Nat.lt_succ_of_le hile)
      have hstoNat : (UInt8.ofNat s).toNat = s := UInt8.toNat_ofNat_of_lt (Nat.lt_succ_of_le hsle)
      have hcommand : ∀ ty, (if download then
          parseDownload slave (UInt16.ofNat i) (UInt8.ofNat s) ty (o.args.getD 2 [])
        else .upload slave (UInt16.ofNat i) (UInt8.ofNat s) ty).numbers = some n →
          n = ⟨slave.toNat, none, some i, some s⟩ := by
        intro ty hn
        rw [← hitoNat, ← hstoNat]
        cases download with
        | true => exact parseDownload_numbers hn
        | false => exact (Option.some.inj hn).symm
      refine ⟨i, s, hindex, hsub, ?_⟩
      cases ht : o.ty.map findType with
      | none => exact hcommand none (by rwa [ht] at h)
      | some found =>
        cases found with
        | none =>
          rw [ht] at h
          exact absurd h nofun
        | some ty => exact hcommand (some ty) (by rwa [ht] at h)

theorem parseSdo_numbers {toks : List Text} {download : Bool} {n : Numbers}
    (h : (parseSdo toks download).numbers = some n) : ∃ w p i s, spoken toks = some w ∧ w.position = some p ∧
      unsigned (w.args.getD 0 []) = some i ∧ unsigned (w.args.getD 1 []) = some s ∧
      n = Numbers.cut ⟨p, none, some i, some s⟩ := by
  obtain ⟨o, w, hw, hh, hn⟩ := parseOpts_cases h
  cases hs : o.position with
  | none =>
    rw [hs] at hn
    exact absurd hn nofun
  | some slave =>
    obtain ⟨p, hp, hcut⟩ := position_toNat hh hs
    rw [hs] at hn
    dsimp only at hn
    by_cases hlen : o.args.length ≠ if download then 3 else 2
    · rw [if_pos hlen] at hn
      cases download <;> exact absurd hn nofun
    · rw [if_neg hlen] at hn
      obtain ⟨i, s, hi, hsub, rfl⟩ := parseObject_numbers hn
      rw [hh.args] at hi hsub
      exact ⟨w, p, i, s, hw, hp, hi, hsub, by rw [Numbers.cut, ← hcut]; rfl⟩

theorem parseMonitor_numbers (toks : List Text) : (parseMonitor toks).numbers = none := by
  rw [parseMonitor]
  cases toks.head? with
  | none => rfl
  | some t =>
    dsimp only
    split_ifs <;> rfl

theorem parsePd_numbers (toks : List Text) : (parsePd toks).numbers = none := by
  match toks with
  | [] => rfl
  | [_] => rfl
  | [_, value] =>
    rw [parsePd.eq_def]
    dsimp only
    cases parseInt value <;> rfl
  | _ :: _ :: _ :: _ => rfl

theorem numbers_cases {p : Prop} [Decidable p] {a b : Command} {n : Numbers}
    (h : (if p then a else b).numbers = some n) : p ∧ a.numbers = some n ∨ ¬ p ∧ b.numbers = some n := by
  by_cases hp : p
  · exact Or.inl ⟨hp, by rwa [if_pos hp] at h⟩
  · exact Or.inr ⟨hp, by rwa [if_neg hp] at h⟩

theorem numbers_else {p : Prop} [Decidable p] {a b : Command} {n : Numbers} (ha : a.numbers = none)
    (h : (if p then a else b).numbers = some n) : b.numbers = some n := by
  obtain ⟨-, h⟩ | ⟨-, h⟩ := numbers_cases h
  · exact absurd (ha.symm.trans h) nofun
  · exact h

theorem numbers_states {w : Spoken} {p : ℕ} (hp : w.position = some p) {word : Text}
    (h : word = "states".toList ∨ word = "state".toList) : w.numbers word = some ⟨p, none, none, none⟩ := by
  have hne : word ≠ "start".toList := by
    rcases h with rfl | rfl <;> decide
  rw [Spoken.numbers, if_neg hne, if_pos h, hp]
  rfl

theorem numbers_object {w : Spoken} {p i s : ℕ} (hp : w.position = some p) (hi : unsigned (w.args.getD 0 []) = some i)
    (hs : unsigned (w.args.getD 1 []) = some s) {word : Text}
    (h : (word = "upload".toList ∨ word = "up".toList) ∨ word = "download".toList ∨ word = "down".toList) :
    w.numbers word = some ⟨p, none, some i, some s⟩ := by
  have hne : word ≠ "start".toList ∧ ¬ (word = "states".toList ∨ word = "state".toList) := by
    rcases h with (rfl | rfl) | rfl | rfl <;> decide
  rw [Spoken.numbers, if_neg hne.1, if_neg hne.2, if_pos h, hp, hi, hs]
  rfl

theorem parse_numbers {line : Text} {n : Numbers} (h : (parse line).numbers = some n) :
    ∃ t, typedNumbers line = some t ∧ n = t.cut ∧ ∀ r ∈ n.rate, 50 ≤ r ∧ r ≤ 8000 := by
  rw [typedNumbers]
  rw [parse] at h
  cases hwords : splitWhitespace (trim line) with
  | nil =>
    rw [hwords] at h
    exact absurd h nofun
  | cons word toks =>
    rw [hwords] at h
    dsimp only at h ⊢
    have h := numbers_else rfl (numbers_else rfl (numbers_else rfl (numbers_else rfl (numbers_else rfl h))))
    obtain ⟨hword, h⟩ | ⟨-, h⟩ := numbers_cases h
    · obtain ⟨w, p, hw, hp, rfl⟩ := parseStates_numbers h
      exact ⟨_, by rw [hw]; exact numbers_states hp hword, rfl, nofun⟩
    obtain ⟨hword, h⟩ | ⟨-, h⟩ := numbers_cases h
    · obtain ⟨w, p, i, s, hw, hp, hi, hs, rfl⟩ := parseSdo_numbers h
      exact ⟨_, by rw [hw]; exact numbers_object hp hi hs (Or.inl hword), rfl, nofun⟩
    obtain ⟨hword, h⟩ | ⟨-, h⟩ := numbers_cases h
    · obtain ⟨w, p, i, s, hw, hp, hi, hs, rfl⟩ := parseSdo_numbers h
      exact ⟨_, by rw [hw]; exact numbers_object hp hi hs (Or.inr hword), rfl, nofun⟩
    obtain ⟨hword, h⟩ | ⟨-, h⟩ := numbers_cases h
    · obtain ⟨w, hw, rfl, hrate⟩ := parseStart_numbers h
      exact ⟨_, by rw [hw]; exact if_pos hword, rfl, hrate⟩
    have h := numbers_else rfl (numbers_else rfl (numbers_else (parsePd_numbers toks) (numbers_else rfl
      (numbers_else (parseMonitor_numbers toks) (numbers_else rfl (numbers_else rfl h))))))
    exact absurd (numbers_else rfl h) nofun

def Command.Answers (cmd : Command) : Prop := cmd.numbers = none → ∃ msg, cmd = .error msg

theorem answers_error (msg : String) : (err msg).Answers := fun _ => ⟨msg, rfl⟩

theorem answers_numbers {cmd : Command} {n : Numbers} (h : cmd.numbers = some n) : cmd.Answers :=
  fun hn => absurd (h.symm.trans hn) nofun

theorem parseOpts_answers {toks : List Text} {f : Opts → Command} (hf : ∀ o, (f o).Answers) :
    (match parseOpts toks with
      | .error e => e
      | .ok o => f o).Answers := by
  cases ho : parseOpts toks with
  | error e =>
    obtain ⟨msg, rfl⟩ := optsFrom_error ho
    exact answers_error msg
  | ok o => exact hf o

theorem parseStart_answers (toks : List Text) : (parseStart toks).Answers := by
  refine parseOpts_answers fun o => ?_
  cases o.rate with
  | none => exact answers_numbers rfl
  | some hz =>
    dsimp only
    split_ifs
    · exact answers_numbers rfl
    · exact answers_error _

theorem parseStates_answers (toks : List Text) : (parseStates toks).Answers := by
  refine parseOpts_answers fun o => ?_
  match o.position, o.args with
  | none, _ => exact answers_error _
  | some _, [] => exact answers_error _
  | some _, _ :: _ :: _ => exact answers_error _
  | some slave, [name] =>
    dsimp only
    cases alStateFromName name with
    | none => exact answers_error _
    | some target => exact answers_numbers rfl

theorem parseDownload_answers (slave index : UInt16) (subindex : UInt8) (ty : Option SdoType) (value : Text) :
    (parseDownload slave index subindex ty value).Answers := by
  rw [parseDownload.eq_def]
  cases ty with
  | none => exact answers_error _
  | some ty =>
    dsimp only
    cases encodeValue ty value with
    | none => exact answers_error _
    | some data => exact answers_numbers rfl

theorem parseObject_answers (o : Opts) (slave : UInt16) (download : Bool) : (parseObject o slave download).Answers := by
  rw [parseObject]
  cases parseField 0xFFFF (o.args.getD 0 []) with
  | none => exact answers_error _
  | some i =>
    dsimp only
    cases parseField 0xFF (o.args.getD 1 []) with
    | none => exact answers_error _
    | some s =>
      have hcommand : ∀ ty, (if download then
          parseDownload slave (UInt16.ofNat i) (UInt8.ofNat s) ty (o.args.getD 2 [])
        else .upload slave (UInt16.ofNat i) (UInt8.ofNat s) ty).Answers := by
        intro ty
        cases download with
        | true => exact parseDownload_answers _ _ _ _ _
        | false => exact answers_numbers rfl
      match o.ty.map findType with
      | none => exact hcommand none
      | some none => exact answers_error _
      | some (some ty) => exact hcommand (some ty)

theorem parseSdo_answers (toks : List Text) (download : Bool) : (parseSdo toks download).Answers := by
  refine parseOpts_answers fun o => ?_
  cases o.position with
  | none => exact answers_error _
  | some slave =>
    dsimp only
    by_cases hlen : o.args.length ≠ if download then 3 else 2
    · rw [if_pos hlen]
      cases download <;> exact answers_error _
    · rw [if_neg hlen]
      exact parseObject_answers o slave download

theorem answers_cases {p : Prop} [Decidable p] {a b : Command} (ha : p → a.Answers) (hb : ¬ p → b.Answers) :
    (if p then a else b).Answers := by
  by_cases hp : p
  · rw [if_pos hp]
    exact ha hp
  · rw [if_neg hp]
    exact hb hp

theorem numbers_word {w : Spoken} {word : Text} (h : w.numbers word ≠ none) : word = "start".toList ∨
    (word = "states".toList ∨ word = "state".toList) ∨ (word = "upload".toList ∨ word = "up".toList) ∨
      word = "download".toList ∨ word = "down".toList := by
  rw [Spoken.numbers] at h
  by_cases hstart : word = "start".toList
  · exact Or.inl hstart
  rw [if_neg hstart] at h
  by_cases hstates : word = "states".toList ∨ word = "state".toList
  · exact Or.inr (Or.inl hstates)
  rw [if_neg hstates] at h
  by_cases hobject : (word = "upload".toList ∨ word = "up".toList) ∨ word = "download".toList ∨ word = "down".toList
  · exact Or.inr (Or.inr hobject)
  · exact absurd (if_neg hobject) h

theorem parse_answers {line : Text} (h : typedNumbers line ≠ none) : (parse line).Answers := by
  rw [typedNumbers] at h
  rw [parse]
  cases hwords : splitWhitespace (trim line) with
  | nil =>
    rw [hwords] at h
    exact absurd rfl h
  | cons word toks =>
    rw [hwords] at h
    dsimp only at h ⊢
    obtain ⟨t, ht⟩ := Option.ne_none_iff_exists'.mp h
    obtain ⟨w, -, hw⟩ := Option.bind_eq_some_iff.mp ht
    have hword := numbers_word (show w.numbers word ≠ none by rw [hw]; exact nofun)
    have hnot : ¬ (word = "help".toList ∨ word = "?".toList) ∧ word ≠ "slaves".toList ∧
        ¬ (word = "status".toList ∨ word = "info".toList) ∧ word ≠ "rescan".toList := by
      rcases hword with rfl | (rfl | rfl) | (rfl | rfl) | rfl | rfl <;> decide
    refine answers_cases (fun _ => answers_error _) fun _ => ?_
    rw [if_neg hnot.1, if_neg hnot.2.1, if_neg hnot.2.2.1, if_neg hnot.2.2.2]
    refine answers_cases (fun _ => parseStates_answers toks) fun hstates => ?_
    refine answers_cases (fun _ => parseSdo_answers toks false) fun hup => ?_
    refine answers_cases (fun _ => parseSdo_answers toks true) fun hdown => ?_
    refine answers_cases (fun _ => parseStart_answers toks) fun hstart => ?_
    exact absurd hword (not_or.mpr ⟨hstart, not_or.mpr ⟨hstates, not_or.mpr ⟨hup, hdown⟩⟩⟩)

/-- A command has the numbers that were typed, and a rate in range, exactly when the position fits 16 bits and the rate
32 bits. What is no command with numbers is an error. -/
theorem numbers_typed_iff (line : Text) :
    (∀ n, (parse line).numbers = some n → ∃ t, typedNumbers line = some t ∧
      ((n = t ∧ ∀ r ∈ t.rate, 50 ≤ r ∧ r ≤ 8000) ↔ t.slave < 2 ^ 16 ∧ ∀ r ∈ t.rate, r < 2 ^ 32)) ∧
      (typedNumbers line ≠ none → (parse line).numbers = none → ∃ msg, parse line = .error msg) := by
  refine ⟨fun n hn => ?_, parse_answers⟩
  obtain ⟨t, ht, rfl, hrate⟩ := parse_numbers hn
  refine ⟨t, ht, ?_, ?_⟩
  · rintro ⟨hcut, hrange⟩
    refine ⟨?_, fun r hr => (hrange r hr).2.trans_lt (by decide)⟩
    have hslave : t.slave % 2 ^ 16 = t.slave := congrArg Numbers.slave hcut
    rw [← hslave]
    exact Nat.mod_lt _ (by decide)
  · rintro ⟨hslave, hfits⟩
    have hkept : t.rate.map (· % 2 ^ 32) = t.rate := by
      cases hr : t.rate with
      | none => rfl
      | some r => exact congrArg some (Nat.mod_eq_of_lt (hfits r hr))
    refine ⟨?_, fun r hr => hrate r ?_⟩
    · rw [Numbers.cut, Nat.mod_eq_of_lt hslave, hkept]
    · rw [Numbers.cut, hkept]
      exact hr

theorem numbers_reduced : ∃ line n t, (parse line).numbers = some n ∧ typedNumbers line = some t ∧ n.slave ≠ t.slave ∧
    n.rate ≠ t.rate :=
  ⟨"start -p65537 -r4294968296".toList, ⟨1, some 1000, none, none⟩, ⟨65537, some 4294968296, none, none⟩,
    by decide +kernel, by decide +kernel, by decide, by decide⟩

end EcMaster.Cli

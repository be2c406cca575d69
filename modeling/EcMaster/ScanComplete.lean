import EcMaster.SlaveRing

namespace EcMaster

open Library.Dialogue Library.Dialogue.Script Library.Segment Library.LittleEndian

structure RingSlave.Like (s s₀ : RingSlave) : Prop where
  station : s.station = s₀.station
  al : s.al = s₀.al
  dlInfo : s.dlInfo = s₀.dlInfo
  eeprom : s.eeprom = s₀.eeprom
  delay : s.delay = s₀.delay

theorem RingSlave.Like.refl (s : RingSlave) : s.Like s := ⟨rfl, rfl, rfl, rfl, rfl⟩

theorem RingSlave.Like.trans {a b c : RingSlave} (h : a.Like b) (h' : b.Like c) : a.Like c :=
  ⟨h.station.trans h'.station, h.al.trans h'.al, h.dlInfo.trans h'.dlInfo, h.eeprom.trans h'.eeprom,
    h.delay.trans h'.delay⟩

section Passing

variable {command : Command} {ado : UInt16}

theorem passRing_append (pre rest : List RingSlave) (d : Passing) :
    passRing command ado (pre ++ rest) d =
      ((passRing command ado pre d).1 ++ (passRing command ado rest (passRing command ado pre d).2).1,
        (passRing command ado rest (passRing command ado pre d).2).2) := by
  induction pre generalizing d with
  | nil => rfl
  | cons s pre ih => simp only [List.cons_append, passRing, ih]

theorem passRing_absent {d : Passing} (hc : command = .fprd ∨ command = .fpwr) {l : List RingSlave}
    (h : ∀ x ∈ l, x.station ≠ d.adp) : passRing command ado l d = (l, d) := by
  induction l with
  | nil => rfl
  | cons s l ih =>
    obtain ⟨hs, hl⟩ := List.forall_mem_cons.mp h
    have hp : s.pass command ado d = (s, d) := by
      rcases hc with rfl | rfl
      · simp [RingSlave.pass, hs.symm]
      · simp [RingSlave.pass, hs.symm]
    simp only [passRing, hp, ih hl]

theorem passRing_at {d : Passing} (hc : command = .fprd ∨ command = .fpwr) {pre post : List RingSlave} (s : RingSlave)
    (hpre : ∀ x ∈ pre, x.station ≠ d.adp) (hpost : ∀ x ∈ post, x.station ≠ d.adp) :
    passRing command ado (pre ++ s :: post) d =
      (pre ++ (s.pass command ado d).1 :: post, (s.pass command ado d).2) := by
  have hd : (s.pass command ado d).2.adp = d.adp := by
    rcases hc with rfl | rfl <;>
    · rw [RingSlave.pass]
      split <;> rfl
  have hlast : passRing command ado post (s.pass command ado d).2 = (post, (s.pass command ado d).2) :=
    passRing_absent hc (by rw [hd]; exact hpost)
  rw [passRing_append, passRing_absent hc hpre]
  simp only [passRing, hlast]

theorem passRing_brd (l : List RingSlave) (d : Passing) :
    (passRing .brd regAlStatus l d).1 = l ∧ (passRing .brd regAlStatus l d).2.wkc = d.wkc + UInt16.ofNat l.length := by
  induction l generalizing d with
  | nil => simp [passRing]
  | cons s l ih =>
    obtain ⟨hl, hw⟩ := ih (s.pass .brd regAlStatus d).2
    simp only [passRing, hl, hw]
    constructor
    · simp [RingSlave.pass, RingSlave.read]
    · simp only [RingSlave.pass, List.length_cons, UInt16.ofNat_add, UInt16.add_assoc]
      congr 1
      exact UInt16.add_comm _ _

theorem passRing_bwr (l : List RingSlave) (d : Passing) :
    (passRing .bwr ado l d).1 = l.map fun s => s.write ado d.data := by
  induction l generalizing d with
  | nil => rfl
  | cons s l ih => simp only [passRing, ih, RingSlave.pass, List.map_cons]

theorem passRing_beyond {l : List RingSlave} {d : Passing} (h : ∀ k < l.length, d.adp + UInt16.ofNat k ≠ 0) :
    passRing .apwr ado l d = (l, { d with adp := d.adp + UInt16.ofNat l.length }) := by
  induction l generalizing d with
  | nil => simp [passRing]
  | cons s l ih =>
    have h₀ : d.adp ≠ 0 := by simpa using h 0 (by simp)
    have hp : s.pass .apwr ado d = (s, { d with adp := d.adp + 1 }) := by simp [RingSlave.pass, h₀]
    simp only [passRing, hp]
    rw [ih]
    · simp [UInt16.add_assoc, UInt16.ofNat_add, UInt16.add_comm 1]
    · intro k hk
      have := h (k + 1) (by simpa using hk)
      rwa [UInt16.ofNat_add, UInt16.add_comm (UInt16.ofNat k), ← UInt16.add_assoc] at this

end Passing

theorem u16Le_command (word : UInt16) : u16Le ((Sii.command word).drop 2) = word := by
  have hw := word.toNat_lt
  have hlow : (word &&& 0xFF).toUInt8.toNat = word.toNat % 256 := by
    rw [UInt16.toNat_toUInt8, UInt16.toNat_and]
    change (word.toNat &&& (2 ^ 8 - 1)) % 2 ^ 8 = _
    rw [Nat.and_two_pow_sub_one_eq_mod, Nat.mod_mod]
  have hhigh : (word >>> (8 : UInt16)).toUInt8.toNat = word.toNat / 256 % 256 := by
    rw [UInt16.toNat_toUInt8, UInt16.toNat_shiftRight]
    change (word.toNat >>> 8) % 2 ^ 8 = _
    rw [Nat.shiftRight_eq_div_pow]
  apply UInt16.toNat_inj.mp
  simp only [Sii.command, u16Le, leNat, List.drop_succ_cons, List.drop_zero, UInt16.toNat_ofNat', hlow, hhigh]
  omega

theorem secures_exchange {α : Type} {a : Access} {hear : Reply → Procedure α} {post : α → List RingSlave → Prop}
    {ring ring' : List RingSlave} {d : Passing} (hp : passRing a.command a.ado ring ⟨a.adp, a.payload, 0⟩ = (ring', d))
    (h : ∀ reply : Reply, reply.workingCounter = d.wkc → reply.data = d.data → (hear reply).Secures ringAnswers post ring') :
    (exchange [a] (replied hear)).Secures ringAnswers post ring := by
  intro o w' hw
  rcases o with e | rx
  · cases hw
  · simp only [ringAnswers, hp] at hw
    simp only [replied]
    cases hr : parse rx with
    | none =>
      rw [hr] at hw
      cases hw
    | some reply =>
      rw [hr] at hw
      dsimp only at hw ⊢
      split at hw
      next hc =>
        obtain rfl := Option.some.inj hw
        exact h reply hc.1 hc.2
      next => cases hw

section Slave

variable {pre post : List RingSlave} {s : RingSlave} {station : UInt16}

structure Sole (station : UInt16) (pre : List RingSlave) (s : RingSlave) (post : List RingSlave) : Prop where
  own : s.station = station
  before : ∀ x ∈ pre, x.station ≠ station
  behind : ∀ x ∈ post, x.station ≠ station

theorem Sole.like (h : Sole station pre s post) {s' : RingSlave} (hs : s'.Like s) : Sole station pre s' post :=
  ⟨hs.station.trans h.own, h.before, h.behind⟩

theorem Sole.read (h : Sole station pre s post) (ado : UInt16) (n : ℕ) :
    passRing .fprd ado (pre ++ s :: post) ⟨station, zeros n, 0⟩ =
      (pre ++ (s.read ado n).2 :: post, ⟨station, (s.read ado n).1, 1⟩) := by
  rw [passRing_at (Or.inl rfl) s h.before h.behind]
  simp [RingSlave.pass, h.own, zeros]

theorem Sole.write (h : Sole station pre s post) (ado : UInt16) (data : List UInt8) :
    passRing .fpwr ado (pre ++ s :: post) ⟨station, data, 0⟩ =
      (pre ++ s.write ado data :: post, ⟨station, data, 1⟩) := by
  rw [passRing_at (Or.inr rfl) s h.before h.behind]
  simp [RingSlave.pass, h.own]

def Leaves (pre : List RingSlave) (s : RingSlave) (post ring : List RingSlave) : Prop :=
  ∃ s' : RingSlave, ring = pre ++ s' :: post ∧ s'.Like s

theorem read_sii_busy (hb : s.busy ≠ 0) :
    s.read regSiiControl 10 = (([0, siiStatusBusy] ++ zeros 8), { s with busy := s.busy - 1 }) := by
  simp [RingSlave.read, hb, regSiiControl, regAlStatus, regDlInfo, zeros]

theorem read_sii_ready (hb : s.busy = 0) :
    s.read regSiiControl 10 = (([0, 0] ++ leBytes 4 s.word.toNat ++ leBytes 4 (s.eeprom s.word).toNat), s) := by
  simp [RingSlave.read, hb, regSiiControl, regAlStatus, regDlInfo, List.take_append]

theorem heardSii_busy {again : Procedure UInt32} {reply : Reply} (hw : reply.workingCounter = 1)
    (hd : reply.data = [0, siiStatusBusy] ++ zeros 8) : heardSii again reply = again := by
  rw [heardSii, hw, hd]
  rfl

theorem heardSii_ready {again : Procedure UInt32} {reply : Reply} (hw : reply.workingCounter = 1) {word : ℕ} {value : UInt32}
    (hd : reply.data = [0, 0] ++ leBytes 4 word ++ leBytes 4 value.toNat) :
    heardSii again reply = .done value := by
  have hs : slice reply.data 6 4 = leBytes 4 value.toNat := by
    rw [hd, slice, List.drop_left' (by simp), List.take_of_length_le (by simp)]
  rw [heardSii, hs, u32Le_leBytes, hw, hd]
  simp

theorem secures_pollSii (h : Sole station pre s post) {n : ℕ} (hb : s.busy ≤ n) :
    (pollSii station n).Secures ringAnswers
      (fun value ring => value = s.eeprom s.word ∧ Leaves pre s post ring) (pre ++ s :: post) := by
  induction n generalizing s with
  | zero =>
    have hread := h.read regSiiControl 10
    rw [read_sii_ready (by omega)] at hread
    refine secures_exchange hread fun reply hw hd => ?_
    rw [heardSii_ready hw hd]
    exact ⟨rfl, s, rfl, .refl s⟩
  | succ n ih =>
    have hread := h.read regSiiControl 10
    by_cases hz : s.busy = 0
    · rw [read_sii_ready hz] at hread
      refine secures_exchange hread fun reply hw hd => ?_
      rw [heardSii_ready hw hd]
      exact ⟨rfl, s, rfl, .refl s⟩
    · rw [read_sii_busy hz] at hread
      refine secures_exchange hread fun reply hw hd => ?_
      rw [heardSii_busy hw hd]
      have hlike : ({ s with busy := s.busy - 1 } : RingSlave).Like s := ⟨rfl, rfl, rfl, rfl, rfl⟩
      have hle : s.busy - 1 ≤ n := by omega
      refine (ih (h.like hlike) hle).mono ?_
      rintro value ring ⟨rfl, s', rfl, hs'⟩
      exact ⟨rfl, s', rfl, hs'.trans hlike⟩

theorem secures_readSii (h : Sole station pre s post) (word : UInt16) (hd : s.delay word < siiMaxPolls) :
    (readSii station word).Secures ringAnswers
      (fun value ring => value = s.eeprom word ∧ Leaves pre s post ring) (pre ++ s :: post) := by
  refine secures_exchange (h.write regSiiControl (Sii.command word)) fun reply hw _ => ?_
  have hwrite : s.write regSiiControl (Sii.command word) = { s with word := word, busy := s.delay word } := by
    rw [RingSlave.write, if_neg (by decide), if_pos rfl, u16Le_command]
  have hlike : ({ s with word := word, busy := s.delay word } : RingSlave).Like s := ⟨rfl, rfl, rfl, rfl, rfl⟩
  have hle : s.delay word ≤ siiMaxPolls - 1 := by omega
  rw [hw, if_neg (by simp), hwrite]
  refine (secures_pollSii (h.like hlike) hle).mono ?_
  rintro value ring ⟨rfl, s', rfl, hs'⟩
  exact ⟨rfl, s', rfl, hs'.trans hlike⟩

end Slave

def RingSlave.info (s : RingSlave) (ringPos : UInt16) : SlaveInfo where
  ringPos := ringPos
  stationAddr := ringPos + 1
  alState := s.al &&& alStateMask
  baseType := s.dlInfo 0
  baseFmmuCount := s.dlInfo 4
  baseSyncCount := s.dlInfo 5
  vendorId := s.eeprom 0x0008
  productCode := s.eeprom 0x000A
  revision := s.eeprom 0x000C
  rxMboxOffset := (s.eeprom 0x0018).toUInt16
  rxMboxSize := (s.eeprom 0x0018 >>> 16).toUInt16
  txMboxOffset := (s.eeprom 0x001A).toUInt16
  txMboxSize := (s.eeprom 0x001A >>> 16).toUInt16
  mboxProtocols := (s.eeprom 0x001C).toUInt16
  supportsCoe := (s.eeprom 0x001C).toUInt16 &&& mboxProtoCoe ≠ 0

/-- The EEPROM has each word that the scan asks for within the polls it is given. -/
def RingSlave.Prompt (s : RingSlave) : Prop := ∀ field, s.delay (siiWord field) < siiMaxPolls

section Slave

variable {pre post : List RingSlave} {s : RingSlave} {c : Cur} {next : Procedure (List SlaveInfo)}
  {goal : List SlaveInfo → List RingSlave → Prop}

theorem secures_readField {field : SiiField} {after : Cur → UInt32 → Procedure (List SlaveInfo)}
    (h : Sole c.station pre s post) (hp : s.Prompt)
    (hn : ∀ s' : RingSlave, s'.Like s → (after c (s.eeprom (siiWord field))).Secures ringAnswers goal (pre ++ s' :: post)) :
    (readField field after c).Secures ringAnswers goal (pre ++ s :: post) := by
  refine ((secures_readSii h (siiWord field) (hp field)).mono ?_).bind
  rintro value ring ⟨rfl, s', rfl, hs'⟩
  exact hn s' hs'

theorem secures_words (h : Sole c.station pre s post) (hp : s.Prompt)
    (hn : ∀ s' : RingSlave, s'.Like s → (next.map (({ c with
      vendor := s.eeprom 0x0008
      product := s.eeprom 0x000A
      revision := s.eeprom 0x000C
      rxMbox := s.eeprom 0x0018
      txMbox := s.eeprom 0x001A } : Cur).info (s.eeprom 0x001C).toUInt16 :: ·)).Secures ringAnswers goal
        (pre ++ s' :: post)) :
    (readField .vendor (afterVendor next) c).Secures ringAnswers goal (pre ++ s :: post) := by
  have hprompt : ∀ {s' : RingSlave}, s'.Like s → s'.Prompt := fun hs field => by
    rw [hs.delay]
    exact hp field
  refine secures_readField h hp fun s₁ h₁ => ?_
  refine secures_readField (h.like h₁) (hprompt h₁) fun s₂ h₂ => ?_
  have h₂ := h₂.trans h₁
  refine secures_readField (h.like h₂) (hprompt h₂) fun s₃ h₃ => ?_
  have h₃ := h₃.trans h₂
  refine secures_readField (h.like h₃) (hprompt h₃) fun s₄ h₄ => ?_
  have h₄ := h₄.trans h₃
  refine secures_readField (h.like h₄) (hprompt h₄) fun s₅ h₅ => ?_
  have h₅ := h₅.trans h₄
  refine secures_readField (h.like h₅) (hprompt h₅) fun s₆ h₆ => ?_
  have h₆ := h₆.trans h₅
  rw [h₁.eeprom, h₂.eeprom, h₃.eeprom, h₄.eeprom, h₅.eeprom]
  exact hn s₆ h₆

end Slave

theorem autoinc_ne {i k : ℕ} (hi : i < 65536) (hk : k < i) : autoincAdp (UInt16.ofNat i) + UInt16.ofNat k ≠ 0 := by
  intro h
  have hn := congrArg UInt16.toNat h
  simp only [autoincAdp, UInt16.toNat_add, UInt16.toNat_sub, UInt16.toNat_ofNat'] at hn
  change ((2 ^ 16 - i % 2 ^ 16 + 0) % 2 ^ 16 + k % 2 ^ 16) % 2 ^ 16 = 0 at hn
  omega

theorem autoinc_zero (i : ℕ) : autoincAdp (UInt16.ofNat i) + UInt16.ofNat i = 0 := by
  rw [autoincAdp, UInt16.sub_add_cancel]

theorem passRing_address {pre post : List RingSlave} {s : RingSlave} (hl : (pre ++ s :: post).length < 65536)
    (ado : UInt16) (data : List UInt8) :
    ∃ adp, passRing .apwr ado (pre ++ s :: post) ⟨autoincAdp (UInt16.ofNat pre.length), data, 0⟩ =
      (pre ++ s.write ado data :: post, ⟨adp, data, 1⟩) := by
  have hlen : pre.length + 1 + post.length < 65536 := by
    rw [List.length_append, List.length_cons] at hl
    omega
  have hpre : passRing .apwr ado pre ⟨autoincAdp (UInt16.ofNat pre.length), data, 0⟩ = (pre, ⟨0, data, 0⟩) := by
    rw [passRing_beyond fun k hk => autoinc_ne (by omega) hk, autoinc_zero]
  have hpost : passRing .apwr ado post ⟨1, data, 1⟩ = (post, ⟨1 + UInt16.ofNat post.length, data, 1⟩) := by
    apply passRing_beyond
    intro k hk h
    have hn := congrArg UInt16.toNat h
    rw [UInt16.toNat_add, UInt16.toNat_ofNat'] at hn
    change (1 + k % 2 ^ 16) % 2 ^ 16 = 0 at hn
    omega
  refine ⟨1 + UInt16.ofNat post.length, ?_⟩
  rw [passRing_append, hpre]
  simp only [passRing, RingSlave.pass, if_pos, UInt16.zero_add, hpost]

section Slave

variable {pre post : List RingSlave} {s : RingSlave} {next : Procedure (List SlaveInfo)}
  {goal : List SlaveInfo → List RingSlave → Prop}

theorem secures_scanSlave {i : ℕ} (hi : pre.length = i) (hl : (pre ++ s :: post).length < 65536) (hp : s.Prompt)
    (hbefore : ∀ x ∈ pre, x.station ≠ UInt16.ofNat i + 1) (hbehind : ∀ x ∈ post, x.station ≠ UInt16.ofNat i + 1)
    (hn : ∀ s' : RingSlave, s'.Like { s with station := UInt16.ofNat i + 1 } →
      (next.map (s.info (UInt16.ofNat i) :: ·)).Secures ringAnswers goal (pre ++ s' :: post)) :
    (scanSlave next (Cur.start (UInt16.ofNat i))).Secures ringAnswers goal (pre ++ s :: post) := by
  obtain ⟨adp, hpass⟩ := passRing_address hl regStationAddr (leBytes 2 (UInt16.ofNat i + 1).toNat)
  rw [hi] at hpass
  have hwrite : s.write regStationAddr (leBytes 2 (UInt16.ofNat i + 1).toNat) =
      { s with station := UInt16.ofNat i + 1 } := by
    rw [RingSlave.write, if_pos rfl, u16Le_leBytes]
  rw [hwrite] at hpass
  refine secures_exchange hpass fun reply hw _ => ?_
  rw [confirmed, if_neg (not_not_intro hw)]
  have hsole : Sole (UInt16.ofNat i + 1) pre { s with station := UInt16.ofNat i + 1 } post := ⟨rfl, hbefore, hbehind⟩
  refine secures_exchange (hsole.read regAlStatus 2) fun reply hw hd => ?_
  rw [confirmed, if_neg (not_not_intro hw)]
  have hal : (reply.data.take 16).headD 0 = s.al := by
    rw [hd]
    simp [RingSlave.read]
  refine secures_exchange (hsole.read regDlInfo 12) fun reply hw hd => ?_
  rw [confirmed, if_neg (not_not_intro hw), hal]
  have hdata : reply.data = (List.range 12).map s.dlInfo := by
    rw [hd]
    simp [RingSlave.read, regDlInfo, regAlStatus]
  rw [hdata]
  refine secures_words (s := { s with station := UInt16.ofNat i + 1 }) hsole hp fun s' hs' => ?_
  exact hn s' hs'

end Slave

def infosFrom : ℕ → List RingSlave → List SlaveInfo
  | _, [] => []
  | i, s :: rest => s.info (UInt16.ofNat i) :: infosFrom (i + 1) rest

structure Addressed (scanned rest : List RingSlave) : Prop where
  scanned : ∀ i s, scanned[i]? = some s → s.station = UInt16.ofNat i + 1
  rest : ∀ s ∈ rest, s.station = 0

theorem Addressed.concat {scanned rest : List RingSlave} {s : RingSlave} (h : Addressed scanned (s :: rest))
    {s' : RingSlave} (hs : s'.station = UInt16.ofNat scanned.length + 1) : Addressed (scanned ++ [s']) rest := by
  refine ⟨fun i x hx => ?_, fun x hx => h.rest x (List.mem_cons_of_mem _ hx)⟩
  rcases Nat.lt_or_ge i scanned.length with hi | hi
  · rw [List.getElem?_append_left hi] at hx
    exact h.scanned i x hx
  · rw [List.getElem?_append_right hi] at hx
    obtain ⟨hz, rfl⟩ : i - scanned.length = 0 ∧ x = s' := by
      rcases hk : i - scanned.length with _ | k
      · rw [hk] at hx
        exact ⟨rfl, (Option.some.inj hx).symm⟩
      · rw [hk] at hx
        simp at hx
    rw [hs, show i = scanned.length by omega]

/-- A scan has found these slaves, and left the ring with their addresses. -/
def Finds (infos : List SlaveInfo) (n : ℕ) (found : List SlaveInfo) (ring : List RingSlave) : Prop :=
  found = infos ∧ ∃ scanned rest, ring = scanned ++ rest ∧ scanned.length = n ∧ Addressed scanned rest

theorem place_ne {i j : ℕ} (hi : i < 65536) (hj : j + 1 < 65536) (h : i ≠ j + 1) : UInt16.ofNat i ≠ UInt16.ofNat j + 1 := by
  intro he
  have hn := congrArg UInt16.toNat (he.trans (UInt16.ofNat_add j 1).symm)
  rw [UInt16.toNat_ofNat_of_lt' hi, UInt16.toNat_ofNat_of_lt' hj] at hn
  exact h hn

theorem Addressed.before {pre rest : List RingSlave} (h : Addressed pre rest) (hl : pre.length + 1 < 65536) :
    ∀ x ∈ pre, x.station ≠ UInt16.ofNat pre.length + 1 := by
  intro x hx
  obtain ⟨j, hj, rfl⟩ := List.getElem_of_mem hx
  rw [h.scanned j _ (List.getElem?_eq_getElem hj), ← UInt16.ofNat_one, ← UInt16.ofNat_add]
  exact place_ne (by omega) hl (by omega)

theorem Addressed.behind {pre rest : List RingSlave} (h : Addressed pre rest) (hl : pre.length + 1 < 65536) :
    ∀ x ∈ rest, x.station ≠ UInt16.ofNat pre.length + 1 := by
  intro x hx
  rw [h.rest x hx]
  exact place_ne (i := 0) (by omega) hl (by omega)

theorem finds_last {pre post : List RingSlave} {s s' : RingSlave} (ha : Addressed pre (s :: post))
    (hs : s'.Like { s with station := UInt16.ofNat pre.length + 1 }) :
    Finds [s.info (UInt16.ofNat pre.length)] (pre.length + 1) [s.info (UInt16.ofNat pre.length)] (pre ++ s' :: post) :=
  ⟨rfl, pre ++ [s'], post, by simp, by simp, ha.concat hs.station⟩

theorem secures_scanFrom {pre post : List RingSlave} {s : RingSlave} {n : ℕ} (hl : (pre ++ s :: post).length < 65536)
    (hn : pre.length + n < ecMaxSlaves) (hp : ∀ x ∈ s :: post, x.Prompt) (ha : Addressed pre (s :: post)) :
    (scanFrom (UInt16.ofNat (pre ++ s :: post).length) n (UInt16.ofNat pre.length)).Secures ringAnswers
      (Finds (infosFrom pre.length ((s :: post).take (n + 1))) (pre.length + ((s :: post).take (n + 1)).length))
      (pre ++ s :: post) := by
  induction n generalizing pre post s with
  | zero =>
    have hplace : pre.length + 1 < 65536 := by
      rw [List.length_append, List.length_cons] at hl
      omega
    have hbefore := ha.before hplace
    have hbehind : ∀ x ∈ post, x.station ≠ UInt16.ofNat pre.length + 1 :=
      fun x hx => ha.behind hplace x (List.mem_cons_of_mem _ hx)
    refine secures_scanSlave rfl hl (hp s List.mem_cons_self) hbefore hbehind fun s' hs' => ?_
    exact finds_last ha hs'
  | succ n ih =>
    have hplace : pre.length + 1 < 65536 := by
      rw [List.length_append, List.length_cons] at hl
      omega
    have hbefore := ha.before hplace
    have hbehind : ∀ x ∈ post, x.station ≠ UInt16.ofNat pre.length + 1 :=
      fun x hx => ha.behind hplace x (List.mem_cons_of_mem _ hx)
    refine secures_scanSlave rfl hl (hp s List.mem_cons_self) hbefore hbehind fun s' hs' => ?_
    rcases post with _ | ⟨t, post⟩
    · have hend : ¬ UInt16.ofNat pre.length + 1 < UInt16.ofNat (pre ++ [s]).length := by
        rw [List.length_append, List.length_singleton, UInt16.ofNat_add]
        exact UInt16.lt_irrefl _
      rw [if_neg hend]
      exact finds_last ha hs'
    · have hlast : (pre ++ [s']).length = pre.length + 1 := by simp
      have hcount : (pre ++ s :: t :: post).length = ((pre ++ [s']) ++ t :: post).length := by simp
      have hgo : UInt16.ofNat pre.length + 1 < UInt16.ofNat (pre ++ s :: t :: post).length := by
        rw [UInt16.lt_iff_toNat_lt, ← UInt16.ofNat_one, ← UInt16.ofNat_add, UInt16.toNat_ofNat_of_lt' (by omega),
          UInt16.toNat_ofNat_of_lt' hl, List.length_append, List.length_cons, List.length_cons]
        omega
      have ha' : Addressed (pre ++ [s']) (t :: post) := ha.concat hs'.station
      have hl' : ((pre ++ [s']) ++ t :: post).length < 65536 := by
        rw [← hcount]
        exact hl
      have hrest := ih hl' (by omega) (fun x hx => hp x (List.mem_cons_of_mem _ hx)) ha'
      rw [if_pos hgo, hcount, List.append_cons pre s' (t :: post)]
      rw [hlast, UInt16.ofNat_add] at hrest
      refine Secures.map (hrest.mono ?_)
      rintro found ring ⟨rfl, scanned, rest, rfl, hlen, ha⟩
      refine ⟨rfl, scanned, rest, rfl, ?_, ha⟩
      simp only [List.take_succ_cons, List.length_cons] at hlen ⊢
      omega

def cleared (ring : List RingSlave) : List RingSlave := ring.map fun s => { s with station := 0 }

theorem infosFrom_cleared (i : ℕ) (ring : List RingSlave) : infosFrom i (cleared ring) = infosFrom i ring := by
  induction ring generalizing i with
  | nil => rfl
  | cons s ring ih => exact congrArg (s.info (UInt16.ofNat i) :: ·) (ih (i + 1))

theorem secures_scanBus {ring : List RingSlave} (hl : ring.length < 65536) (hp : ∀ s ∈ ring, s.Prompt) :
    scanBus.Secures ringAnswers
      (Finds (infosFrom 0 (ring.take ecMaxSlaves)) (ring.take ecMaxSlaves).length) ring := by
  obtain ⟨hbrd, hwkc⟩ := passRing_brd ring ⟨0x0000, zeros 2, 0⟩
  rw [UInt16.zero_add] at hwkc
  refine secures_exchange (Prod.ext hbrd rfl) fun reply hw _ => ?_
  rw [hwkc] at hw
  rw [hw]
  rcases ring with _ | ⟨s, post⟩
  · exact ⟨rfl, [], [], rfl, rfl, ⟨fun i s h => by simp at h, fun s h => by simp at h⟩⟩
  · have hne : UInt16.ofNat (s :: post).length ≠ 0 := by
      intro h
      have hn := congrArg UInt16.toNat h
      rw [UInt16.toNat_ofNat_of_lt' hl] at hn
      simp at hn
    have hbwr : (passRing .bwr regStationAddr (s :: post) ⟨0x0000, zeros 2, 0⟩).1 = cleared (s :: post) := by
      rw [passRing_bwr]
      rfl
    rw [if_neg hne]
    refine secures_exchange (Prod.ext hbwr rfl) fun _ _ _ => ?_
    have hlen : (s :: post).length = (cleared (s :: post)).length := by simp [cleared]
    have hprompt : ∀ x ∈ cleared (s :: post), x.Prompt := by
      intro x hx
      obtain ⟨y, hy, rfl⟩ := List.mem_map.mp hx
      exact hp y hy
    have haddr : Addressed [] (cleared (s :: post)) := by
      refine ⟨fun i s h => by simp at h, fun x hx => ?_⟩
      obtain ⟨y, -, rfl⟩ := List.mem_map.mp hx
      rfl
    rw [hlen] at hl
    have hscan := @secures_scanFrom [] (cleared post) { s with station := 0 } (ecMaxSlaves - 1) hl (by decide) hprompt haddr
    rw [hlen]
    refine hscan.mono ?_
    rintro found ring ⟨rfl, hr⟩
    have htake : (cleared (s :: post)).take ecMaxSlaves = cleared ((s :: post).take ecMaxSlaves) := by
      rw [cleared, cleared, List.map_take]
    have htake' : ((cleared (s :: post)).take ecMaxSlaves).length = ((s :: post).take ecMaxSlaves).length := by
      rw [htake, cleared, List.length_map]
    refine ⟨?_, ?_⟩
    · exact (congrArg (infosFrom 0) htake).trans (infosFrom_cleared 0 _)
    · obtain ⟨scanned, rest, rfl, hn, ha⟩ := hr
      exact ⟨scanned, rest, rfl, hn.trans ((Nat.zero_add _).trans htake'), ha⟩

theorem length_infosFrom (i : ℕ) (ring : List RingSlave) : (infosFrom i ring).length = ring.length := by
  induction ring generalizing i with
  | nil => rfl
  | cons s ring ih => simp [infosFrom, ih]

theorem pushed_all {found : List SlaveInfo} (h : found.length ≤ ecMaxSlaves) :
    found.foldl (pushWithin ecMaxSlaves) [] = found := by
  rw [foldl_pushWithin _ _ _ (Nat.zero_le _), List.nil_append, List.length_nil, Nat.sub_zero, List.take_of_length_le h]

theorem ScanFsm.secures_rescan {ring : List RingSlave} (hl : ring.length < 65536) (hp : ∀ s ∈ ring, s.Prompt) :
    (rescan.script (new, [])).Secures ringAnswers
      (Finds (infosFrom 0 (ring.take ecMaxSlaves)) (ring.take ecMaxSlaves).length) ring := by
  refine Secures.map ((secures_scanBus hl hp).mono ?_)
  rintro found ring' ⟨rfl, hr⟩
  refine ⟨pushed_all ?_, hr⟩
  rw [length_infosFrom]
  exact List.length_take_le _ _

/-- However long each exchange takes, a rescan on a ring that answers comes to its end with the records of its
slaves, of the first 32 if there are more, and each of these has the address that its record says. -/
theorem ScanFsm.rescan_finds {ring : List RingSlave} (hl : ring.length < 65536) (hp : ∀ s ∈ ring, s.Prompt)
    (es : ℕ → Device × UInt8)
    (hans : ∀ n, (replay ringAnswers ring (calls rescan.step (new, []) [] (polls es n)).2).isSome) :
    ∃ n s log ring', calls rescan.step (new, []) [] (polls es n) = (.ok (true, s), log) ∧
      replay ringAnswers ring log = some ring' ∧
      Finds (infosFrom 0 (ring.take ecMaxSlaves)) (ring.take ecMaxSlaves).length s.2 ring' := by
  have hgood : rescan.good (new, []) := rfl
  have hsec := secures_rescan hl hp
  obtain ⟨n, hn⟩ := rescan.calls_end hgood es
  obtain ⟨ring', hring⟩ := Option.isSome_iff_exists.mp (hans n)
  obtain ⟨lines, hlog, hreach⟩ := rescan.calls_reaches hgood [] (polls es n)
  rw [List.nil_append] at hlog
  rw [hlog] at hring
  rcases hc : calls rescan.step (new, []) [] (polls es n) with ⟨_ | ⟨_ | _, s⟩, log⟩
  · rw [hc] at hreach
    exact absurd hreach (hsec.not_fail hring)
  · exact absurd (congrArg Prod.fst hc) (hn s)
  · rw [hc] at hreach hlog
    obtain rfl : log = lines := hlog
    exact ⟨n, s, log, ring', hc, hring, hsec.returns hreach hring⟩

def promptSlave : RingSlave where
  station := 0x1234
  al := 1
  dlInfo i := UInt8.ofNat (3 * i)
  eeprom word := if word = 0x0018 then 0x00101000 else if word = 0x001A then 0x00101080 else if word = 0x001C then 4 else 1
  delay _ := 0
  word := 0
  busy := 0

def secondSlave : RingSlave where
  station := 0x2345
  al := 2
  dlInfo i := UInt8.ofNat (5 * i)
  eeprom word := if word = 0x0018 then 0x00101800 else if word = 0x001A then 0x00101880 else if word = 0x001C then 4 else 2
  delay _ := 0
  word := 0
  busy := 0

def promptPolls (ring : List RingSlave) : List (Device × UInt8) :=
  let count := UInt16.ofNat ring.length
  let words s := siiFields.flatMap fun field =>
    [Sii.command (siiWord field), [0, 0] ++ leBytes 4 (siiWord field).toNat ++ leBytes 4 (s.eeprom (siiWord field)).toNat]
  let scanned s i := [leBytes 2 (i + 1), [s.al, 0], (List.range 12).map s.dlInfo] ++ words s
  let replies := [([(ring.map RingSlave.al).foldl (· ||| ·) 0, 0], count), (zeros 2, count)] ++
    ring.zipIdx.flatMap fun p => (scanned p.1 p.2).map fun payload => (payload, 1)
  replies.zipIdx.flatMap fun p =>
    List.replicate 2 (Device.receiving [answerFrame .fprd (UInt8.ofNat p.2) p.1.1 p.1.2 []], UInt8.ofNat p.2)

def promptTimes (ring : List RingSlave) (n : ℕ) : Device × UInt8 := (promptPolls ring).getD n (Device.receiving [], 0)

theorem ScanFsm.rescan_finds_two :
    ∃ n s log ring', calls rescan.step (new, []) [] (polls (promptTimes [promptSlave, secondSlave]) n) = (.ok (true, s), log) ∧
      replay ringAnswers [promptSlave, secondSlave] log = some ring' ∧
      Finds (infosFrom 0 ([promptSlave, secondSlave].take ecMaxSlaves)) 2 s.2 ring' := by
  have hprompt : ∀ s ∈ [promptSlave, secondSlave], s.Prompt := by
    intro s hs field
    rcases List.mem_pair.mp hs with rfl | rfl <;> cases field <;> decide
  exact rescan_finds (by decide) hprompt (promptTimes _) fun n =>
    calls_always (k := 65) (P := fun r => (replay ringAnswers [promptSlave, secondSlave] r.2).isSome) (by decide +kernel)
      (by decide +kernel) n

end EcMaster

import EcMaster.EscRules
import EcMaster.MultiRead

namespace EcMaster

open Library.Dialogue Library.Dialogue.Script Library.Segment Library.LittleEndian Library.Memory

def storedAll (objects : Objects) (values : List SdoInit) : Objects :=
  values.foldl (fun objects v => stored objects v.index v.subindex v.data) objects

def SdoInit.Short (v : SdoInit) : Prop := 1 ≤ v.data.length ∧ v.data.length ≤ 4

instance (v : SdoInit) : Decidable v.Short := by unfold SdoInit.Short; infer_instance

section Values

variable {w : Stations} {s : Esc} {t : EscMake} {al : UInt8} {mem : ℕ → UInt8} {objects : Objects}
  {post : Unit → Stations → Prop} {next : Procedure Unit}

end Values

def SmCfg.page (sm : SmCfg) : ℕ × List UInt8 :=
  ((smRegister sm.index).toNat, processPage sm.physStart sm.size sm.control)

def FmmuCfg.page (f : FmmuCfg) (i : ℕ) : ℕ × List UInt8 := ((fmmuRegister i).toNat, fmmuPage f)

theorem smRegister_place {index : UInt8} (h : index < 16) : (smRegister index).toNat = 0x0800 + 8 * index.toNat := by
  have hi : index.toNat < 16 := UInt8.lt_iff_toNat_lt.mp h
  rw [smRegister, UInt16.toNat_add, UInt16.toNat_mul, UInt8.toNat_toUInt16]
  change (0x0800 + index.toNat * 8 % 2 ^ 16) % 2 ^ 16 = _
  omega

theorem fmmuRegister_place {i : ℕ} (h : i < 16) : (fmmuRegister i).toNat = 0x0600 + 16 * i := by
  rw [fmmuRegister, UInt16.toNat_add, UInt16.toNat_mul, UInt16.toNat_ofNat_of_lt' (Nat.lt_trans h (by decide))]
  change (0x0600 + i * 16 % 2 ^ 16) % 2 ^ 16 = _
  omega

theorem plain_of_place {ado : UInt16}
    (h : 0x0400 ≤ ado.toNat ∧ ado.toNat < 0x0900 ∨ 0x0911 ≤ ado.toNat ∧ ado.toNat < 0x1000) : Plain ado := by
  have hne {other : UInt16} (ho : other.toNat < 0x0400 ∨ 0x0900 ≤ other.toNat ∧ other.toNat < 0x0911) : ado ≠ other := by
    rintro rfl
    omega
  refine ⟨hne (Or.inl (by decide)), ?_, ?_⟩
  · have h₁ : ado ≠ regDcRecvTime := hne (Or.inr (by decide))
    have h₂ : ado ≠ regDcSysTime := hne (Or.inr (by decide))
    simp [clocked, h₁, h₂]
  · rw [UInt16.lt_iff_toNat_lt]
    change ado.toNat < 0x1000
    omega

section Pages

variable {w : Stations} {station : UInt16} {s : Esc} {t : EscMake} {al : UInt8} {mem : ℕ → UInt8} {objects : Objects}
  {post : Unit → Stations → Prop} {next : Procedure Unit}

end Pages

section Clock

variable {w : Stations} {station : UInt16} {s : Esc} {t : EscMake} {al : UInt8} {mem : ℕ → UInt8} {objects : Objects}
  {cfg : DcCfg}

theorem read_register {ado : UInt16} (hs : ado ≠ regAlStatus) (hm : ado ≠ regSm1Status) (hb : ado < 0x1000) (n : ℕ) :
    s.read ado n = (some (peek s.mem ado.toNat n), s) := by
  rw [Esc.read, if_neg hs, if_neg fun hc => hm hc.2, if_neg fun hc => behind_ne s.make.tx_behind hb hc.2.symm]

def SyncWrites (cfg : DcCfg) (ws : List (ℕ × List UInt8)) : Prop :=
  ∃ aligned start, ws = aligned ++
      [(regDcSync0Cycle.toNat, leBytes 4 cfg.sync0CycleNs.toNat ++ leBytes 4 cfg.sync1CycleNs.toNat),
        (regDcCycleStart.toNat, leBytes 8 start),
        (regDcActivation.toNat, leBytes 2 cfg.assignActivate.toNat)] ∧
    (aligned = [] ∨ ∃ delay offset, aligned =
      [(regDcSysTimeDelay.toNat, leBytes 4 delay), (regDcSysTimeOffset.toNat, leBytes 8 offset)])

variable {dcRef : DcRef} {ref : Esc}

def DcWrites (dc : Option DcCfg) (ws : List (ℕ × List UInt8)) : Prop :=
  match dc with
  | none => ws = []
  | some cfg => SyncWrites cfg ws

end Clock

theorem length_processPage (physStart size : UInt16) (control : UInt8) : (processPage physStart size control).length = 8 := by
  simp [processPage, syncPage]

theorem length_fmmuPage (f : FmmuCfg) : (fmmuPage f).length = 16 := by simp [fmmuPage]

def dcPages : Option DcCfg → List (ℕ × List UInt8)
  | none => [(regDcActivation.toNat, zeros 2)]
  | some cfg =>
    [(regDcSync0Cycle.toNat, leBytes 4 cfg.sync0CycleNs.toNat ++ leBytes 4 cfg.sync1CycleNs.toNat),
      (regDcActivation.toNat, leBytes 2 cfg.assignActivate.toNat)]

namespace SlaveSetup

def smPages (setup : SlaveSetup) (mbox : Mailbox) : List (ℕ × List UInt8) :=
  (regSm0.toNat, mailboxOutPage mbox.rxOffset mbox.rxSize) ::
    (regSm1.toNat, mailboxInPage mbox.txOffset mbox.txSize) :: setup.sms.map SmCfg.page

def wdPages : List (ℕ × List UInt8) :=
  [(regWdDivider.toNat, leBytes 2 wdDividerValue.toNat), (regWdPdata.toNat, leBytes 2 wdPdataValue.toNat)]

def fmmuPages (setup : SlaveSetup) : List (ℕ × List UInt8) := setup.fmmus.zipIdx.map fun p => p.1.page p.2

def pages (setup : SlaveSetup) (mbox : Mailbox) : List (ℕ × List UInt8) :=
  setup.smPages mbox ++ wdPages ++ setup.fmmuPages ++ dcPages setup.dc

def values (setup : SlaveSetup) : List SdoInit :=
  setup.sdoInit ++ (setup.sms.flatMap fun sm => sm.pdos.flatMap PdoCfg.mapping) ++ setup.sms.flatMap SmCfg.assignment

structure Held (setup : SlaveSetup) (mbox : Mailbox) (mem : ℕ → UInt8) : Prop where
  pages : ∀ p ∈ setup.pages mbox, peek mem p.1 p.2.length = p.2
  unused : ∀ i, setup.fmmus.length ≤ i → i < 3 → peek mem (fmmuRegister i).toNat 16 = zeros 16

structure Proper (setup : SlaveSetup) : Prop where
  fits : setup.Fits
  short : ∀ v ∈ setup.sdoInit, v.Short
  process : ∀ sm ∈ setup.sms, 2 ≤ sm.index ∧ sm.index < 16
  distinct : setup.sms.Pairwise fun a b => a.index ≠ b.index
  fmmus : setup.fmmus.length ≤ 16

end SlaveSetup

section Held

variable {setup : SlaveSetup} {mbox : Mailbox} {mem : ℕ → UInt8} {ws : List (ℕ × List UInt8)}

theorem SmCfg.page_place {sm : SmCfg} (h : sm.index < 16) : sm.page.1 = 0x0800 + 8 * sm.index.toNat ∧ sm.page.2.length = 8 :=
  ⟨smRegister_place h, length_processPage _ _ _⟩

theorem SlaveSetup.Proper.smPages (h : setup.Proper) (mbox : Mailbox) :
    Within 0x0800 0x0880 (setup.smPages mbox) ∧ (setup.smPages mbox).Pairwise Apart := by
  have hplace : ∀ sm ∈ setup.sms, 2 ≤ sm.index.toNat ∧ sm.index.toNat < 16 ∧
      sm.page.1 = 0x0800 + 8 * sm.index.toNat ∧ sm.page.2.length = 8 := fun sm hsm =>
    ⟨UInt8.le_iff_toNat_le.mp (h.process sm hsm).1, UInt8.lt_iff_toNat_lt.mp (h.process sm hsm).2,
      SmCfg.page_place (h.process sm hsm).2⟩
  have h₀ : regSm0.toNat = 0x0800 ∧ (mailboxOutPage mbox.rxOffset mbox.rxSize).length = 8 :=
    ⟨rfl, by simp [mailboxOutPage, syncPage]⟩
  have h₁ : regSm1.toNat = 0x0808 ∧ (mailboxInPage mbox.txOffset mbox.txSize).length = 8 :=
    ⟨rfl, by simp [mailboxInPage, syncPage]⟩
  constructor
  · simp only [Within, SlaveSetup.smPages, List.forall_mem_cons, List.forall_mem_map]
    refine ⟨by omega, by omega, fun sm hsm => ?_⟩
    have := hplace sm hsm
    omega
  · simp only [SlaveSetup.smPages, List.pairwise_cons, List.forall_mem_cons, List.forall_mem_map, Apart]
    refine ⟨⟨by omega, fun sm hsm => ?_⟩, fun sm hsm => ?_, List.pairwise_map.mpr ?_⟩
    · have := hplace sm hsm
      omega
    · have := hplace sm hsm
      omega
    · refine h.distinct.imp_of_mem fun {a b} ha hb hne => ?_
      have hne' : a.index.toNat ≠ b.index.toNat := fun he => hne (UInt8.toNat_inj.mp he)
      have := hplace a ha
      have := hplace b hb
      rw [Apart]
      omega

theorem SlaveSetup.wdPages_within : Within 0x0400 0x0422 wdPages ∧ wdPages.Pairwise Apart := by
  constructor
  · simp [Within, wdPages, regWdDivider, regWdPdata]
  · simp [wdPages, Apart, regWdDivider, regWdPdata]

theorem SlaveSetup.Proper.fmmuPages (h : setup.Proper) :
    Within 0x0600 (0x0600 + 16 * setup.fmmus.length) setup.fmmuPages ∧ setup.fmmuPages.Pairwise Apart := by
  have hplace : ∀ p ∈ setup.fmmus.zipIdx, p.2 < setup.fmmus.length ∧ (p.1.page p.2).1 = 0x0600 + 16 * p.2 ∧
      (p.1.page p.2).2.length = 16 := fun p hp => by
    have hi : p.2 < setup.fmmus.length := by simpa using List.snd_lt_of_mem_zipIdx hp
    exact ⟨hi, fmmuRegister_place (Nat.lt_of_lt_of_le hi h.fmmus), length_fmmuPage p.1⟩
  constructor
  · simp only [Within, SlaveSetup.fmmuPages, List.forall_mem_map]
    intro p hp
    have := hplace p hp
    omega
  · refine List.pairwise_map.mpr (List.Pairwise.imp_of_mem (R := fun p q => p.2 ≠ q.2) ?_ ?_)
    · intro p q hp hq hne
      have := hplace p hp
      have := hplace q hq
      rw [Apart]
      omega
    · have hn : (setup.fmmus.zipIdx.map Prod.snd).Nodup := by
        rw [List.zipIdx_map_snd]
        exact List.nodup_range'
      exact List.pairwise_map.mp hn

theorem SyncWrites.within {cfg : DcCfg} (h : SyncWrites cfg ws) : Within 0x0920 0x09A8 ws ∧ ws.Pairwise Apart := by
  obtain ⟨aligned, start, rfl, rfl | ⟨delay, offset, rfl⟩⟩ := h
  · simp [Within, Apart, regDcSync0Cycle, regDcCycleStart, regDcActivation]
  · simp [Within, Apart, regDcSync0Cycle, regDcCycleStart, regDcActivation, regDcSysTimeDelay, regDcSysTimeOffset]

theorem DcWrites.within {dc : Option DcCfg} (h : DcWrites dc ws) : Within 0x0920 0x09A8 ws ∧ ws.Pairwise Apart := by
  cases dc with
  | none =>
    obtain rfl : ws = [] := h
    simp [Within]
  | some cfg => exact SyncWrites.within h

def SlaveSetup.writes (setup : SlaveSetup) (mbox : Mailbox) (dcWrites : List (ℕ × List UInt8)) : List (ℕ × List UInt8) :=
  setup.smPages mbox ++ wdPages ++ setup.fmmuPages ++ dcWrites

def clearedRegisters (mem : ℕ → UInt8) : ℕ → UInt8 :=
  poke (poke mem regFmmuBase.toNat (zeros 48)) regDcActivation.toNat (zeros 2)

theorem SlaveSetup.Proper.writes_apart (h : setup.Proper) (hdc : DcWrites setup.dc ws) :
    (setup.writes mbox ws).Pairwise Apart := by
  have hsm := h.smPages mbox
  have hf := h.fmmuPages
  have hlen := h.fmmus
  have hcross : ∀ v ∈ setup.smPages mbox ++ wdPages, ∀ w ∈ setup.fmmuPages, Apart v w :=
    List.forall_mem_append.mpr
      ⟨hsm.1.apart hf.1 (Or.inr (by omega)), wdPages_within.1.apart hf.1 (Or.inl (by decide))⟩
  have hdcross : ∀ v ∈ setup.smPages mbox ++ wdPages ++ setup.fmmuPages, ∀ w ∈ ws, Apart v w :=
    List.forall_mem_append.mpr ⟨List.forall_mem_append.mpr ⟨hsm.1.apart hdc.within.1 (Or.inl (by decide)),
      wdPages_within.1.apart hdc.within.1 (Or.inl (by decide))⟩, hf.1.apart hdc.within.1 (Or.inl (by omega))⟩
  have hfront : (setup.smPages mbox ++ wdPages).Pairwise Apart :=
    List.pairwise_append.mpr ⟨hsm.2, wdPages_within.2, hsm.1.apart wdPages_within.1 (Or.inr (by decide))⟩
  exact List.pairwise_append.mpr ⟨List.pairwise_append.mpr ⟨hfront, hf.2, hcross⟩, hdc.within.2, hdcross⟩

theorem SlaveSetup.Proper.held (h : setup.Proper) (hdc : DcWrites setup.dc ws) :
    setup.Held mbox (pokes (clearedRegisters mem) (setup.writes mbox ws)) := by
  have hback {p : ℕ × List UInt8} (hp : p ∈ setup.writes mbox ws) :
      peek (pokes (clearedRegisters mem) (setup.writes mbox ws)) p.1 p.2.length = p.2 :=
    peek_pokes (h.writes_apart hdc) hp
  have hsm := h.smPages mbox
  have hf := h.fmmuPages
  have hlen := h.fmmus
  constructor
  · refine List.forall_mem_append.mpr ⟨fun p hp => hback (List.mem_append_left _ hp), ?_⟩
    cases hd : setup.dc with
    | none =>
      rw [hd] at hdc
      obtain rfl : ws = [] := hdc
      intro p hp
      obtain rfl := List.mem_singleton.mp hp
      rw [peek_pokes_apart]
      · exact peek_poke _ _ _
      · rw [SlaveSetup.writes, List.append_nil]
        refine List.forall_mem_append.mpr ⟨List.forall_mem_append.mpr ⟨fun w hw => ?_, fun w hw => ?_⟩, fun w hw => ?_⟩
        · have := hsm.1 w hw
          exact Or.inr (by change _ ≤ 0x0980; omega)
        · have := wdPages_within.1 w hw
          exact Or.inr (by change _ ≤ 0x0980; omega)
        · have := hf.1 w hw
          exact Or.inr (by change _ ≤ 0x0980; omega)
    | some cfg =>
      rw [hd] at hdc
      obtain ⟨aligned, start, rfl, -⟩ := hdc
      intro p hp
      refine hback (List.mem_append_right _ (List.mem_append_right _ ?_))
      rcases List.mem_pair.mp hp with rfl | rfl
      · exact List.mem_cons_self
      · exact List.mem_cons_of_mem _ (List.mem_cons_of_mem _ List.mem_cons_self)
  · intro i hi hi3
    have hplace := fmmuRegister_place (i := i) (by omega)
    rw [hplace, peek_pokes_apart, clearedRegisters, peek_poke_apart]
    · have hin : 16 * i + 16 ≤ (zeros 48).length := by
        rw [zeros, List.length_replicate]
        omega
      refine (peek_poke_within hin).trans ?_
      rw [zeros, zeros, List.drop_replicate, List.take_replicate]
      congr 1
      omega
    · exact Or.inl (by change _ ≤ 0x0980; omega)
    · refine List.forall_mem_append.mpr ⟨List.forall_mem_append.mpr ⟨List.forall_mem_append.mpr
        ⟨fun w hw => ?_, fun w hw => ?_⟩, fun w hw => ?_⟩, fun w hw => ?_⟩
      · have := hsm.1 w hw
        omega
      · have := wdPages_within.1 w hw
        omega
      · have := hf.1 w hw
        omega
      · have := hdc.within.1 w hw
        omega

end Held

section StartUp

variable {w : Stations} {s : Esc} {t : EscMake} {al : UInt8} {mem : ℕ → UInt8} {objects : Objects} {setup : SlaveSetup}
  {dcRef : DcRef}

theorem plainState_preop : PlainState alStatePreop := by constructor <;> decide

theorem isSet_of_pokes (mbox : Mailbox) (mem : ℕ → UInt8) :
    mbox.isSet (poke (poke mem regSm0.toNat (mailboxOutPage mbox.rxOffset mbox.rxSize)) regSm1.toNat
      (mailboxInPage mbox.txOffset mbox.txSize)) = true := by
  have hout : (mailboxOutPage mbox.rxOffset mbox.rxSize).length = 8 := by simp [mailboxOutPage, syncPage]
  have hin : (mailboxInPage mbox.txOffset mbox.txSize).length = 8 := by simp [mailboxInPage, syncPage]
  have h₀ : peek (poke (poke mem regSm0.toNat (mailboxOutPage mbox.rxOffset mbox.rxSize)) regSm1.toNat
      (mailboxInPage mbox.txOffset mbox.txSize)) regSm0.toNat 8 = mailboxOutPage mbox.rxOffset mbox.rxSize := by
    rw [peek_poke_apart (Or.inl (by decide))]
    exact hout ▸ peek_poke _ _ _
  have h₁ : peek (poke (poke mem regSm0.toNat (mailboxOutPage mbox.rxOffset mbox.rxSize)) regSm1.toNat
      (mailboxInPage mbox.txOffset mbox.txSize)) regSm1.toNat 8 = mailboxInPage mbox.txOffset mbox.txSize :=
    hin ▸ peek_poke _ _ _
  rw [Mailbox.isSet, h₀, h₁, decide_eq_true rfl, decide_eq_true rfl, Bool.and_self]

end StartUp

end EcMaster

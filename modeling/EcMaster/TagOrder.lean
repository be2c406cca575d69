import EcMaster.Library.SerialNumber
import EcMaster.SelfHealing

namespace EcMaster

open Library.SerialNumber

/-- The tags that one frame carries, and the cycle index that the component knew when it built the frame. -/
structure Emission where
  lastCycleIndex : UInt32
  tags : List UInt32

/-- One servo cycle: the pins, and the frame that the transfer brings back. -/
abbrev Servo := Hal × Option (List UInt8)

namespace HostComponent

variable (L : Layout)

def next (h : HostComponent) (u : Servo) : HostComponent := (h.update L u.1 u.2).2.1

def emission (h : HostComponent) (u : Servo) : Emission :=
  ⟨h.lastCycleIndex, (frameSamples L (h.update L u.1 u.2).1).map Prod.fst⟩

def emissions (h : HostComponent) : List Servo → List Emission
  | [] => []
  | u :: us => h.emission L u :: emissions (h.next L u) us

def emittedTags (h : HostComponent) (us : List Servo) : List UInt32 := (h.emissions L us).flatMap Emission.tags

def moved (h : HostComponent) : List Servo → ℕ
  | [] => 0
  | u :: us => ((h.next L u).nextTag - h.nextTag).toNat + moved (h.next L u) us

def ahead (h : HostComponent) : ℤ := (h.nextTag - (h.lastCycleIndex + 1)).toInt32.toInt

/-- The unsigned comparison finds `next_tag` behind if and only if it is, and neither counter is half a turn away. -/
structure InStep (h : HostComponent) : Prop where
  agree : h.nextTag < h.lastCycleIndex + 1 ↔ h.ahead < 0
  low : -2 ^ 31 + 1 < h.ahead
  high : h.ahead + L.maxSamplesPerFrame ≤ 2 ^ 31

/-- A reported cycle index does not move backwards, and is within half a turn of `next_tag`. -/
def Plausible (h : HostComponent) (miso : List UInt8) : Prop :=
  cycleBefore (getLe miso 8 4) h.lastCycleIndex = false ∧ getLe miso 8 4 - h.nextTag ≠ 2 ^ 31

def PlausibleRun (h : HostComponent) : List Servo → Prop
  | [] => True
  | u :: us => (∀ miso, u.2 = some miso → intact L miso = true → (h.buildFrame L u.1).2.Plausible miso) ∧
      PlausibleRun (h.next L u) us

/-- Every frame of a run is built in step. -/
def StaysInStep (h : HostComponent) : List Servo → Prop
  | [] => True
  | u :: us => h.InStep L ∧ StaysInStep (h.next L u) us

/-- The tags of a run come in order, none of them twice, and none is too late for the firmware. -/
structure TagsOrdered (h : HostComponent) (us : List Servo) : Prop where
  increasing : (h.emittedTags L us).IsChain fun a b => cycleBefore a b = true
  once : (h.emittedTags L us).Nodup
  inTime : ∀ e ∈ h.emissions L us, ∀ t ∈ e.tags, t = e.lastCycleIndex + 1 ∨ cycleBefore (e.lastCycleIndex + 1) t = true

variable {L}

theorem emission_tags (hL : L.Streams) (h : HostComponent) (u : Servo) :
    (h.emission L u).tags = (List.range (h.want L)).map fun j => h.resync + UInt32.ofNat j := by
  have hs := (h.buildFrame_sends hL.sampleFits hL.fields hL.cap_pos hL.cap_lt u.1).tags
  rw [← hs, emission]
  obtain ⟨hal, miso⟩ := u
  cases miso <;> rfl

theorem next_nextTag (hL : L.Streams) (h : HostComponent) (u : Servo) :
    (h.next L u).nextTag = h.resync + UInt32.ofNat (h.want L) := by
  have hs := (h.buildFrame_sends hL.sampleFits hL.fields hL.cap_pos hL.cap_lt u.1).nextTag
  rw [← hs]
  obtain ⟨hal, miso⟩ := u
  cases miso with
  | none => rfl
  | some miso =>
    change ((h.buildFrame L hal).2.receive L hal miso).1.nextTag = _
    rw [receive]
    split_ifs <;> rfl

theorem want_pos (h : HostComponent) : 0 < h.want L := by
  simp only [want]
  split_ifs <;> omega

theorem InStep.resync {h : HostComponent} (hL : L.Streams) (hs : h.InStep L) :
    (h.resync - h.nextTag).toNat + 1 < 2 ^ 31 ∧
      (h.resync - (h.lastCycleIndex + 1)).toNat + h.want L ≤ 2 ^ 31 := by
  have hwant := h.want_le hL.cap_pos
  have hcap := hL.cap_lt
  have hlow := hs.low
  have hhigh := hs.high
  have hlt := (h.nextTag - (h.lastCycleIndex + 1)).toNat_lt
  have hz : (0 : UInt32).toNat = 0 := rfl
  have ha : h.ahead = _ := toInt_eq (h.nextTag - (h.lastCycleIndex + 1))
  rw [HostComponent.resync]
  split_ifs with hc
  · have hneg := hs.agree.mp hc
    have hback : (h.lastCycleIndex + 1 - h.nextTag).toNat + (h.nextTag - (h.lastCycleIndex + 1)).toNat = 2 ^ 32 := by
      have hn := h.nextTag.toNat_lt
      have hl := (h.lastCycleIndex + 1).toNat_lt
      have hlt' := UInt32.lt_iff_toNat_lt.mp hc
      rw [UInt32.toNat_sub, UInt32.toNat_sub]
      omega
    rw [sub_self, hz]
    split_ifs at ha <;> omega
  · have hpos : ¬ h.ahead < 0 := fun hn => hc (hs.agree.mpr hn)
    rw [sub_self, hz]
    split_ifs at ha <;> omega

theorem emitted_numbered (hL : L.Streams) (us : List Servo) (h : HostComponent) (hs : h.StaysInStep L us) (b : ℕ)
    (hb : UInt32.ofNat b = h.nextTag) :
    ∃ ns : List ℕ, h.emittedTags L us = ns.map UInt32.ofNat ∧ ns.IsChain (fun m n => m < n ∧ n < m + 2 ^ 31) ∧
      (∀ n ∈ ns.head?, b ≤ n ∧ n + 1 < b + 2 ^ 31) ∧ ∀ n ∈ ns, b ≤ n ∧ n < b + h.moved L us := by
  induction us generalizing h b with
  | nil => exact ⟨[], rfl, List.isChain_nil, by simp, by simp⟩
  | cons u us ih =>
    obtain ⟨hstep, hrest⟩ := hs
    obtain ⟨hgap, -⟩ := hstep.resync hL
    have hpos := h.want_pos (L := L)
    have hcap := hL.cap_lt
    have hwant := h.want_le hL.cap_pos
    set gap := (h.resync - h.nextTag).toNat with hg
    have hresync : UInt32.ofNat (b + gap) = h.resync := ofNat_toNat_sub hb h.resync
    have hnext : UInt32.ofNat (b + gap + h.want L) = (h.next L u).nextTag := by
      rw [UInt32.ofNat_add, hresync, next_nextTag hL]
    have hmove : ((h.next L u).nextTag - h.nextTag).toNat = gap + h.want L := by
      rw [← hnext, ← hb, ofNat_sub (by omega), UInt32.toNat_ofNat']
      omega
    obtain ⟨ns, htags, hchain, hhead, hrange⟩ := ih (h.next L u) hrest (b + gap + h.want L) hnext
    have hmoved : h.moved L (u :: us) = gap + h.want L + (h.next L u).moved L us := by rw [moved, hmove]
    refine ⟨List.range' (b + gap) (h.want L) ++ ns, ?_, ?_, ?_, ?_⟩
    · have hfirst : (h.emission L u).tags = (List.range' (b + gap) (h.want L)).map UInt32.ofNat := by
        rw [emission_tags hL, List.range'_eq_map_range, List.map_map]
        apply List.map_congr_left
        intro j _
        rw [Function.comp_apply, UInt32.ofNat_add, hresync]
      rw [List.map_append, ← hfirst, ← htags]
      rfl
    · rw [List.isChain_append]
      refine ⟨?_, hchain, ?_⟩
      · refine (List.isChain_range' (b + gap) (h.want L) 1).imp fun m n hn => ?_
        omega
      · intro m hm n hn
        obtain ⟨h₁, h₂⟩ := hhead n hn
        rw [List.getLast?_range', if_neg (by omega), Option.mem_some_iff] at hm
        omega
    · intro n hn
      have hn : n = b + gap := by
        obtain ⟨w, hw⟩ : ∃ w, h.want L = w + 1 := ⟨_, (Nat.sub_add_cancel hpos).symm⟩
        rw [hw, List.range'_succ] at hn
        simpa using hn.symm
      omega
    · intro n hn
      rw [hmoved]
      rcases List.mem_append.mp hn with hn | hn
      · have hm := List.mem_range'_1.mp hn
        omega
      · have hm := hrange n hn
        omega

theorem emissions_inTime (hL : L.Streams) (us : List Servo) (h : HostComponent) (hs : h.StaysInStep L us) :
    ∀ e ∈ h.emissions L us, ∀ t ∈ e.tags, t = e.lastCycleIndex + 1 ∨ cycleBefore (e.lastCycleIndex + 1) t = true := by
  induction us generalizing h with
  | nil => exact fun e he => absurd he List.not_mem_nil
  | cons u us ih =>
    obtain ⟨hstep, hrest⟩ := hs
    intro e he t ht
    rcases List.mem_cons.mp he with rfl | he
    · obtain ⟨-, hlate⟩ := hstep.resync hL
      rw [emission_tags hL] at ht
      obtain ⟨j, hj, rfl⟩ := List.mem_map.mp ht
      have hj := List.mem_range.mp hj
      have hd : h.resync + UInt32.ofNat j - (h.lastCycleIndex + 1) =
          UInt32.ofNat ((h.resync - (h.lastCycleIndex + 1)).toNat + j) := by
        rw [UInt32.ofNat_add, UInt32.ofNat_toNat]
        grind
      rw [cycleBefore_iff]
      change h.resync + UInt32.ofNat j = h.lastCycleIndex + 1 ∨ Before (h.lastCycleIndex + 1) (h.resync + UInt32.ofNat j)
      rw [Before, hd, UInt32.toNat_ofNat', ← sub_eq_zero, hd]
      rcases Nat.eq_zero_or_pos ((h.resync - (h.lastCycleIndex + 1)).toNat + j) with hz | hz
      · exact Or.inl (by rw [hz]; rfl)
      · exact Or.inr (by omega)
    · exact ih _ hrest e he t ht

/-- A run whose frames are all built in step, and that moves the next tag at most once around, has its tags in order. -/
theorem tagsOrdered_inStep (hL : L.Streams) (lead : ℤ) (us : List Servo) (hs : (load lead).StaysInStep L us)
    (hm : (load lead).moved L us ≤ 2 ^ 32) : (load lead).TagsOrdered L us := by
  obtain ⟨ns, htags, hchain, -, hrange⟩ := emitted_numbered hL us (load lead) hs 0 rfl
  refine ⟨?_, ?_, emissions_inTime hL us _ hs⟩
  · rw [htags, List.isChain_map]
    exact hchain.imp fun m n hn => cycleBefore_iff.mpr (before_ofNat hn.1 hn.2)
  · have hlt : ns.Pairwise (· < ·) := List.isChain_iff_pairwise.mp (hchain.imp fun m n hn => hn.1)
    rw [htags]
    apply List.Nodup.map_on _ (hlt.imp fun hn => hn.ne)
    intro m hm' n hn' heq
    have h₁ := hrange m hm'
    have h₂ := hrange n hn'
    exact ofNat_injOn h₁.1 (by omega) h₂.1 (by omega) heq

def replyAt (cycleIndex : UInt32) : List UInt8 :=
  stageTx (oneDrive 1) ((HostBridge.new (oneDrive 1)).buildReply [] ⟨true, 2, 3, 3, cycleIndex, 0, false⟩).reply

def uptoWrap : List Servo :=
  [(LockStep.idleHal, some (replyAt 0x7FFFFFFC)), (LockStep.idleHal, some (replyAt 0xFFFFFFF9)), (LockStep.idleHal, none),
    (LockStep.idleHal, some (replyAt 0xFFFFFFFD)), (LockStep.idleHal, some (replyAt 0xFFFFFFFE))]

theorem tagsOrdered_inStep_wrap : (load 1).TagsOrdered (oneDrive 1) uptoWrap ∧
    (load 1).emittedTags (oneDrive 1) uptoWrap = [1, 0x7FFFFFFD, 0xFFFFFFFA, 0xFFFFFFFB, 0xFFFFFFFE] := by
  refine ⟨tagsOrdered_inStep (LockStep.oneDrive_streams (by decide) (by decide)) 1 uptoWrap ?_ (by decide +kernel),
    by decide +kernel⟩
  exact ⟨⟨by decide +kernel, by decide +kernel, by decide +kernel⟩,
    ⟨by decide +kernel, by decide +kernel, by decide +kernel⟩, ⟨by decide +kernel, by decide +kernel, by decide +kernel⟩,
    ⟨by decide +kernel, by decide +kernel, by decide +kernel⟩, ⟨by decide +kernel, by decide +kernel, by decide +kernel⟩,
    trivial⟩

def beforeWrap : List Servo :=
  [(LockStep.idleHal, some (replyAt 0x7FFFFFFF)), (LockStep.idleHal, some (replyAt 0xFFFFFFFE)),
    (LockStep.idleHal, some (replyAt 0xFFFFFFFE)), (LockStep.idleHal, none)]

theorem tag_repeats : ¬ ∀ L : Layout, L.Streams → ∀ (lead : ℤ) (us : List Servo), (load lead).PlausibleRun L us →
    (load lead).moved L us ≤ 2 ^ 32 → (load lead).TagsOrdered L us := by
  intro h
  have hp : (load 1).PlausibleRun (oneDrive 1) beforeWrap := by
    refine ⟨?_, ?_, ?_, ?_, trivial⟩
    · rintro miso ⟨⟩ -
      exact ⟨by decide +kernel, by decide +kernel⟩
    · rintro miso ⟨⟩ -
      exact ⟨by decide +kernel, by decide +kernel⟩
    · rintro miso ⟨⟩ -
      exact ⟨by decide +kernel, by decide +kernel⟩
    · rintro miso ⟨⟩
  have ho := h (oneDrive 1) (LockStep.oneDrive_streams (by decide) (by decide)) 1 beforeWrap hp (by decide +kernel)
  have hn : ¬ ((load 1).emittedTags (oneDrive 1) beforeWrap).Nodup := by decide +kernel
  exact hn ho.once

end HostComponent

end EcMaster

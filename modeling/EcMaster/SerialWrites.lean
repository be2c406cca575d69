import EcMaster.Sequencer

namespace EcMaster

open Library.Run

variable {L : Layout}

namespace Firmware

def note (s : Firmware L) (a : Action) (rs : List Reply) : List Reply :=
  match a, s.cyclic with
  | .event (.tick dev _), some c => c.taken dev ++ rs
  | .event (.start _ _ _), none => []
  | _, _ => rs

variable (L) in
/-- Every tick of the run reads what the drives reported. -/
def Reported (as : List Action) : Prop :=
  ∀ s rs dev latency c, Takes (withHistory act note) (init L, []) as (s, rs) (.event (.tick dev latency)) →
    s.cyclic = some c → c.ReadsReported dev s.index latency s.host rs

/-- A `pd` command that writes no other value over the statusword of a drive. -/
def Harmless (s : Firmware L) : Action → Prop
  | .event _ => True
  | .pd pin value => ∀ c name v p, s.cyclic = some c → pin = some name → value = some v → L.bus.pin name = some p →
      ∀ d ∈ discovered L, statusword (writeValue c.domain.image p v) d = statusword c.domain.image d

variable (L) in
def AllHarmless (as : List Action) : Prop := ∀ s a, Takes act (init L) as s a → Harmless s a

theorem AllHarmless.of_concat {as : List Action} {a : Action} (h : AllHarmless L (as ++ [a])) :
    AllHarmless L as ∧ Harmless (run act (init L) as) a :=
  ⟨fun s b hb => h s b (hb.append [a]), h _ a (takes_last _ _ _)⟩

theorem harmless_output (hL : L.Sound) (s : Firmware L) {name : List Char} {p : PinCfg} (hp : L.bus.pin name = some p)
    (ho : p.dir = .output) (value : Option Int64) : Harmless s (.pd (some name) value) := by
  intro c _ v q _ hn _ hq d hd
  obtain rfl := Option.some.inj hn
  obtain rfl := Option.some.inj (hp.symm.trans hq)
  obtain ⟨-, -, hs, hi⟩ := mem_discovered hd
  apply statusword_congr (hL.input_offset hs hi)
  intro i hlt
  apply getElem?_writeValue_outside
  rintro ⟨-, hi'⟩
  have hw := hL.width_below (List.mem_of_find?_eq_some hp) ho
  omega

def Held (p : Firmware L × List Reply) : Prop := ∀ c, p.1.cyclic = some c → c.Holding p.2

theorem Held.next {s : Firmware L} {rs : List Reply} (h : Held (s, rs)) (hL : L.Sound) (hw : L.Windowed) {a : Action}
    (ha : Harmless s a) : Held (withHistory act note (s, rs) a) := by
  intro c' hc'
  cases a with
  | event e =>
    cases e with
    | frame mosi => exact h c' hc'
    | tick dev latency =>
      cases hc : s.cyclic with
      | none =>
        simp only [withHistory, act, step, hc] at hc'
        exact absurd hc' (by simp)
      | some c =>
        simp only [withHistory, act, step, note, hc, ofTicked] at hc' ⊢
        obtain rfl := Option.some.inj hc'
        exact (h c hc).tick hL hw dev s.index latency s.host
    | start slaves cycleNs index =>
      cases hc : s.cyclic with
      | none =>
        simp only [withHistory, act, step, note, hc] at hc' ⊢
        obtain rfl := Option.some.inj hc'
        exact Cyclic.new_holding hw slaves _ cycleNs
      | some c =>
        simp only [withHistory, act, step, note, hc] at hc' ⊢
        exact h c' (hc.trans hc')
    | stop index => exact absurd hc' (by simp [withHistory, act, step])
  | pd pin value =>
    rcases act_pd s pin value with hs | ⟨c, name, p, v, hc, hn, hv, hp, hs⟩
    · simp only [withHistory, note, hs] at hc' ⊢
      exact h c' hc'
    · simp only [withHistory, note, hs] at hc' ⊢
      obtain rfl := Option.some.inj hc'
      have hh := h c hc
      refine ⟨hh.wiring, hh.ranges, fun d hd => ?_⟩
      exact (ha c name v p hc hn hv hp d hd).trans (hh.words d hd)

theorem held_run (hL : L.Sound) (hw : L.Windowed) {as : List Action} (h : AllHarmless L as) :
    Held (run (withHistory act note) (init L, []) as) := by
  induction as using List.reverseRecOn with
  | nil => exact fun c hc => absurd hc (by simp [init])
  | append_singleton as a ih =>
    obtain ⟨has, ha⟩ := h.of_concat
    rw [run_concat]
    apply Held.next (ih has) hL hw
    have hs : (run (withHistory act note) (init L, []) as).1 = run act (init L) as := run_withHistory _ _ _ _
    change Harmless (run (withHistory act note) (init L, []) as).1 a
    rw [hs]
    exact ha

theorem act_write {s : Firmware L} {c : Cyclic L} (hc : s.cyclic = some c) {name : List Char} {p : PinCfg}
    (hp : L.bus.pin name = some p) (v : Int64) :
    act s (.pd (some name) (some v)) = { s with cyclic := some (c.writePin p v) } := by
  simp only [act, ecatPd, hp, hc]

theorem received_silent (c : Cyclic L) (latency : UInt32) :
    (c.received (Device.receiving []) latency).domain = c.domain ∧ c.taken (Device.receiving []) = [] := by
  have hnone : c.processed (Device.receiving []) = none := by
    rw [Cyclic.processed, Cyclic.matched]
    split_ifs <;> rfl
  rw [(c.received_holds _ latency).2, Cyclic.taken, hnone]
  exact ⟨rfl, rfl⟩

theorem harmful_read (hL : L.Sound) (hw : L.Windowed) {as : List Action} {a : Action} (h : AllHarmless L as)
    (ha : ¬ Harmless (run act (init L) as) a) : ¬ Reported L (as ++ [a, .event (.tick (Device.receiving []) 0)]) := by
  intro hr
  cases a with
  | event e => exact ha trivial
  | pd pin value =>
    apply ha
    rintro c name v p hc rfl rfl hp d hd
    obtain ⟨s, rs, hrun⟩ : ∃ s rs, run (withHistory act note) (init L, []) as = (s, rs) := ⟨_, _, rfl⟩
    have hs : run act (init L) as = s := by rw [← run_withHistory note (init L) [] as, hrun]
    rw [hs] at hc
    have hheld := held_run hL hw h
    rw [hrun] at hheld
    have hh : c.Holding rs := hheld c hc
    have htakes : Takes (withHistory act note) (init L, [])
        (as ++ [.pd (some name) (some v), .event (.tick (Device.receiving []) 0)])
        (⟨some (c.writePin p v), s.host, s.index⟩, rs) (.event (.tick (Device.receiving []) 0)) := by
      refine ⟨as ++ [.pd (some name) (some v)], [], by simp, ?_⟩
      rw [run_concat, hrun, withHistory, act_write hc hp]
      rfl
    have hread := (hr _ _ _ _ _ htakes rfl).anyFault
    have hwire : SameWiring (discovered L) (c.writePin p v).cia402.drives := hh.wiring
    obtain ⟨hdom, htaken⟩ := received_silent (c.writePin p v) 0
    obtain ⟨e, he, -, hsw⟩ := (hwire.trans ((c.writePin p v).sameWiring_tick (Device.receiving []) s.index 0 s.host)).symm.mem hd
    have hword := hread e he
    rw [htaken, List.nil_append, statusword_sw hsw, reportedWord_congr hsw,
      Cyclic.tick_word hL hwire _ _ _ _ hd, hdom] at hword
    exact hword.trans (hh.words d hd).symm

/-- In a run whose serial writes are harmless the sequencer reads what the drives reported. The first write that
is not shows in the next tick. -/
theorem statuswords_reported (hL : L.Sound) (hw : L.Windowed) :
    (∀ as, AllHarmless L as → Reported L as) ∧
      ∀ as a, AllHarmless L as → ¬ Harmless (run act (init L) as) a →
        ¬ Reported L (as ++ [a, .event (.tick (Device.receiving []) 0)]) := by
  refine ⟨?_, fun as a => harmful_read hL hw⟩
  intro as h s rs dev latency c ht hc
  obtain ⟨pre, post, rfl, hrun⟩ := ht
  have hpre : AllHarmless L pre := fun t b hb => h t b (hb.append _)
  have hheld := held_run hL hw hpre
  rw [← hrun] at hheld
  exact (hheld c hc).reads hL hw dev s.index latency s.host

theorem oneDrive_windowed : (oneDrive 1).Windowed := by
  have hapart : Separate (0, 3) (3, 2) := by
    rintro i ⟨-, h₁⟩ ⟨h₂, -⟩
    simp only at h₁ h₂
    omega
  exact ⟨List.pairwise_pair.mpr hapart, by decide, by decide +kernel⟩

def enabled : List Action :=
  [.event (.start [⟨0x1001, 0⟩] 1000000 0), .event (.tick (Device.receiving []) 0),
    .event (.tick (Device.receiving [answerFrame .lrw 0 [0, 0, 0, 0x23, 0] 3 []]) 0),
    .pd (some "x-controlword".toList) (some 0x0F), .event (.tick (Device.receiving []) 0)]

def writtenStatus : Action := .pd (some "x-statusword".toList) (some 0x27)

theorem harmful_writtenStatus {s : Firmware (oneDrive 1)} {image : List UInt8}
    (hs : s.cyclic.map (·.domain.image) = some image)
    (hne : ∃ p, (oneDrive 1).bus.pin "x-statusword".toList = some p ∧
      ∃ d ∈ discovered (oneDrive 1), statusword (writeValue image p 0x27) d ≠ statusword image d) :
    ¬ Harmless s writtenStatus := by
  intro hh
  obtain ⟨c, hc, rfl⟩ := Option.map_eq_some_iff.mp hs
  obtain ⟨p, hp, d, hd, hne⟩ := hne
  exact hne (hh c _ _ p hc rfl rfl hp d hd)

theorem statuswords_reported_enabled : Reported (oneDrive 1) enabled ∧
    (run act (init (oneDrive 1)) enabled).cyclic.map (·.domain.image) = some [0x0F, 0, 0, 0x23, 0] ∧
      ¬ Reported (oneDrive 1) (enabled ++ [writtenStatus, .event (.tick (Device.receiving []) 0)]) := by
  have hh : AllHarmless (oneDrive 1) enabled := by
    rintro s a ⟨pre, post, has, -⟩
    cases a with
    | event e => exact trivial
    | pd pin value =>
      have ha : Action.pd pin value ∈ enabled := by
        rw [has]
        simp
      obtain ⟨rfl, rfl⟩ : pin = some "x-controlword".toList ∧ value = some 0x0F := by simpa [enabled] using ha
      exact harmless_output (oneDrive_sound 1) s rfl rfl _
  have himage : (run act (init (oneDrive 1)) enabled).cyclic.map (·.domain.image) = some [0x0F, 0, 0, 0x23, 0] := by
    decide +kernel
  obtain ⟨hreported, hread⟩ := statuswords_reported (oneDrive_sound 1) oneDrive_windowed
  exact ⟨hreported _ hh, himage, hread _ _ hh (harmful_writtenStatus himage ⟨_, rfl, by decide +kernel⟩)⟩

def started : List Action := [.event (.start [⟨0x1001, 0⟩] 1000000 0)]

theorem writtenStatus_believed : ¬ ∀ (L : Layout), L.Sound → L.Windowed → ∀ as, Reported L as := by
  intro h
  refine harmful_read (oneDrive_sound 1) oneDrive_windowed ?_ (harmful_writtenStatus (s := run act (init (oneDrive 1)) started) rfl ?_)
    (h _ (oneDrive_sound 1) oneDrive_windowed (started ++ [writtenStatus, .event (.tick (Device.receiving []) 0)]))
  · rintro s a ⟨pre, post, has, -⟩
    have ha : a ∈ started := by
      rw [has]
      simp
    obtain rfl := List.mem_singleton.mp ha
    exact trivial
  · exact ⟨_, rfl, by decide +kernel⟩

end Firmware

end EcMaster

import EcMaster.History
import EcMaster.Receive

namespace EcMaster

open Library.Run Library.Segment Library.LittleEndian

/-- When a buffered sample was accepted: while no engine ran, under the engine that runs now, or under one before. -/
inductive Origin
  | idle
  | current
  | earlier
  deriving DecidableEq, Repr

structure Marked where
  tag : UInt32
  payload : List UInt8
  origin : Origin
  deriving DecidableEq, Repr

namespace Marked

def sample (m : Marked) : UInt32 × List UInt8 := (m.tag, m.payload)

def retire (m : Marked) : Marked := if m.origin = .current then { m with origin := .earlier } else m

def leftover (m : Marked) : Bool := m.origin = .earlier

def fresh (ms : List Marked) (current : UInt32) : List Marked := ms.dropWhile fun m => cycleBefore m.tag current

def due (ms : List Marked) (current : UInt32) : Option Marked :=
  (fresh ms current).head?.filter fun m => m.tag == current

def rest (ms : List Marked) (current : UInt32) : List Marked :=
  if (due ms current).isSome then (fresh ms current).tail else fresh ms current

@[simp] theorem retire_sample (m : Marked) : m.retire.sample = m.sample := by
  rw [retire]
  split_ifs <;> rfl

theorem fresh_sample (ms : List Marked) (current : UInt32) :
    (fresh ms current).map sample = MotionQueue.fresh (ms.map sample) current := by
  rw [MotionQueue.fresh, List.dropWhile_map]
  rfl

theorem due_sample (ms : List Marked) (current : UInt32) :
    (due ms current).map payload = MotionQueue.due (ms.map sample) current := by
  rw [due, MotionQueue.due, ← fresh_sample]
  cases fresh ms current with
  | nil => rfl
  | cons m tl =>
    by_cases h : m.tag = current
    · simp [sample, h]
    · simp [sample, h]

theorem rest_sample (ms : List Marked) (current : UInt32) :
    (rest ms current).map sample = MotionQueue.rest (ms.map sample) current := by
  rw [rest, due, MotionQueue.rest, ← fresh_sample]
  cases fresh ms current with
  | nil => rfl
  | cons m tl =>
    by_cases h : m.tag = current
    · simp [sample, h]
    · simp [sample, h]

theorem rest_subset (ms : List Marked) (current : UInt32) : rest ms current ⊆ fresh ms current := by
  rw [rest]
  split_ifs
  · exact List.tail_subset _
  · exact List.Subset.refl _

theorem fresh_subset (ms : List Marked) (current : UInt32) : fresh ms current ⊆ ms := (List.dropWhile_sublist _).subset

theorem mem_fresh_append {ms ns : List Marked} {current : UInt32} {m : Marked} (h : m ∈ fresh (ms ++ ns) current) :
    m ∈ fresh ms current ∨ m ∈ ns := by
  rw [fresh, List.dropWhile_append] at h
  split_ifs at h
  · exact Or.inr ((List.dropWhile_sublist _).subset h)
  · exact List.mem_append.mp h

theorem fresh_filter {ms : List Marked} {current : UInt32} (h : ∀ m ∈ fresh ms current, m.leftover = false) :
    fresh (ms.filter fun m => !m.leftover) current = fresh ms current := by
  induction ms with
  | nil => rfl
  | cons m ms ih =>
    cases hb : cycleBefore m.tag current with
    | true =>
      have hf : fresh (m :: ms) current = fresh ms current := List.dropWhile_cons_of_pos hb
      rw [hf] at h ⊢
      rw [List.filter_cons]
      split_ifs
      · have hk : fresh (m :: ms.filter fun m => !m.leftover) current = fresh (ms.filter fun m => !m.leftover) current :=
          List.dropWhile_cons_of_pos hb
        exact hk.trans (ih h)
      · exact ih h
    | false =>
      have hf : fresh (m :: ms) current = m :: ms := List.dropWhile_cons_of_neg (by simp [hb])
      rw [hf] at h
      rw [List.filter_eq_self.mpr fun x hx => by rw [h x hx]; rfl]

end Marked

namespace Firmware

variable {L : Layout}

def remark (s : Firmware L) (e : Event) (ms : List Marked) : List Marked :=
  match e with
  | .frame mosi =>
    if Accepted L mosi ∧ streaming L then
      ms ++ ((frameSamples L mosi).take (motionRingDepth - ms.length)).map fun x =>
        ⟨x.1, x.2, if s.cyclic.isSome then .current else .idle⟩
    else ms
  | .tick _ _ =>
    match s.cyclic with
    | none => ms
    | some c => if s.host.outValid && streaming L then Marked.rest ms (c.totalCycles + 1) else ms
  | .start _ _ _ => ms
  | .stop _ => ms.map Marked.retire

def traced (L : Layout) (es : List Event) : Firmware L × List Marked :=
  run (withHistory step remark) (init L, []) es

def marked (L : Layout) (es : List Event) : List Marked := (traced L es).2

theorem marked_concat (es : List Event) (e : Event) :
    marked L (es ++ [e]) = remark (run step (init L) es) e (marked L es) := by
  rw [marked, traced, run_concat, withHistory, run_withHistory]
  rfl

structure Follows (ms : List Marked) (s : Firmware L) : Prop where
  samples : ms.map Marked.sample = s.host.motion.samples
  empty : (s.host.outValid && streaming L) = false → ms = []

theorem follows_frame {ms : List Marked} {s : Firmware L} (h : Follows ms s) (mosi : List UInt8) :
    Follows (remark s (.frame mosi) ms) (step s (.frame mosi)) := by
  have hlen : ms.length = s.host.motion.len := by
    rw [← MotionRing.length_samples, ← h.samples, List.length_map]
  by_cases ha : Accepted L mosi
  · have hi := HostBridge.ingest_accepted ha s.host
    refine ⟨?_, ?_⟩
    · change _ = (s.host.ingest mosi).motion.samples
      rw [hi.samples, remark, hlen, ← h.samples]
      by_cases hs : streaming L = true
      · rw [if_pos ⟨ha, hs⟩, if_pos hs, List.map_append, List.map_map]
        congr 1
        exact List.map_id _
      · rw [if_neg (fun hc => hs hc.2), if_neg hs, List.append_nil]
    · intro hn
      change ((s.host.ingest mosi).outValid && streaming L) = false at hn
      rw [hi.outValid, Bool.true_and] at hn
      rw [remark, if_neg (by simp [hn])]
      exact h.empty (by rw [hn, Bool.and_false])
  · rw [remark, if_neg (fun hc => ha hc.1)]
    have hs : (step s (.frame mosi)).host = s.host.reject := HostBridge.ingest_rejected ha s.host
    refine ⟨?_, ?_⟩
    · rw [hs]
      exact h.samples
    · rw [hs]
      exact h.empty

theorem follows_step {ms : List Marked} {s : Firmware L} (h : Follows ms s) (e : Event) :
    Follows (remark s e ms) (step s e) := by
  cases e with
  | frame mosi => exact follows_frame h mosi
  | tick dev latency =>
    cases hc : s.cyclic with
    | none => simpa only [step, remark, hc] using h
    | some c =>
      have hs := c.tickWithHost_served dev s.index latency s.host
      simp only [step, remark, hc, ofTicked]
      refine ⟨?_, ?_⟩
      · rw [hs.samples, ← h.samples, Cyclic.received_totalCycles]
        split_ifs
        · exact Marked.rest_sample _ _
        · rfl
      · intro hn
        rw [hs.outValid] at hn
        rw [if_neg (by simp [hn])]
        exact h.empty hn
  | start slaves cycleNs index =>
    cases hc : s.cyclic with
    | none =>
      simp only [step, remark, hc]
      exact ⟨h.samples, h.empty⟩
    | some c => simpa only [step, remark, hc] using h
  | stop index =>
    refine ⟨?_, ?_⟩
    · rw [remark, List.map_map]
      exact (List.map_congr_left fun m _ => m.retire_sample).trans h.samples
    · intro hn
      rw [remark, h.empty hn]
      rfl

theorem follows_run (es : List Event) : Follows (marked L es) (run step (init L) es) := by
  apply run_history step (P := fun es s => Follows (marked L es) s)
  · exact ⟨rfl, fun _ => rfl⟩
  · intro es e h
    rw [marked_concat]
    exact follows_step h e

/-- Every engine of the run is started with no leftover sample that outlives the stale ones in its first cycle. -/
def CleanStarts (L : Layout) (es : List Event) : Prop :=
  ∀ pre slaves cycleNs index post, es = pre ++ .start slaves cycleNs index :: post →
    (run step (init L) pre).cyclic = none → ∀ m ∈ Marked.fresh (marked L pre) 1, m.leftover = false

theorem CleanStarts.init {es : List Event} {e : Event} (h : CleanStarts L (es ++ [e])) : CleanStarts L es := by
  intro pre slaves cycleNs index post hes
  exact h pre slaves cycleNs index (post ++ [e]) (by rw [hes]; simp)

def Clean (ms : List Marked) (c : Cyclic L) : Prop :=
  (∀ m ∈ ms, m.leftover = false) ∨ c.totalCycles = 0 ∧ ∀ m ∈ Marked.fresh ms 1, m.leftover = false

theorem clean_frame {ms : List Marked} {s : Firmware L} {c : Cyclic L} (hc : s.cyclic = some c) (h : Clean ms c)
    (mosi : List UInt8) : Clean (remark s (.frame mosi) ms) c := by
  by_cases ha : Accepted L mosi ∧ streaming L
  · have hnew : ∀ m ∈ ((frameSamples L mosi).take (motionRingDepth - ms.length)).map (fun x =>
        (⟨x.1, x.2, if s.cyclic.isSome then .current else .idle⟩ : Marked)), m.leftover = false := by
      intro m hm
      obtain ⟨x, -, rfl⟩ := List.mem_map.mp hm
      simp [Marked.leftover, hc]
    rw [remark, if_pos ha]
    rcases h with h | ⟨h0, h⟩
    · refine Or.inl fun m hm => ?_
      rcases List.mem_append.mp hm with hm | hm
      · exact h m hm
      · exact hnew m hm
    · refine Or.inr ⟨h0, fun m hm => ?_⟩
      rcases Marked.mem_fresh_append hm with hm | hm
      · exact h m hm
      · exact hnew m hm
  · rwa [remark, if_neg ha]

theorem clean_tick {ms : List Marked} {s : Firmware L} (hf : Follows ms s) {c : Cyclic L} (hc : s.cyclic = some c)
    (h : Clean ms c) (dev : Device) (latency : UInt32) :
    ∀ m ∈ remark s (.tick dev latency) ms, m.leftover = false := by
  simp only [remark, hc]
  split_ifs with hv
  · intro m hm
    have hm := Marked.rest_subset ms _ hm
    rcases h with h | ⟨h0, h⟩
    · exact h m (Marked.fresh_subset ms _ hm)
    · rw [h0] at hm
      exact h m hm
  · rw [hf.empty (by simpa using hv)]
    simp

theorem clean_run {es : List Event} (h : CleanStarts L es) :
    ∀ c, (run step (init L) es).cyclic = some c → Clean (marked L es) c := by
  induction es using List.reverseRecOn with
  | nil =>
    intro c hc
    exact absurd hc (by simp [init])
  | append_singleton es e ih =>
    intro c hc
    rw [run_concat] at hc
    rw [marked_concat]
    have ih := ih h.init
    have hstart := h es
    have hf := follows_run (L := L) es
    generalize run step (init L) es = s at hc ih hf hstart ⊢
    cases e with
    | frame mosi => exact clean_frame hc (ih c hc) mosi
    | tick dev latency =>
      cases hs : s.cyclic with
      | none =>
        simp only [step, hs] at hc
        exact absurd hc (by simp)
      | some c' => exact Or.inl (clean_tick hf hs (ih c' hs) dev latency)
    | start slaves cycleNs index =>
      cases hs : s.cyclic with
      | none =>
        simp only [step, hs] at hc
        obtain rfl := Option.some.inj hc
        exact Or.inr ⟨rfl, hstart slaves cycleNs index [] rfl hs⟩
      | some c' =>
        simp only [step, hs] at hc
        exact ih c (hs.trans hc)
    | stop index => exact absurd hc (by simp [step])

/-- A tick keeps the streams of the engines apart: the sample it applies is no leftover, and one of its own engine
that is due without the leftovers is due with them. -/
structure Isolates (ms : List Marked) (host : HostBridge L) (cycle : UInt32) : Prop where
  applied : host.dueSample cycle = (Marked.due ms cycle).map Marked.payload
  own : ∀ m, Marked.due ms cycle = some m → m.origin ≠ .earlier
  unblocked : ∀ m, Marked.due (ms.filter fun m => !m.leftover) cycle = some m → m.origin = .current →
    Marked.due ms cycle = some m

theorem mem_of_due {ms : List Marked} {cycle : UInt32} {m : Marked} (h : Marked.due ms cycle = some m) :
    m ∈ Marked.fresh ms cycle := by
  rw [Marked.due, Option.filter_eq_some_iff] at h
  exact List.mem_of_mem_head? h.1

theorem dueSample_of_follows {ms : List Marked} {s : Firmware L} (h : Follows ms s) (cycle : UInt32) :
    s.host.dueSample cycle = (Marked.due ms cycle).map Marked.payload := by
  rw [HostBridge.dueSample, Marked.due_sample, h.samples]
  split_ifs with hs
  · rfl
  · have he := h.empty (by simp [hs])
    have hn : s.host.motion.samples = [] := by rw [← h.samples, he, List.map_nil]
    rw [hn]
    rfl

/-- If every engine is started with no leftover that survives its first cycle, then each tick of the run keeps the
motion streams of the engines apart. -/
theorem restart_isolates {es : List Event} (h : CleanStarts L es) (pre : List Event) (dev : Device)
    (latency : UInt32) (post : List Event) (hes : es = pre ++ .tick dev latency :: post) (c : Cyclic L)
    (host : HostBridge L) (index : UInt8) (hs : run step (init L) pre = ⟨some c, host, index⟩) :
    Isolates (marked L pre) host (c.totalCycles + 1) := by
  have hpre : CleanStarts L pre := by
    intro p slaves cycleNs i q hp
    exact h p slaves cycleNs i (q ++ .tick dev latency :: post) (by rw [hes, hp]; simp)
  have hf := follows_run (L := L) pre
  have hd := dueSample_of_follows hf (c.totalCycles + 1)
  have hclean := clean_run hpre c (by rw [hs])
  rw [hs] at hd
  have hfresh : ∀ m ∈ Marked.fresh (marked L pre) (c.totalCycles + 1), m.leftover = false := by
    intro m hm
    rcases hclean with hc | ⟨h0, hc⟩
    · exact hc m (Marked.fresh_subset _ _ hm)
    · rw [h0] at hm
      exact hc m hm
  refine ⟨hd, ?_, ?_⟩
  · intro m hm ho
    have hl := hfresh m (mem_of_due hm)
    rw [Marked.leftover, ho] at hl
    exact absurd hl (by decide)
  · intro m hm _
    rwa [Marked.due, Marked.fresh_filter hfresh] at hm

def playedOut : List Event :=
  [.start [⟨0x1001, 0⟩] 1000000 0, .frame (streamFrame 7 1 9), .tick (Device.receiving []) 0, .stop 0,
    .start [⟨0x1001, 0⟩] 1000000 0, .frame (streamFrame 7 1 8), .tick (Device.receiving []) 0]

theorem playedOut_clean : CleanStarts (oneDrive 1) playedOut := by
  intro pre slaves cycleNs index post hes hn
  rcases pre with _ | ⟨e₁, _ | ⟨e₂, _ | ⟨e₃, _ | ⟨e₄, _ | ⟨e₅, _ | ⟨e₆, _ | ⟨e₇, pre⟩⟩⟩⟩⟩⟩⟩
  case nil => decide +kernel
  case cons.cons.cons.cons.nil =>
    obtain ⟨rfl, rfl, rfl, rfl, -⟩ : e₁ = _ ∧ e₂ = _ ∧ e₃ = _ ∧ e₄ = _ ∧ _ := by simpa [playedOut, eq_comm] using hes
    decide +kernel
  all_goals simp [playedOut] at hes

theorem restart_isolates_playedOut : ∃ c host index,
    run step (init (oneDrive 1)) (playedOut.take 6) = ⟨some c, host, index⟩ ∧
      Isolates (marked (oneDrive 1) (playedOut.take 6)) host (c.totalCycles + 1) :=
  ⟨_, _, _, rfl, restart_isolates playedOut_clean (playedOut.take 6) (Device.receiving []) 0 [] rfl _ _ _ rfl⟩

def leftBehind : List Event :=
  [.start [⟨0x1001, 0⟩] 1000000 0, .frame (streamFrame 7 2 9), .tick (Device.receiving []) 0, .stop 0,
    .start [⟨0x1001, 0⟩] 1000000 0, .tick (Device.receiving []) 0]

theorem restart_mixes_streams :
    ¬ ∀ (L : Layout) (pre : List Event) c host index, run step (init L) pre = ⟨some c, host, index⟩ →
      Isolates (marked L pre) host (c.totalCycles + 1) := by
  intro h
  have hi := h (oneDrive 1) leftBehind _ _ _ rfl
  exact hi.own ⟨2, [9], .earlier⟩ (by decide +kernel) rfl

end Firmware

end EcMaster

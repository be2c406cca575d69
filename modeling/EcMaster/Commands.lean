import EcMaster.Responses
import EcMaster.TypedLines

namespace EcMaster

open Library.Run

namespace Console

structure SameInput (c c' : Console) : Prop where
  line : c'.ecatLine = c.ecatLine
  accepted : c'.accepted = c.accepted

theorem SameInput.of_fields {c c' : Console} (hl : c'.ecatLine = c.ecatLine) (he : c'.executed = c.executed)
    (hc : c'.ecatCmd = c.ecatCmd) : c.SameInput c' := ⟨hl, by rw [Console.accepted, Console.accepted, he, hc]⟩

theorem Tracks.same {c c' : Console} {t : Typed} (h : c.Tracks t) (hs : c.SameInput c') : c'.Tracks t :=
  ⟨hs.line.trans h.line, hs.accepted.trans h.accepted⟩

theorem Lost.same {c c' : Console} {t : Typed} (h : c.Lost t) (hs : c.SameInput c') : c'.Lost t :=
  ⟨hs.line.trans h.line, by rw [hs.accepted]; exact h.accepted⟩

theorem take_sameInput {c : Console} {cmd : Cli.Command} (h : c.ecatCmd = some cmd) : c.SameInput (c.take cmd) :=
  ⟨rfl, by simp [accepted, take, h]⟩

theorem execute_sameInput {c : Console} (env : WorkerEnv) {cmd : Cli.Command} (h : c.ecatCmd = some cmd) :
    c.SameInput (c.execute env cmd) := by
  have ht := take_sameInput h
  cases cmd with
  | rescan =>
    rw [execute]
    cases env.refusal <;> exact ⟨ht.line, ht.accepted⟩
  | _ => exact ⟨ht.line, ht.accepted⟩

theorem resume_sameInput (c : Console) (next : AfterLine) : c.SameInput (c.resume next) := by
  cases next <;> exact ⟨rfl, rfl⟩

theorem publishIdle_sameInput (c : Console) (line : Line) (stopping : Bool) :
    c.SameInput (c.publishIdle line stopping) := by
  rw [publishIdle]
  split_ifs <;> exact ⟨rfl, rfl⟩

theorem maybeEmitMonitor_sameInput (c : Console) (status : Option Line) : c.SameInput (c.maybeEmitMonitor status) := by
  cases status with
  | some line =>
    have h := publishIdle_sameInput { c with monRunning := true } line false
    exact ⟨h.line, h.accepted⟩
  | none =>
    rw [maybeEmitMonitor]
    split_ifs
    · exact c.publishIdle_sameInput _ _
    · exact ⟨rfl, rfl⟩

theorem work_sameInput (c : Console) (env : WorkerEnv) : c.SameInput (c.work env) := by
  rw [work]
  cases c.worker with
  | booting left => cases left <;> exact ⟨rfl, rfl⟩
  | idle =>
    cases hc : c.ecatCmd with
    | some cmd => exact execute_sameInput env hc
    | none => exact .of_fields rfl rfl hc.symm
  | running cmd => cases env.lines <;> exact ⟨rfl, rfl⟩
  | scanning => cases env.trace <;> cases env.result <;> exact ⟨rfl, rfl⟩
  | emitting left next =>
    cases left with
    | zero => exact c.resume_sameInput next
    | succ n =>
      dsimp only
      split_ifs
      · exact ⟨rfl, rfl⟩
      · exact c.resume_sameInput next
  | after =>
    dsimp only
    split_ifs
    · exact ⟨(c.maybeEmitMonitor_sameInput env.status).line, (c.maybeEmitMonitor_sameInput env.status).accepted⟩
    · exact ⟨rfl, rfl⟩

theorem drain_sameInput (c : Console) (w : WriteResult) : c.SameInput (c.drain w) := by
  unfold drain
  dsimp only
  split_ifs
  · cases w <;> exact ⟨rfl, rfl⟩
  · exact ⟨rfl, rfl⟩
  · rw [writeBanner]
    split_ifs <;> exact ⟨rfl, rfl⟩

/-- The packets fit the buffer that they are read into. -/
def Fits : ConsoleEvent → Prop
  | .usb _ (some packet) _ => packet.length ≤ rxbufSize
  | _ => True

/-- No character is typed behind the 128th of its line. -/
def ShortLines (t : Typed) : ConsoleEvent → Prop
  | .usb true packet _ => ShortBytes t (packet.getD [])
  | _ => True

def MailboxFree (c : Console) : ConsoleEvent → Prop
  | .usb true packet _ => FreeBytes { c with usbReady := true } (packet.getD [])
  | _ => True

variable {read : ℕ → List UInt8 → Option (List UInt8)}

theorem usb_ready (hread : ∀ size packet, packet.length ≤ size → read size packet = some packet) (c : Console)
    {packet : Option (List UInt8)} {w : WriteResult} (hf : Fits (.usb true packet w)) :
    c.usb read true packet w = (run usbByte { c with usbReady := true } (packet.getD [])).drain w := by
  rw [usb, if_pos rfl]
  cases packet with
  | none => rfl
  | some packet =>
    rw [Option.bind_some, hread _ _ hf]
    rfl

theorem Tracks.event (hread : ∀ size packet, packet.length ≤ size → read size packet = some packet) {c : Console}
    {t : Typed} (h : c.Tracks t) {e : ConsoleEvent} (hf : Fits e) (hs : ShortLines t e) :
    MailboxFree c e ∧ (step read c e).Tracks (t.step e) ∨ ¬ MailboxFree c e ∧ (step read c e).Lost (t.step e) := by
  cases e with
  | work env => exact Or.inl ⟨trivial, h.same (c.work_sameInput env)⟩
  | usb ready packet w =>
    cases ready with
    | false => exact Or.inl ⟨trivial, rfl, h.accepted⟩
    | true =>
      have hr : ({ c with usbReady := true } : Console).Tracks t := ⟨h.line, h.accepted⟩
      rw [step, usb_ready hread c hf]
      rcases hr.bytes hs with ⟨hfree, ht⟩ | ⟨hfree, ht⟩
      · exact Or.inl ⟨hfree, ht.same (drain_sameInput _ w)⟩
      · exact Or.inr ⟨hfree, ht.same (drain_sameInput _ w)⟩

theorem Lost.event (hread : ∀ size packet, packet.length ≤ size → read size packet = some packet) {c : Console}
    {t : Typed} (h : c.Lost t) {e : ConsoleEvent} (hf : Fits e) (hs : ShortLines t e) :
    (step read c e).Lost (t.step e) := by
  cases e with
  | work env => exact h.same (c.work_sameInput env)
  | usb ready packet w =>
    cases ready with
    | false => exact ⟨rfl, h.accepted⟩
    | true =>
      have hr : ({ c with usbReady := true } : Console).Lost t := ⟨h.line, h.accepted⟩
      rw [step, usb_ready hread c hf]
      exact (hr.bytes hs).same (drain_sameInput _ w)

/-- With packets that fit the buffer and lines that fit theirs, the commands that the worker has executed and the
one that waits for it are those typed, line by line, if and only if no line was completed while another waited. -/
theorem commands_exact_iff (hread : ∀ size packet, packet.length ≤ size → read size packet = some packet)
    {es : List ConsoleEvent} (hfit : ∀ e ∈ es, Fits e)
    (hshort : ∀ t e, Takes Typed.step Typed.init es t e → ShortLines t e) :
    let c := run (step read) init es
    c.executed ++ c.ecatCmd.toList = (run Typed.step Typed.init es).lines.map Cli.parse ↔
      ∀ c' e, Takes (step read) init es c' e → MailboxFree c' e := by
  intro c
  have hboth : ∀ (p : Console × Typed) e, Takes (both (step read) Typed.step) (init, Typed.init) es p e →
      Fits e ∧ ShortLines p.2 e := by
    intro p e hp
    obtain ⟨pre, post, rfl, -, ht⟩ := takes_both.mp hp
    exact ⟨hfit e (List.mem_append_right _ List.mem_cons_self), hshort p.2 e ⟨pre, post, rfl, ht⟩⟩
  have hfree : (∀ p e, Takes (both (step read) Typed.step) (init, Typed.init) es p e → MailboxFree p.1 e) ↔
      ∀ c' e, Takes (step read) init es c' e → MailboxFree c' e := by
    constructor
    · rintro h c' e ⟨pre, post, rfl, rfl⟩
      exact h (run (step read) init pre, run Typed.step Typed.init pre) e (takes_both.mpr ⟨pre, post, rfl, rfl, rfl⟩)
    · intro h p e hp
      obtain ⟨pre, post, rfl, hc, -⟩ := takes_both.mp hp
      exact h p.1 e ⟨pre, post, rfl, hc⟩
  have hrun := run_split (I := fun p : Console × Typed => p.1.Tracks p.2) (J := fun p => p.1.Lost p.2)
    (A := fun p e => Fits e ∧ ShortLines p.2 e) (G := fun p e => MailboxFree p.1 e)
    (fun p e hi ha hg => ((hi.event hread ha.1 ha.2).resolve_right fun hn => hn.1 hg).2)
    (fun p e hi ha hb => ((hi.event hread ha.1 ha.2).resolve_left fun hn => hb hn.1).2)
    (fun p e hj ha => hj.event hread ha.1 ha.2)
    (show (init, Typed.init).1.Tracks (init, Typed.init).2 from ⟨rfl, rfl⟩) hboth
  rw [hfree, run_both] at hrun
  rcases hrun with ⟨h, ht⟩ | ⟨h, ht⟩
  · exact iff_of_true ht.accepted h
  · refine iff_of_false (fun he => ?_) h
    have hl := congrArg List.length he
    rw [List.length_map] at hl
    exact absurd hl ht.accepted.ne

def typedBytes : ConsoleEvent → ℕ
  | .usb _ packet _ => (packet.getD []).length
  | .work _ => 0

theorem byte_line_le (t : Typed) (b : UInt8) : (t.byte b).line.length ≤ t.line.length + 1 := by
  rw [Typed.byte]
  split_ifs
  · exact Nat.le_succ _
  · exact Nat.zero_le _
  · rw [List.length_dropLast]
    omega
  · rw [List.length_append, List.length_singleton]
  · exact Nat.le_succ _

theorem bytes_line_le (t : Typed) (bytes : List UInt8) :
    (run Typed.byte t bytes).line.length ≤ t.line.length + bytes.length := by
  induction bytes generalizing t with
  | nil => exact le_rfl
  | cons b bytes ih =>
    have h := byte_line_le t b
    have hr := ih (t.byte b)
    rw [List.length_cons]
    exact hr.trans (by omega)

theorem step_line_le (t : Typed) (e : ConsoleEvent) : (t.step e).line.length ≤ t.line.length + typedBytes e := by
  cases e with
  | work env => exact le_rfl
  | usb ready packet w =>
    cases ready with
    | false => exact Nat.zero_le _
    | true => exact bytes_line_le t _

theorem run_line_le (es : List ConsoleEvent) (t : Typed) :
    (run Typed.step t es).line.length ≤ t.line.length + (es.map typedBytes).sum := by
  induction es generalizing t with
  | nil => exact le_rfl
  | cons e es ih =>
    have h := step_line_le t e
    have hr := ih (t.step e)
    rw [List.map_cons, List.sum_cons]
    exact hr.trans (by omega)

theorem shortLines_of_few {es : List ConsoleEvent} (h : (es.map typedBytes).sum ≤ ecatLineCap) :
    ∀ t e, Takes Typed.step Typed.init es t e → ShortLines t e := by
  rintro t e ⟨pre, post, rfl, rfl⟩
  have hpre := run_line_le pre Typed.init
  rw [List.map_append, List.map_cons, List.sum_append, List.sum_cons] at h
  cases e with
  | work env => trivial
  | usb ready packet w =>
    cases ready with
    | false => trivial
    | true =>
      rintro t' b ⟨bytes, rest, hb, rfl⟩ -
      have hline := bytes_line_le (run Typed.step Typed.init pre) bytes
      have hlen : bytes.length < typedBytes (.usb true packet w) := by
        rw [typedBytes, hb, List.length_append, List.length_cons]
        omega
      have hinit : Typed.init.line.length = 0 := rfl
      omega

def twoCollected : List ConsoleEvent :=
  [typing "monitor\rho" .ok, .work quiet, .work quiet, .usb true none .ok, typing "st\n" .ok, .work quiet, .work quiet]

theorem commands_exact_collected :
    (run (step readPacket) init twoCollected).executed ++ (run (step readPacket) init twoCollected).ecatCmd.toList =
        (run Typed.step Typed.init twoCollected).lines.map Cli.parse ∧
      (run (step readPacket) init twoCollected).executed.length = 2 ∧
      ∀ c e, Takes (step readPacket) init twoCollected c e → MailboxFree c e := by
  have hfit : ∀ e ∈ twoCollected, Fits e := by simp [twoCollected, typing, Fits]; decide
  have hexact : (run (step readPacket) init twoCollected).executed ++
      (run (step readPacket) init twoCollected).ecatCmd.toList =
        (run Typed.step Typed.init twoCollected).lines.map Cli.parse := by decide +kernel
  exact ⟨hexact, by decide +kernel,
    (commands_exact_iff (fun _ _ h => if_pos h) hfit (shortLines_of_few (by decide +kernel))).mp hexact⟩

def twoLines : List ConsoleEvent :=
  [typing "slaves\nstats\n" .ok, .work quiet, .work quiet, .work quiet, .work quiet]

theorem command_lost : ¬ ∀ es, (run (step readPacket) init es).executed ++ (run (step readPacket) init es).ecatCmd.toList =
    (run Typed.step Typed.init es).lines.map Cli.parse := by
  intro h
  exact absurd (h twoLines) (by decide +kernel)

end Console

end EcMaster

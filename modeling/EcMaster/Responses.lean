import EcMaster.Console

namespace EcMaster

open Library.Run

namespace EcatOut

theorem length_text (l : Line) : l.text.length ≤ 98 := by
  have h := l.length_le
  rw [Line.text, List.length_append]
  simp only [crlf, List.length_cons, List.length_nil]
  omega

theorem pushLine_eq {o : EcatOut} {line : Line} (h : o.buf.length + 98 ≤ ecatOutCap) :
    o.pushLine line.bytes = ⟨o.buf ++ line.text, o.cursor⟩ := by
  have hl := line.length_le
  have hc : crlf.length = 2 := rfl
  have hbytes : extendWithin ecatOutCap o.buf line.bytes = o.buf ++ line.bytes := if_pos (by omega)
  rw [pushLine, hbytes, extendWithin, if_pos (by rw [List.length_append]; omega), List.append_assoc]
  rfl

theorem foldl_pushLine (lines : List Line) (o : EcatOut) (h : o.buf.length + 98 * lines.length ≤ ecatOutCap) :
    lines.foldl (fun o line => o.pushLine line.bytes) o = ⟨o.buf ++ lines.flatMap Line.text, o.cursor⟩ := by
  induction lines generalizing o with
  | nil => simp
  | cons line lines ih =>
    have ht := length_text line
    rw [List.length_cons] at h
    rw [List.foldl_cons, pushLine_eq (by omega), ih _ (by rw [List.length_append]; omega), List.flatMap_cons,
      List.append_assoc]

theorem setLines_eq (o : EcatOut) (r : RespLines) : o.setLines r = ⟨r.text, 0⟩ := by
  have h := r.length_le
  simp only [ecatRespLines] at h
  rw [setLines, foldl_pushLine _ _ (by simp only [new, ecatOutCap, ecatRespLines, List.length_nil]; omega)]
  rfl

theorem loadLine_eq (o : EcatOut) (line : Line) : o.loadLine line = ⟨line.text, 0⟩ := by
  rw [loadLine, pushLine_eq (by decide)]
  rfl

@[simp] theorem remaining_zero (buf : List UInt8) : remaining ⟨buf, 0⟩ = buf := by simp [remaining]

theorem remaining_advance (o : EcatOut) (n : ℕ) : (o.advance n).remaining = o.remaining.drop n := by
  rw [advance, remaining, remaining, List.drop_drop]
  dsimp only
  by_cases h : o.cursor ≤ o.buf.length
  · rw [min_eq_left h, min_assoc, min_self]
    by_cases hn : o.cursor + n ≤ o.buf.length
    · rw [min_eq_left hn]
    · rw [min_eq_right (by omega), List.drop_eq_nil_of_le le_rfl, List.drop_eq_nil_of_le (by omega)]
  · rw [min_eq_right (by omega : o.buf.length ≤ o.cursor), List.drop_eq_nil_of_le (by omega),
      List.drop_eq_nil_of_le (by omega)]

theorem pending_eq (o : EcatOut) : o.pending = false ↔ o.remaining = [] := by
  rw [pending, remaining, List.drop_eq_nil_iff, decide_eq_false_iff_not]
  omega

end EcatOut

namespace Console

def output (c : Console) : List UInt8 := c.delivered ++ c.ecatOut.remaining

def Replaces (c c' : Console) : Prop :=
  ∃ text, c'.published = c.published ++ [text] ∧ c'.output = c.delivered ++ text

def SameOutput (c c' : Console) : Prop := c'.published = c.published ∧ c'.output = c.output

theorem Replaces.of_fields {c d c' : Console} (h : d.Replaces c') (hp : d.published = c.published)
    (hd : d.delivered = c.delivered) : c.Replaces c' := by
  obtain ⟨text, ht, ho⟩ := h
  exact ⟨text, by rw [ht, hp], by rw [ho, hd]⟩

theorem emitLine_replaces (c : Console) (line : Line) (next : AfterLine) : c.Replaces (c.emitLine line next) := by
  refine ⟨line.text, rfl, ?_⟩
  rw [output, emitLine, EcatOut.loadLine_eq, EcatOut.remaining_zero]

theorem respond_replaces (c : Console) (lines : RespLines) : c.Replaces (c.respond lines) := by
  refine ⟨lines.text, rfl, ?_⟩
  rw [output, respond, EcatOut.setLines_eq, EcatOut.remaining_zero]

theorem resume_output (c : Console) (next : AfterLine) : c.SameOutput (c.resume next) ∨ c.Replaces (c.resume next) := by
  cases next with
  | scan | «return» => exact Or.inl ⟨rfl, rfl⟩
  | result line => exact Or.inr (c.emitLine_replaces line _)

theorem execute_output (c : Console) (env : WorkerEnv) (cmd : Cli.Command) :
    c.SameOutput (c.execute env cmd) ∨ c.Replaces (c.execute env cmd) := by
  cases cmd with
  | rescan =>
    rw [execute]
    cases env.refusal with
    | some line => exact Or.inr (((c.take .rescan).emitLine_replaces line _).of_fields rfl rfl)
    | none => exact Or.inl ⟨rfl, rfl⟩
  | host => exact Or.inr (((c.take .host).respond_replaces _).of_fields rfl rfl)
  | monitor mode => exact Or.inr ((((c.take (.monitor mode)).setMonitor _).respond_replaces _).of_fields rfl rfl)
  | _ => exact Or.inl ⟨rfl, rfl⟩

theorem publishIdle_output (c : Console) (line : Line) (stopping : Bool) :
    c.SameOutput (c.publishIdle line stopping) ∨ c.Replaces (c.publishIdle line stopping) := by
  rw [publishIdle]
  split_ifs
  · exact Or.inl ⟨rfl, rfl⟩
  · refine Or.inr ⟨line.text, rfl, ?_⟩
    rw [output, EcatOut.loadLine_eq, EcatOut.remaining_zero]

theorem maybeEmitMonitor_output (c : Console) (status : Option Line) :
    c.SameOutput (c.maybeEmitMonitor status) ∨ c.Replaces (c.maybeEmitMonitor status) := by
  cases status with
  | some line =>
    rw [maybeEmitMonitor]
    rcases publishIdle_output { c with monRunning := true } line false with h | h
    · exact Or.inl h
    · exact Or.inr (h.of_fields rfl rfl)
  | none =>
    rw [maybeEmitMonitor]
    split_ifs
    · exact c.publishIdle_output _ _
    · exact Or.inl ⟨rfl, rfl⟩

theorem work_output (c : Console) (env : WorkerEnv) : c.SameOutput (c.work env) ∨ c.Replaces (c.work env) := by
  rw [work]
  cases c.worker with
  | booting left => cases left <;> exact Or.inl ⟨rfl, rfl⟩
  | idle =>
    cases c.ecatCmd with
    | some cmd => exact c.execute_output env cmd
    | none => exact Or.inl ⟨rfl, rfl⟩
  | running cmd =>
    cases env.lines with
    | some lines => exact Or.inr (c.respond_replaces lines)
    | none => exact Or.inl ⟨rfl, rfl⟩
  | scanning =>
    cases env.trace with
    | some line => cases env.result <;> exact Or.inr (c.emitLine_replaces line _)
    | none =>
      cases env.result with
      | some result => exact Or.inr (c.emitLine_replaces result _)
      | none => exact Or.inl ⟨rfl, rfl⟩
  | emitting left next =>
    cases left with
    | zero => exact c.resume_output next
    | succ n =>
      dsimp only
      split_ifs
      · exact Or.inl ⟨rfl, rfl⟩
      · exact c.resume_output next
  | after =>
    dsimp only
    split_ifs
    · exact c.maybeEmitMonitor_output env.status
    · exact Or.inl ⟨rfl, rfl⟩

theorem usbByte_sameOutput (c : Console) (b : UInt8) : c.SameOutput (c.usbByte b) := by
  rw [usbByte]
  split_ifs <;> exact ⟨rfl, rfl⟩

theorem foldl_usbByte_sameOutput (c : Console) (bytes : List UInt8) : c.SameOutput (bytes.foldl usbByte c) := by
  induction bytes generalizing c with
  | nil => exact ⟨rfl, rfl⟩
  | cons b bytes ih =>
    obtain ⟨hp, ho⟩ := ih (c.usbByte b)
    obtain ⟨hp', ho'⟩ := c.usbByte_sameOutput b
    exact ⟨hp.trans hp', ho.trans ho'⟩

theorem drain_sameOutput (c : Console) {w : WriteResult} (hw : w ≠ .err) : c.SameOutput (c.drain w) := by
  unfold drain
  dsimp only
  split_ifs
  · cases w with
    | ok =>
      refine ⟨rfl, ?_⟩
      have hchunk := List.prefix_iff_eq_append.mp (List.take_prefix usbMaxPacketSize c.ecatOut.remaining)
      rw [output, output, EcatOut.remaining_advance, List.append_assoc, hchunk]
    | wouldBlock => exact ⟨rfl, rfl⟩
    | err => exact absurd rfl hw
  · exact ⟨rfl, rfl⟩
  · rw [writeBanner]
    split_ifs <;> exact ⟨rfl, rfl⟩

theorem usb_sameOutput (read : ℕ → List UInt8 → Option (List UInt8)) (c : Console) (ready : Bool)
    (packet : Option (List UInt8)) {w : WriteResult} (hw : w ≠ .err) : c.SameOutput (c.usb read ready packet w) := by
  rw [usb]
  split_ifs
  · obtain ⟨hp, ho⟩ := foldl_usbByte_sameOutput { c with usbReady := true } ((packet.bind (read rxbufSize)).getD [])
    obtain ⟨hp', ho'⟩ := drain_sameOutput (((packet.bind (read rxbufSize)).getD []).foldl usbByte
      { c with usbReady := true }) hw
    exact ⟨hp'.trans hp, ho'.trans ho⟩
  · exact ⟨rfl, rfl⟩

variable {read : ℕ → List UInt8 → Option (List UInt8)}

/-- The host takes each packet or asks to wait: no write fails. -/
def Attached : ConsoleEvent → Prop
  | .usb _ _ w => w ≠ .err
  | .work _ => True

def Publishes (read : ℕ → List UInt8 → Option (List UInt8)) (c : Console) (e : ConsoleEvent) : Prop :=
  (step read c e).published ≠ c.published

def PublishesIdle (read : ℕ → List UInt8 → Option (List UInt8)) (es : List ConsoleEvent) : Prop :=
  ∀ c e, Takes (step read) init es c e → Publishes read c e → c.ecatOut.pending = false

theorem step_output (c : Console) {e : ConsoleEvent} (he : Attached e) :
    c.SameOutput (step read c e) ∨ c.Replaces (step read c e) := by
  cases e with
  | usb ready packet w => exact Or.inl (c.usb_sameOutput read ready packet he)
  | work env => exact c.work_output env

theorem output_history {es : List ConsoleEvent} (ha : ∀ e ∈ es, Attached e) :
    let c := run (step read) init es
    PublishesIdle read es ∧ c.output = c.published.flatten ∨
      ¬ PublishesIdle read es ∧ c.output.length < c.published.flatten.length := by
  refine run_split (I := fun c => c.output = c.published.flatten)
    (J := fun c => c.output.length < c.published.flatten.length) (A := fun _ e => Attached e)
    (G := fun c e => Publishes read c e → c.ecatOut.pending = false) ?_ ?_ ?_
    (show init.output = init.published.flatten from rfl) ?_
  · intro c e hi he hg
    rcases c.step_output he with ⟨hp, ho⟩ | ⟨text, hp, ho⟩
    · rw [hp, ho, hi]
    · have hrem := (EcatOut.pending_eq _).mp (hg (by rw [Publishes, hp]; simp))
      rw [output, hrem, List.append_nil] at hi
      rw [hp, ho, hi, List.flatten_append, List.flatten_singleton]
  · intro c e hi he hb
    obtain ⟨hpub, hpend⟩ := Classical.not_imp.mp hb
    rcases c.step_output he with ⟨hp, -⟩ | ⟨text, hp, ho⟩
    · exact absurd hp hpub
    · have hpos : 0 < c.ecatOut.remaining.length :=
        List.length_pos_iff.mpr fun h => hpend ((EcatOut.pending_eq _).mpr h)
      have hl := congrArg List.length hi
      rw [output, List.length_append] at hl
      rw [hp, ho, List.flatten_append, List.flatten_singleton, List.length_append, List.length_append]
      omega
  · intro c e hj he
    rcases c.step_output he with ⟨hp, ho⟩ | ⟨text, hp, ho⟩
    · rw [hp, ho]
      exact hj
    · rw [output, List.length_append] at hj
      rw [hp, ho, List.flatten_append, List.flatten_singleton, List.length_append, List.length_append]
      omega
  · rintro c e ⟨pre, post, rfl, -⟩
    exact ha e (List.mem_append_right _ List.mem_cons_self)

/-- What is delivered, with what still waits, is all that was published, if and only if each text is published
with nothing waiting. -/
theorem responses_whole_iff {es : List ConsoleEvent} (ha : ∀ e ∈ es, Attached e) :
    let c := run (step read) init es
    c.delivered ++ c.ecatOut.remaining = c.published.flatten ↔ PublishesIdle read es := by
  intro c
  rcases @output_history read es ha with ⟨h, hw⟩ | ⟨h, hw⟩
  · exact iff_of_true hw h
  · refine iff_of_false (fun he => ?_) h
    have hl := congrArg List.length (show c.output = c.published.flatten from he)
    exact absurd hl hw.ne

/-- `read_packet` as its contract has it: a packet that does not fit the buffer is an error. -/
def readPacket (size : ℕ) (packet : List UInt8) : Option (List UInt8) := if packet.length ≤ size then some packet else none

def quiet : WorkerEnv := ⟨none, ⟨[], Nat.zero_le _⟩, none, none, none, false, none⟩

def typing (s : String) (w : WriteResult) : ConsoleEvent := .usb true (some (asciiBytes s)) w

def collected : List ConsoleEvent :=
  [typing "monitor\r" .ok, .work quiet, .work quiet, .usb true none .wouldBlock, .usb true none .ok, .work quiet]

theorem responses_whole_collected : PublishesIdle readPacket collected :=
  (responses_whole_iff (by simp [collected, typing, Attached])).mp (by decide +kernel)

def overwritten : List ConsoleEvent :=
  [typing "monitor\r" .ok, .work quiet, .work quiet, .work quiet, typing "monitor\r" .wouldBlock, .work quiet,
    .usb true none .ok]

theorem response_lost : ¬ ∀ es, (∀ e ∈ es, Attached e) →
    let c := run (step readPacket) init es
    c.ecatOut.pending = false → c.delivered = c.published.flatten := by
  intro h
  have hlost := h overwritten (by simp [overwritten, typing, Attached]) (by decide +kernel)
  exact absurd hlost (by decide +kernel)

end Console

end EcMaster

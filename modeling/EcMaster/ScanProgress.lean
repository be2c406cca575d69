import EcMaster.SiiProgress

namespace EcMaster

open Library.Dialogue Library.Dialogue.Script Library.Segment Library.LittleEndian

def SiiField.before : SiiField → List SiiField
  | .vendor => []
  | .product => [.vendor]
  | .revision => [.vendor, .product]
  | .rxMbox => [.vendor, .product, .revision]
  | .txMbox => [.vendor, .product, .revision, .rxMbox]
  | .protocols => [.vendor, .product, .revision, .rxMbox, .txMbox]

def Cur.word (c : Cur) : SiiField → UInt32
  | .vendor => c.vendor
  | .product => c.product
  | .revision => c.revision
  | .rxMbox => c.rxMbox
  | .txMbox => c.txMbox
  | .protocols => 0

def Cur.BaseRead (c : Cur) : Exchanged → Exchanged → Exchanged → Prop :=
  EcMaster.BaseRead c.ringPos c.station c.al c.baseType c.baseFmmuCount c.baseSyncCount

def Cur.WordsRead (c : Cur) (fields : List SiiField) : Exchanged → Prop :=
  Pieces (fun field => WordRead c.station (eepromWord field) (c.word field)) fields

structure InTurn (count : UInt16) (c : Cur) (published : List SlaveInfo) (log : Exchanged) : Prop where
  scans : ∃ head scans, log = head ++ scans ∧ Cleared count head ∧ Pieces SlaveScan published scans
  inOrder : InOrder published
  ringPos : c.ringPos = UInt16.ofNat published.length
  station : c.station = c.ringPos + 1
  below : published.length < min count.toNat ecMaxSlaves

def Finished (published : List SlaveInfo) (log : Exchanged) : Prop :=
  ∃ count c rest scans, log = c ++ rest ++ scans ∧ Counted count c ∧ (rest = [] ∨ Heard addressClear (fun _ => True) rest) ∧
    Pieces SlaveScan published scans ∧ InOrder published ∧ published.length = min count.toNat ecMaxSlaves

theorem getElem?_take_reply {data : List UInt8} {n i : ℕ} (hn : data.length = n) (hi : i < n) (h : i < 16) :
    data[i]? = some ((data.take 16).getD i 0) := by
  rw [List.getD_eq_getElem?_getD, List.getElem?_take, if_pos h, List.getElem?_eq_getElem (by omega)]
  rfl

theorem headD_eq_getD (data : List UInt8) (b : UInt8) : data.headD b = data.getD 0 b := by
  cases data <;> rfl

theorem refused_of_reply {a : Access} {rx : List UInt8} {reply : Reply} (hp : parse rx = some reply)
    (h : a.command = .apwr ∧ reply.workingCounter ≠ 1 ∨
      a.command = .fprd ∧ (a.ado = 0x0130 ∨ a.ado = 0x0000) ∧ reply.workingCounter ≠ 1 ∨
        a.command = .fpwr ∧ reply.workingCounter = 0 ∨
          a.command = .fprd ∧ a.ado = 0x0502 ∧ reply.workingCounter ≠ 0 ∧ 10 ≤ reply.data.length ∧
            reply.data.getD 1 0 &&& 0x20 ≠ 0) : Refused ([a], .ok rx) := by
  rw [Refused, hp]
  exact h

theorem InOrder.concat {published : List SlaveInfo} (h : InOrder published) {info : SlaveInfo}
    (hr : info.ringPos = UInt16.ofNat published.length) (hs : info.stationAddr = info.ringPos + 1) :
    InOrder (published ++ [info]) := by
  intro i x hx
  rcases Nat.lt_trichotomy i published.length with hi | rfl | hi
  · rw [List.getElem?_append_left hi] at hx
    exact h i x hx
  · rw [List.getElem?_concat_length] at hx
    obtain rfl := Option.some.inj hx
    refine ⟨hr, ?_⟩
    rw [hs, hr, UInt16.ofNat_add]
    rfl
  · rw [List.getElem?_eq_none (by rw [List.length_append, List.length_singleton]; omega)] at hx
    exact absurd hx nofun

namespace ScanFsm

def Progress (s : ScanFsm) (published : List SlaveInfo) (log : Exchanged) : Prop :=
  match s.stage with
  | .count => s.x.Open [countRead] ∧ published = [] ∧ log = []
  | .clear => s.x.Open [addressClear] ∧ published = [] ∧ s.count ≠ 0 ∧ Counted s.count log
  | .apwr => s.x.Open [addressWrite s.cur.ringPos s.cur.station] ∧ InTurn s.count s.cur published log
  | .al => s.x.Open [alRead s.cur.station] ∧ ∃ l apwr, log = l ++ apwr ∧ InTurn s.count s.cur published l ∧
      Heard (addressWrite s.cur.ringPos s.cur.station) (fun reply => reply.workingCounter = 1) apwr
  | .dl => s.x.Open [dlRead s.cur.station] ∧ ∃ l apwr status, log = l ++ apwr ++ status ∧
      InTurn s.count s.cur published l ∧
      Heard (addressWrite s.cur.ringPos s.cur.station) (fun reply => reply.workingCounter = 1) apwr ∧
      Heard (alRead s.cur.station) (fun reply => reply.workingCounter = 1 ∧
        reply.data[0]?.map (· &&& 0x0F) = some s.cur.al) status
  | .sii field => s.sii.word = eepromWord field ∧ ∃ l apwr status base words p,
      log = l ++ apwr ++ status ++ base ++ words ++ p ∧ InTurn s.count s.cur published l ∧
      s.cur.BaseRead apwr status base ∧ s.cur.WordsRead field.before words ∧ s.sii.Progress s.cur.station p
  | .done => Finished published log

def Scans (published : List SlaveInfo) (base log : Exchanged) (r : Except EcError (Bool × ScanFsm) × Link) : Prop :=
  (∃ s' log', r.1 = .ok (false, s') ∧ r.2.log = base ++ log' ∧ s'.Progress (published ++ s'.completed.toList) log') ∨
    (∃ s', r.1 = .ok (true, s') ∧ r.2.log = base ++ log ∧ s'.completed = none ∧ s'.Progress published log ∧
      Finished published log) ∨
      ∃ e z, r.1 = .error e ∧ r.2.log = base ++ log ++ [z] ∧ (Refused z ∨ Exhausted (base ++ log ++ [z]))

theorem progress_new : new.Progress [] [] := ⟨Exchange.open_idle _, rfl, rfl⟩

theorem scans_poll {s : ScanFsm} {a : Access} {published : List SlaveInfo} {base log : Exchanged} {k : Link}
    {hear : UInt16 → List UInt8 → Except EcError ScanFsm} (hc : s.completed = none) (hopen : s.x.Open [a])
    (hk : k.log = base ++ log) (hstay : ∀ y : Exchange, y.Open [a] → ({ s with x := y } : ScanFsm).Progress published log)
    (hhear : ∀ rx reply, parse rx = some reply → KeepsLength ([a], .ok rx) →
      match hear reply.workingCounter (reply.data.take 16) with
      | .error _ => Refused ([a], .ok rx)
      | .ok s' => s'.completed = none ∧
          ({ s' with x := .idle } : ScanFsm).Progress published (log ++ [([a], .ok rx)]))
    (hl : ∀ x ∈ (s.poll a k hear).2.log, KeepsLength x) : Scans published base log (s.poll a k hear) := by
  suffices h : (∀ x ∈ (s.poll a k hear).2.log, KeepsLength x) → Scans published base log (s.poll a k hear) from h hl
  rw [poll]
  refine Exchange.Open.step_reply (P := fun r => (∀ x ∈ r.2.log, KeepsLength x) → Scans published base log r) hopen
    (fun y k' hy hlog _ => ?_) (fun e z k' hlog hz _ => ?_) (fun rx reply k' hparse hlog hl => ?_)
  · refine Or.inl ⟨{ s with x := y }, log, rfl, hlog.trans hk, ?_⟩
    rw [show ({ s with x := y } : ScanFsm).completed = none from hc, Option.toList_none, List.append_nil]
    exact hstay y hy
  · exact Or.inr (Or.inr ⟨e, z, rfl, by rw [hlog, hk], Or.inl hz⟩)
  · rw [hk] at hlog
    have hh := hhear rx reply hparse (hl _ (by rw [hlog]; simp))
    cases hr : hear reply.workingCounter (reply.data.take 16) with
    | error e =>
      rw [hr] at hh
      exact Or.inr (Or.inr ⟨e, _, rfl, hlog, Or.inl hh⟩)
    | ok s' =>
      rw [hr] at hh
      obtain ⟨hc', hp⟩ := hh
      refine Or.inl ⟨{ s' with x := .idle }, log ++ [([a], .ok rx)], rfl, by rw [hlog, List.append_assoc], ?_⟩
      rw [show ({ s' with x := .idle } : ScanFsm).completed = none from hc', Option.toList_none, List.append_nil]
      exact hp

theorem progress_finishSlave {s : ScanFsm} {published : List SlaveInfo} {l scan : Exchanged} {protocols : UInt16}
    (ht : InTurn s.count s.cur published l) (hscan : SlaveScan (s.cur.info protocols) scan) :
    (s.finishSlave protocols).Progress (published ++ (s.finishSlave protocols).completed.toList) (l ++ scan) := by
  obtain ⟨head, scans, rfl, hhead, hscans⟩ := ht.scans
  have hbelow := ht.below
  have hnext : s.cur.ringPos + 1 = UInt16.ofNat (published.length + 1) := by
    rw [ht.ringPos, UInt16.ofNat_add]
    rfl
  have hlen : (published ++ [s.cur.info protocols]).length = published.length + 1 := by simp
  have horder : InOrder (published ++ [s.cur.info protocols]) := ht.inOrder.concat ht.ringPos ht.station
  have hpieces : Pieces SlaveScan (published ++ [s.cur.info protocols]) (scans ++ scan) := hscans.append (.single hscan)
  have hcount : s.cur.ringPos + 1 < s.count ↔ published.length + 1 < s.count.toNat := by
    rw [hnext, UInt16.lt_iff_toNat_lt, UInt16.toNat_ofNat_of_lt']
    exact lt_of_le_of_lt (Nat.succ_le_of_lt (lt_of_lt_of_le hbelow (min_le_right _ _))) (by decide)
  have hmax : (s.cur.ringPos + 1).toNat = published.length + 1 := by
    rw [hnext, UInt16.toNat_ofNat_of_lt']
    exact lt_of_le_of_lt (Nat.succ_le_of_lt (lt_of_lt_of_le hbelow (min_le_right _ _))) (by decide)
  rw [finishSlave]
  dsimp only
  split_ifs with hgo
  · refine ⟨Exchange.open_idle _, ⟨head, scans ++ scan, List.append_assoc _ _ _, hhead, hpieces⟩, horder, ?_, rfl, ?_⟩
    · change s.cur.ringPos + 1 = UInt16.ofNat (published ++ [s.cur.info protocols]).length
      rw [hlen, hnext]
    · change (published ++ [s.cur.info protocols]).length < _
      rw [hlen]
      exact lt_min (hcount.mp hgo.1) (hmax ▸ hgo.2)
  · obtain ⟨c, b, rfl, hc, -, hb⟩ := hhead
    refine ⟨s.count, c, b, scans ++ scan, List.append_assoc _ _ _, hc, Or.inr hb, hpieces, horder, ?_⟩
    change (published ++ [s.cur.info protocols]).length = _
    rw [hlen]
    rw [hcount, hmax] at hgo
    omega

theorem progress_readNext {s : ScanFsm} {published : List SlaveInfo} {l apwr status base words : Exchanged}
    (hc : s.completed = none) (field : SiiField) (ht : InTurn s.count s.cur published l)
    (hb : s.cur.BaseRead apwr status base) (hw : s.cur.WordsRead field.before words) :
    (s.readNext field).Progress (published ++ (s.readNext field).completed.toList)
      (l ++ apwr ++ status ++ base ++ words) := by
  rw [show (s.readNext field).completed = none from hc, Option.toList_none, List.append_nil]
  exact ⟨siiWord_eq field, l, apwr, status, base, words, [], (List.append_nil _).symm, ht, hb, hw, Sii.progress_reset _ _ _⟩

theorem slaveScan_info {c : Cur} {apwr status base words w : Exchanged} (hb : c.BaseRead apwr status base)
    (hw : c.WordsRead SiiField.protocols.before words) {value : UInt32}
    (hv : WordRead c.station (eepromWord .protocols) value w) :
    SlaveScan (c.info value.toUInt16) (apwr ++ status ++ base ++ (words ++ w)) := by
  refine ⟨apwr, status, base, words ++ w, Function.update c.word .protocols value, rfl, hb, ?_, ?_⟩
  · exact @Pieces.append _ _ _ SiiField.protocols.before _ _ _ hw (.single hv)
  · exact ⟨rfl, rfl, rfl, rfl, rfl, rfl, rfl, rfl, rfl⟩

theorem progress_applySii {s : ScanFsm} {published : List SlaveInfo} {l apwr status base words w : Exchanged}
    (hc : s.completed = none) (ht : InTurn s.count s.cur published l) (hb : s.cur.BaseRead apwr status base)
    {field : SiiField} (hw : s.cur.WordsRead field.before words) {value : UInt32}
    (hv : WordRead s.cur.station (eepromWord field) value w) :
    (s.applySii field value).Progress (published ++ (s.applySii field value).completed.toList)
      (l ++ apwr ++ status ++ base ++ (words ++ w)) := by
  have hturn (c : Cur) (hr : c.ringPos = s.cur.ringPos) (hs : c.station = s.cur.station) :
      InTurn s.count c published l :=
    ⟨ht.scans, ht.inOrder, hr.trans ht.ringPos, by rw [hs, hr, ht.station], ht.below⟩
  cases field with
  | vendor =>
    exact progress_readNext (s := { s with cur := { s.cur with vendor := value } }) hc .product (hturn _ rfl rfl) hb
      (@Pieces.append _ _ _ SiiField.vendor.before _ _ _ hw (.single hv))
  | product =>
    exact progress_readNext (s := { s with cur := { s.cur with product := value } }) hc .revision (hturn _ rfl rfl) hb
      (@Pieces.append _ _ _ SiiField.product.before _ _ _ hw (.single hv))
  | revision =>
    exact progress_readNext (s := { s with cur := { s.cur with revision := value } }) hc .rxMbox (hturn _ rfl rfl) hb
      (@Pieces.append _ _ _ SiiField.revision.before _ _ _ hw (.single hv))
  | rxMbox =>
    exact progress_readNext (s := { s with cur := { s.cur with rxMbox := value } }) hc .txMbox (hturn _ rfl rfl) hb
      (@Pieces.append _ _ _ SiiField.rxMbox.before _ _ _ hw (.single hv))
  | txMbox =>
    exact progress_readNext (s := { s with cur := { s.cur with txMbox := value } }) hc .protocols (hturn _ rfl rfl) hb
      (@Pieces.append _ _ _ SiiField.txMbox.before _ _ _ hw (.single hv))
  | protocols =>
    have hf := progress_finishSlave ht (slaveScan_info hb hw hv)
    simp only [← List.append_assoc] at hf ⊢
    exact hf

section Stages

variable {count : UInt16} {x : Exchange} {cur : Cur} {sii : Sii} {published : List SlaveInfo} {base log : Exchanged}
  {k : Link}

def Goes (published : List SlaveInfo) (base log : Exchanged) (k : Link) (s : ScanFsm) : Prop :=
  s.Progress published log → k.log = base ++ log → (∀ x ∈ (s.step k).2.log, KeepsLength x) →
    Scans published base log (s.step k)

theorem goes_count : Goes published base log k ⟨.count, count, x, cur, sii, none⟩ := by
  rintro ⟨hopen, rfl, rfl⟩ hk hl
  refine scans_poll rfl hopen hk (fun y hy => ⟨hy, rfl, rfl⟩) (fun rx reply hp _ => ?_) hl
  have hcounted : Counted reply.workingCounter [([countRead], .ok rx)] := .intro hp rfl
  by_cases hz : reply.workingCounter = 0
  · rw [if_pos hz]
    exact ⟨rfl, _, _, [], [], rfl, hcounted, Or.inl rfl, rfl, nofun, by rw [hz]; rfl⟩
  · rw [if_neg hz]
    exact ⟨rfl, Exchange.open_idle _, rfl, hz, hcounted⟩

theorem goes_clear : Goes published base log k ⟨.clear, count, x, cur, sii, none⟩ := by
  rintro ⟨hopen, rfl, hz, hcounted⟩ hk hl
  refine scans_poll rfl hopen hk (fun y hy => ⟨hy, rfl, hz, hcounted⟩)
    (fun rx reply hp _ => ⟨rfl, Exchange.open_idle _, ?_⟩) hl
  have hpos : 0 < count.toNat := Nat.pos_of_ne_zero fun h0 => hz (UInt16.toNat_inj.mp h0)
  exact ⟨⟨_, [], (List.append_nil _).symm, ⟨_, _, rfl, hcounted, hz, .intro hp trivial⟩, rfl⟩, nofun, rfl, rfl,
    lt_min hpos (by decide)⟩

theorem goes_apwr : Goes published base log k ⟨.apwr, count, x, cur, sii, none⟩ := by
  rintro ⟨hopen, ht⟩ hk hl
  refine scans_poll rfl hopen hk (fun y hy => ⟨hy, ht⟩) (fun rx reply hp _ => ?_) hl
  by_cases hw : reply.workingCounter = 1
  · rw [if_neg (not_not.mpr hw)]
    exact ⟨rfl, Exchange.open_idle _, log, _, rfl, ht, .intro hp hw⟩
  · rw [if_pos hw]
    exact refused_of_reply hp (Or.inl ⟨rfl, hw⟩)

theorem goes_al : Goes published base log k ⟨.al, count, x, cur, sii, none⟩ := by
  rintro ⟨hopen, l, apwr, rfl, ht, ha⟩ hk hl
  refine scans_poll rfl hopen hk (fun y hy => ⟨hy, l, apwr, rfl, ht, ha⟩) (fun rx reply hp hkeep => ?_) hl
  by_cases hw : reply.workingCounter = 1
  · rw [if_neg (not_not.mpr hw)]
    have hal := getElem?_take_reply (n := 2) (i := 0) (hkeep reply hp) (by decide) (by decide)
    refine ⟨rfl, Exchange.open_idle _, l, apwr, _, rfl, ⟨ht.scans, ht.inOrder, ht.ringPos, ht.station, ht.below⟩, ha,
      .intro hp ⟨hw, ?_⟩⟩
    rw [hal, Option.map_some, headD_eq_getD]
    rfl
  · rw [if_pos hw]
    exact refused_of_reply hp (Or.inr (Or.inl ⟨rfl, Or.inl rfl, hw⟩))

theorem goes_dl : Goes published base log k ⟨.dl, count, x, cur, sii, none⟩ := by
  rintro ⟨hopen, l, apwr, status, rfl, ht, ha, hstatus⟩ hk hl
  refine scans_poll rfl hopen hk (fun y hy => ⟨hy, l, apwr, status, rfl, ht, ha, hstatus⟩) (fun rx reply hp hkeep => ?_) hl
  by_cases hw : reply.workingCounter = 1
  · rw [if_neg (not_not.mpr hw)]
    have hdata {i : ℕ} (hi : i < 12) : reply.data[i]? = some ((reply.data.take 16).getD i 0) :=
      getElem?_take_reply (n := 12) (hkeep reply hp) hi (by omega)
    have h₀ : reply.data[0]? = some ((reply.data.take 16).headD 0) := by rw [headD_eq_getD]; exact hdata (by decide)
    have h₄ := hdata (show 4 < 12 by decide)
    have h₅ := hdata (show 5 < 12 by decide)
    generalize (reply.data.take 16).headD 0 = b₀ at h₀ ⊢
    generalize (reply.data.take 16).getD 4 0 = b₄ at h₄ ⊢
    generalize (reply.data.take 16).getD 5 0 = b₅ at h₅ ⊢
    have hturn : InTurn count { cur with baseType := b₀, baseFmmuCount := b₄, baseSyncCount := b₅ } published l :=
      ⟨ht.scans, ht.inOrder, ht.ringPos, ht.station, ht.below⟩
    have hn := progress_readNext
      (s := ⟨.dl, count, .idle, { cur with baseType := b₀, baseFmmuCount := b₄, baseSyncCount := b₅ }, sii, none⟩)
      rfl .vendor hturn ⟨ha, hstatus, .intro hp ⟨hw, h₀, h₄, h₅⟩⟩ rfl
    change Progress _ (published ++ []) _ at hn
    rw [List.append_nil, List.append_nil] at hn
    exact ⟨rfl, hn⟩
  · rw [if_pos hw]
    exact refused_of_reply hp (Or.inr (Or.inl ⟨rfl, Or.inr rfl, hw⟩))

theorem goes_sii {field : SiiField} : Goes published base log k ⟨.sii field, count, x, cur, sii, none⟩ := by
  rintro ⟨hword, l, apwr, status, basic, words, p, rfl, ht, hb, hw, hp⟩ hk -
  have hk' : k.log = (base ++ (l ++ apwr ++ status ++ basic ++ words)) ++ p := by rw [hk, ← List.append_assoc]
  have hr := hp.step hk'
  change Scans published base _ (nested (sii.step cur.station k) _ _)
  rw [nested]
  generalize sii.step cur.station k = r at hr ⊢
  obtain ⟨r, k'⟩ := r
  rcases hr with ⟨sii', log', rfl, hword', hlog, hp'⟩ | ⟨sii', log', rfl, hlog, hread⟩ | ⟨e, z, rfl, hlog, hz⟩
  · refine Or.inl ⟨_, l ++ apwr ++ status ++ basic ++ words ++ log', rfl, ?_, ?_⟩
    · rw [hlog, List.append_assoc]
    · change Progress _ (published ++ []) _
      rw [List.append_nil]
      exact ⟨hword'.trans hword, l, apwr, status, basic, words, log', rfl, ht, hb, hw, hp'⟩
  · rw [show sii.word = eepromWord field from hword] at hread
    have ha := progress_applySii (s := ⟨.sii field, count, x, cur, sii', none⟩) rfl ht hb hw hread
    refine Or.inl ⟨_, _, rfl, ?_, ha⟩
    rw [hlog]
    simp only [List.append_assoc]
  · refine Or.inr (Or.inr ⟨e, z, rfl, ?_, ?_⟩)
    · rw [hlog]
      simp only [List.append_assoc]
    · simp only [List.append_assoc] at hz ⊢
      exact hz

end Stages

theorem Progress.step {s : ScanFsm} {published : List SlaveInfo} {base log : Exchanged} (h : s.Progress published log)
    (hc : s.completed = none) {k : Link} (hk : k.log = base ++ log) (hl : ∀ x ∈ (s.step k).2.log, KeepsLength x) :
    Scans published base log (s.step k) := by
  obtain ⟨stage, count, x, cur, sii, completed⟩ := s
  obtain rfl : completed = none := hc
  cases stage with
  | count => exact goes_count h hk hl
  | clear => exact goes_clear h hk hl
  | apwr => exact goes_apwr h hk hl
  | al => exact goes_al h hk hl
  | dl => exact goes_dl h hk hl
  | sii field => exact goes_sii h hk hl
  | done => exact Or.inr (Or.inl ⟨_, rfl, hk, rfl, h, h⟩)

end ScanFsm

end EcMaster

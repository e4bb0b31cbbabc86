import AdBlock.Stats.Decode
import AdBlock.Stats.Resume
import Mathlib.Algebra.Order.Group.Multiset
import Mathlib.Tactic.Abel

/-!
# Details of requests

What was captured of a request is found by its number in the log of details.  While the process
runs, every number is that of one request, which is about to be sent, is open, or has its line in
the log (`Numbered`).  So the line that is found is the one that the request left
(`storedDetail_of_line`), and a body that was packed is decoded from the bytes that were kept of it
(`decodeCapturedBody_of_line`).
-/

namespace SharedState

variable (S : SerdeJson)

def storedDetail (st : SharedState) (seq : UInt64) : RequestDetail :=
  (do
    let line ← (st.logs .requestDetail).log.find fun l => lineSeq S l = some seq.toNat
    let v ← S.fromStr line
    RequestDetail.fromJson v).getD { seq }

def decodeCapturedBody (B : BodyText) (D : Decode.Decoders) (st : SharedState) (seq : UInt64)
    (slot : Text) : BodyDecode :=
  let detail := st.storedDetail S seq
  let decode (raw : Text) : BodyDecode :=
    if raw.isEmpty then .noData else Decode.decodeCaptured B D raw
  if slot = "req".toList then decode detail.reqBodyRaw
  else if slot = "resp".toList then decode detail.respBodyRaw
  else .unknownSlot

/-! ### Numbers -/

variable {S} {st st' : SharedState} {a : Action} {details : List Logged}

/-- The numbers of the requests that are about to be sent, of the open exchanges and of the lines
with details. -/
def numbers (st : SharedState) (details : List Logged) : Multiset ℕ :=
  (st.begun.map (·.seq.toNat) : Multiset ℕ) + (st.exchanges.map (·.seq.toNat) : Multiset ℕ)
    + (details.map Logged.seq : Multiset ℕ)

/-- Every number is used once, and the next one is not used. -/
structure Numbered (st : SharedState) (details : List Logged) : Prop where
  nodup : (numbers st details).Nodup
  lt : ∀ n ∈ numbers st details, n < st.nextSeq.toNat

theorem numbered_start (rotate : ℕ) :
  Numbered (start S rotate) []
  where
  nodup := Multiset.nodup_zero
  lt n hn := absurd hn (Multiset.notMem_zero n)

/-- An entry of a list can be taken out and put in front. -/
theorem coe_map_eraseIdx {α : Type} (f : α → ℕ) {l : List α} {i : ℕ} {x : α}
    (h : l[i]? = some x) :
  (l.map f : Multiset ℕ) = f x ::ₘ ((l.eraseIdx i).map f : Multiset ℕ)
  := by
  obtain ⟨hi, rfl⟩ := List.getElem?_eq_some_iff.mp h
  rw [Multiset.cons_coe, Multiset.coe_eq_coe, ← List.map_cons]
  apply List.Perm.map
  symm
  apply List.getElem_cons_eraseIdx_perm

/-- The lines with details that a step sends. -/
def sentDetails (st : SharedState) (a : Action) : List Logged :=
  (st.sent a).toList.filter (·.log = .requestDetail)

theorem sentDetails_sendRequest {i : ℕ} {record : RequestRecord}
    (h : st.begun[i]? = some record) :
  st.sentDetails (.sendRequest i) = []
  := by
  rw [sentDetails, sent, h]
  rfl

theorem sentDetails_dropExchange {i : ℕ} {record : RequestRecord}
    (h : st.exchanges[i]? = some record) :
  st.sentDetails (.dropExchange i)
    = ((RequestDetail.fromRecord record).map (.detail · record.tsMs)).toList
  := by
  rw [sentDetails, sent, h, Option.bind_eq_bind, Option.bind_some]
  cases RequestDetail.fromRecord record with
  | none => rfl
  | some d => rfl

/-- The steps that are about no request. -/
def Action.keepsRequests : Action → Bool
  | .recordDns _ => true
  | .sendQuery _ => true
  | .write _ => true
  | .setRotateHours _ _ => true
  | _ => false

theorem step_keepsRequests (ha : a.keepsRequests = true) (h : step S st a = some st') :
  st'.begun = st.begun ∧ st'.exchanges = st.exchanges
    ∧ (st'.nextSeq = st.nextSeq ∨ st'.nextSeq = st.nextSeq + 1) ∧ st.sentDetails a = []
  := by
  cases a with
  | begin | sendRequest | attach | dropExchange | restart => cases ha
  | recordDns record =>
    cases h
    exact ⟨rfl, rfl, .inr rfl, rfl⟩
  | sendQuery i =>
    obtain ⟨record, hrecord, h⟩ := Option.bind_eq_some_iff.mp h
    cases h
    rw [sentDetails, sent, hrecord]
    exact ⟨rfl, rfl, .inl rfl, rfl⟩
  | write name =>
    obtain ⟨ch, -, h⟩ := Option.bind_eq_some_iff.mp h
    cases h
    exact ⟨rfl, rfl, .inl rfl, rfl⟩
  | setRotateHours name hours =>
    cases h
    exact ⟨rfl, rfl, .inl rfl, rfl⟩

/-- A step uses no new number, except that a request that begins takes the next one. -/
theorem numbers_step (details : List Logged) (hstep : step S st a = some st')
    (ha : ∀ hours, a ≠ .restart hours) :
  (numbers st' (details ++ st.sentDetails a) ≤ numbers st details
      ∧ (st'.nextSeq = st.nextSeq ∨ st'.nextSeq = st.nextSeq + 1))
    ∨ (numbers st' (details ++ st.sentDetails a) = st.nextSeq.toNat ::ₘ numbers st details
      ∧ st'.nextSeq = st.nextSeq + 1)
  := by
  by_cases hkeeps : a.keepsRequests = true
  · obtain ⟨hbegun, hexchanges, hnext, hsent⟩ := step_keepsRequests hkeeps hstep
    refine .inl ⟨le_of_eq ?_, hnext⟩
    rw [numbers, hbegun, hexchanges, hsent, List.append_nil, numbers]
  cases a with
  | recordDns | sendQuery | write | setRotateHours => exact absurd rfl hkeeps
  | restart hours => exact absurd rfl (ha hours)
  | begin kind facts status blockedBy ech nowMs =>
    cases hstep
    refine .inr ⟨?_, rfl⟩
    simp only [numbers, sentDetails, sent, List.map_append, List.map_cons, List.map_nil,
      ← Multiset.coe_add, Multiset.coe_singleton, ← Multiset.singleton_add, Option.toList_none,
      List.filter_nil, List.append_nil]
    abel
  | sendRequest i =>
    obtain ⟨record, hrecord, hst⟩ := Option.bind_eq_some_iff.mp hstep
    cases hst
    refine .inl ⟨le_of_eq ?_, .inl rfl⟩
    rw [sentDetails_sendRequest hrecord, List.append_nil, numbers, numbers,
      coe_map_eraseIdx _ hrecord, List.map_append, ← Multiset.coe_add, ← Multiset.singleton_add]
    simp only [List.map_cons, List.map_nil, Multiset.coe_singleton]
    abel
  | attach i slot text =>
    obtain ⟨record, hrecord, hst⟩ := Option.bind_eq_some_iff.mp hstep
    cases hst
    refine .inl ⟨le_of_eq ?_, .inl rfl⟩
    have hmap : (st.exchanges.set i (slot.apply record text)).map (·.seq.toNat)
        = st.exchanges.map (·.seq.toNat) := by
      obtain ⟨hi, rfl⟩ := List.getElem?_eq_some_iff.mp hrecord
      rw [List.map_set, seq_apply, ← List.map_set, List.set_getElem_self]
    simp [numbers, sentDetails, sent, hmap]
  | dropExchange i =>
    obtain ⟨record, hrecord, hst⟩ := Option.bind_eq_some_iff.mp hstep
    cases hst
    refine .inl ⟨?_, .inl ?_⟩
    · rw [sentDetails_dropExchange hrecord, numbers, numbers, coe_map_eraseIdx _ hrecord]
      simp only [persistDetail]
      cases hdetail : RequestDetail.fromRecord record with
      | none =>
        simp only [Option.map_none, Option.toList_none, List.append_nil]
        gcongr
        apply Multiset.le_cons_self
      | some d =>
        have hseq := seq_fromRecord hdetail
        apply le_of_eq
        simp only [send, Option.map_some, Option.toList_some, List.map_append, List.map_cons,
          List.map_nil, Logged.seq, hseq, ← Multiset.coe_add, Multiset.coe_singleton,
          ← Multiset.singleton_add]
        abel
    · rw [persistDetail]
      split <;> rfl

theorem toNat_nextSeq_add_one (hroom : st.nextSeq.toNat + 1 < 2 ^ 64) :
  (st.nextSeq + 1).toNat = st.nextSeq.toNat + 1
  := by
  rw [UInt64.toNat_add]
  exact Nat.mod_eq_of_lt hroom

theorem Numbered.anti {details' : List Logged} (h : Numbered st details)
    (hle : details'.Sublist details) :
  Numbered st details'
  := by
  have hle : numbers st details' ≤ numbers st details := by
    rw [numbers, numbers]
    gcongr
    apply Multiset.coe_le.mpr (hle.map _).subperm
  constructor
  · apply Multiset.nodup_of_le hle h.nodup
  · intro n hn
    apply h.lt n (Multiset.mem_of_le hle hn)

theorem Numbered.step (h : Numbered st details) (hstep : SharedState.step S st a = some st')
    (ha : ∀ hours, a ≠ .restart hours) (hroom : st.nextSeq.toNat + 1 < 2 ^ 64) :
  Numbered st' (details ++ st.sentDetails a)
    ∧ st'.nextSeq.toNat ≤ st.nextSeq.toNat + 1
  := by
  have hnext := toNat_nextSeq_add_one hroom
  rcases numbers_step details hstep ha with ⟨hle, hseq⟩ | ⟨heq, hseq⟩
  · have hge : st.nextSeq.toNat ≤ st'.nextSeq.toNat ∧ st'.nextSeq.toNat ≤ st.nextSeq.toNat + 1 := by
      rcases hseq with hseq | hseq
      · rw [hseq]
        omega
      · rw [hseq, hnext]
        omega
    refine ⟨⟨Multiset.nodup_of_le hle h.nodup, ?_⟩, hge.2⟩
    intro n hn
    apply lt_of_lt_of_le (h.lt n (Multiset.mem_of_le hle hn)) hge.1
  · rw [hseq, hnext]
    refine ⟨⟨?_, ?_⟩, le_rfl⟩
    · rw [heq, Multiset.nodup_cons]
      refine ⟨?_, h.nodup⟩
      intro hmem
      exact lt_irrefl _ (h.lt _ hmem)
    · intro n hn
      rw [heq, Multiset.mem_cons] at hn
      rw [hseq, hnext]
      rcases hn with rfl | hn
      · omega
      · have := h.lt n hn
        omega

/-- At each point of a run without a restart, the logs hold records with different numbers. -/
theorem run_numbered (hS : S.Lawful) {actions : List Action} {lines : LogName → List Logged}
    (hrecorded : Recorded S st lines) (h : Numbered st (lines .requestDetail))
    (hrestart : ∀ hours, .restart hours ∉ actions)
    (hroom : st.nextSeq.toNat + actions.length < 2 ^ 64)
    (hrun : run S st actions = some st') :
  ∃ lines', Recorded S st' lines' ∧ Numbered st' (lines' .requestDetail)
  := by
  induction actions generalizing st lines with
  | nil =>
    cases hrun
    exact ⟨lines, hrecorded, h⟩
  | cons a actions ih =>
    rw [List.length_cons] at hroom
    rw [run, List.foldlM_cons] at hrun
    obtain ⟨st₁, hstep, hrun⟩ := Option.bind_eq_some_iff.mp hrun
    have ha : ∀ hours, a ≠ .restart hours := by
      rintro hours rfl
      exact hrestart hours List.mem_cons_self
    obtain ⟨lines₁, hrecorded₁, hkeeps⟩ := step_recorded hS hrecorded hstep
    obtain ⟨h₁, hnext⟩ := h.step hstep ha (by omega)
    apply ih hrecorded₁ (h₁.anti (hkeeps .requestDetail).suffix.sublist) _ _ hrun
    · intro hours hmem
      exact hrestart hours (List.mem_cons_of_mem a hmem)
    · omega

/-! ### What is found -/

theorem readDetail_line (hS : S.Lawful) (d : RequestDetail) (tsMs : UInt64) :
  (S.fromStr ((Logged.detail d tsMs).line S)).bind RequestDetail.fromJson = some d
  := by
  rw [Logged.fromStr_line_nil hS]
  exact d.fromJson_toJson

/-- A line with details that is in the files is found by its number. -/
theorem storedDetail_of_numbered (hS : S.Lawful) {lines : LogName → List Logged}
    (hrecorded : Recorded S st lines) (h : Numbered st (lines .requestDetail))
    (hflushed : st.Flushed) {d : RequestDetail} {tsMs : UInt64}
    (hline : (Logged.detail d tsMs).line S ∈ (st.logs .requestDetail).log.newestFirst) :
  st.storedDetail S d.seq = d
  := by
  have hnewest := (hrecorded .requestDetail).newestFirst hS (hflushed _ LogName.requestDetail.mem_all)
  rw [hnewest, List.mem_reverse] at hline
  obtain ⟨l, hl, hleq⟩ := List.mem_map.mp hline
  have hnodup : ((lines .requestDetail).map Logged.seq).Nodup := by
    have hle : ((lines .requestDetail).map Logged.seq : Multiset ℕ) ≤ numbers st (lines .requestDetail) :=
      Multiset.le_add_left _ _
    exact Multiset.coe_nodup.mp (Multiset.nodup_of_le hle h.nodup)
  have hseq : l.seq = d.seq.toNat := by
    have hl := l.lineSeq_line hS
    rw [hleq, Logged.lineSeq_line hS] at hl
    exact (Option.some.inj hl).symm
  -- another line with the number is this line
  have hfind : (st.logs .requestDetail).log.find (fun line => lineSeq S line = some d.seq.toNat)
      = some ((Logged.detail d tsMs).line S) := by
    rw [RotatingLog.find, hnewest]
    cases hfound : ((lines .requestDetail).map (Logged.line S)).reverse.find?
        (fun line => lineSeq S line = some d.seq.toNat) with
    | none =>
      have hnone := List.find?_eq_none.mp hfound _ (List.mem_reverse.mpr (List.mem_map_of_mem hl))
      rw [l.lineSeq_line hS, hseq] at hnone
      simp at hnone
    | some line =>
      obtain ⟨l', hl', rfl⟩ := List.mem_map.mp (List.mem_reverse.mp (List.mem_of_find?_eq_some hfound))
      have hseq' : lineSeq S (l'.line S) = some d.seq.toNat := by
        simpa using List.find?_some hfound
      rw [l'.lineSeq_line hS, ← hseq, Option.some.injEq] at hseq'
      rw [List.inj_on_of_nodup_map hnodup hl' hl hseq', hleq]
  rw [storedDetail, hfind, Option.bind_eq_bind, Option.bind_some]
  change ((S.fromStr ((Logged.detail d tsMs).line S)).bind RequestDetail.fromJson).getD _ = d
  rw [readDetail_line hS, Option.getD_some]

variable (S)

/-- The state of a process that was started on an empty directory, when all lines are written. -/
structure Settled (st : SharedState) : Prop where
  exists_run : ∃ rotate actions, run S (start S rotate) actions = some st
    ∧ (∀ hours, .restart hours ∉ actions) ∧ 1 + actions.length < 2 ^ 64
  flushed : st.Flushed

variable {S}

/-- What was captured of a request is found as long as its line is in the files. -/
theorem storedDetail_of_line (hS : S.Lawful) (h : Settled S st) {d : RequestDetail} {tsMs : UInt64}
    (hline : (Logged.detail d tsMs).line S ∈ (st.logs .requestDetail).log.newestFirst) :
  st.storedDetail S d.seq = d
  := by
  obtain ⟨rotate, actions, hrun, hrestart, hroom⟩ := h.exists_run
  obtain ⟨lines, hrecorded, hnumbered⟩ := run_numbered hS (recorded_start rotate)
    (numbered_start rotate) hrestart hroom hrun
  apply storedDetail_of_numbered hS hrecorded hnumbered h.flushed hline

end SharedState

/-! ### Bodies -/

/-- The two bodies of a request. -/
inductive BodySlot where
  | req
  | resp
  deriving DecidableEq, Repr

namespace BodySlot

/-- The name by which a body is asked for. -/
def name : BodySlot → Text
  | .req => "req".toList
  | .resp => "resp".toList

/-- How much is kept of a body. -/
def cap : BodySlot → ℕ
  | .req => Capture.reqBodyCap
  | .resp => Capture.respBodyCap

/-- The packed body in a record. -/
def raw : BodySlot → RequestRecord → Text
  | .req, record => record.reqBodyRaw
  | .resp, record => record.respBodyRaw

end BodySlot

/-- Capture one of the bodies of an exchange. -/
def OpenExchange.capture (B : BodyText) (ex : OpenExchange) (slot : BodySlot) (pre : Bytes) (total : ℕ)
    (contentEncoding : Text) : OpenExchange :=
  match slot with
  | .req => ex.captureRequestBody B pre total contentEncoding
  | .resp => ex.captureResponseBody B pre total contentEncoding

/-- Capturing a body puts what is kept of it into the record. -/
theorem OpenExchange.raw_capture (B : BodyText) {ex : OpenExchange} {slot : BodySlot}
    (hopen : ex.captures.map slot.raw = some []) (pre : Bytes) (total : ℕ) (contentEncoding : Text) :
  (ex.capture B slot pre total contentEncoding).captures.map slot.raw
    = some ((Capture.stored B pre total slot.cap contentEncoding).2.getD [])
  := by
  obtain ⟨record, hactive, hempty⟩ := Option.map_eq_some_iff.mp hopen
  cases slot with
  | req =>
    rw [capture, captureRequestBody, captureBody, isActive, hactive, BodySlot.cap]
    rcases Capture.stored B pre total Capture.reqBodyCap contentEncoding
      with ⟨body, _ | packed⟩
    · simpa [attach, hactive, CaptureSlot.apply, BodySlot.raw] using hempty
    · simp [attach, attachQuiet, hactive, CaptureSlot.apply, BodySlot.raw]
  | resp =>
    rw [capture, captureResponseBody_of_active B hactive, BodySlot.cap]
    change some (Option.getD _ (BodySlot.resp.raw record)) = _
    rw [hempty]

namespace Decode

/-- What is shown of a body, by the bytes that were kept of it.  A text is not packed. -/
def shown (B : BodyText) (D : Decoders) (pre : Bytes) (cap : ℕ) (contentEncoding : Text) : BodyDecode :=
  let kept := pre.take cap
  if Capture.labelOf contentEncoding = .identity then
    if 0 ∈ kept then .binary kept else .noData
  else classifyDecoded B (unpack D (Capture.labelOf contentEncoding) kept)

theorem isEmpty_pack (B : BodyText) (label : Capture.Label) (kept : Bytes) :
  (Capture.pack B label kept).isEmpty = false
  := by
  rw [Capture.pack, List.isEmpty_eq_false_iff]
  apply List.append_ne_nil_of_right_ne_nil
  apply List.cons_ne_nil

/-- What is stored of a body is decoded to what is to be shown of it. -/
theorem decode_stored {B : BodyText} (hB : B.Lawful) (D : Decoders) (pre : Bytes) (total cap : ℕ) (contentEncoding : Text) :
  (if ((Capture.stored B pre total cap contentEncoding).2.getD []).isEmpty then .noData
    else decodeCaptured B D ((Capture.stored B pre total cap contentEncoding).2.getD []))
    = shown B D pre cap contentEncoding
  := by
  have hkept : pre.take (min pre.length cap) = pre.take cap := by
    rw [Nat.min_comm, ← List.take_take, List.take_length]
  rw [Capture.stored, shown, hkept]
  by_cases hlabel : Capture.labelOf contentEncoding = .identity
  · rw [if_neg (not_not_intro hlabel), if_pos hlabel]
    by_cases hzero : 0 ∈ pre.take cap
    · have hne : ¬ (pre.take cap).isEmpty := by
        rw [List.isEmpty_iff]
        apply List.ne_nil_of_mem hzero
      rw [if_pos hzero, if_pos hzero, Option.getD_some, isEmpty_pack, if_neg Bool.false_ne_true,
        decodeCaptured_pack hB, hlabel, unpack, classifyDecoded, if_neg hne, if_pos hzero]
    · rw [if_neg hzero, if_neg hzero]
      rfl
  · rw [if_pos hlabel, if_neg hlabel, Option.getD_some, isEmpty_pack, if_neg Bool.false_ne_true,
      decodeCaptured_pack hB]

end Decode

namespace SharedState

variable {S : SerdeJson} {st : SharedState}

/-- Decoders that give nothing. -/
def silentDecoders : Decode.Decoders :=
  let silent : Decode.Reader := ⟨fun _ => .ok []⟩
  { gzDecoder := fun _ => silent
    zlibDecoder := fun _ => silent
    deflateDecoder := fun _ => silent
    decompressor := fun _ => silent
    streamingDecoder := fun _ => none }

/-- An encoding with one letter for each byte. -/
def letterText : BodyText where
  encodeBase64 bytes := bytes.map fun b => Char.ofNat (256 + b.toNat)
  decodeBase64 s := some (s.map fun c => UInt8.ofNat (c.toNat - 256))
  fromUtf8Lossy bytes := bytes.map fun b => Char.ofNat b.toNat

theorem lawful_letterText :
  letterText.Lawful
  where
  decode_encode := by
    intro bytes
    have hletter : ∀ n < 256, (Char.ofNat (256 + n)).toNat = 256 + n := by decide +kernel
    apply congrArg some
    dsimp only [letterText]
    rw [List.map_map]
    apply List.map_id''
    intro b
    rw [Function.comp_apply, hletter _ b.toNat_lt, Nat.add_sub_cancel_left, UInt8.ofNat_toNat]
  not_isWhitespace := by
    intro bytes c hc
    have hletter : ∀ n < 256, ¬ Unicode.isWhitespace (Char.ofNat (256 + n)) := by decide +kernel
    obtain ⟨b, -, rfl⟩ := List.mem_map.mp hc
    apply hletter _ b.toNat_lt

/-- An exchange that captures, with nothing captured yet. -/
def freshExchange : OpenExchange :=
  { seq := 1, live := false, captures := some { seq := 1, status := 200 } }

/-- The record of a request whose response has a zero byte. -/
def imageRecord : RequestRecord :=
  { seq := 1, status := 200, respBody := "[binary body — 3 bytes]".toList
    respBodyRaw := Capture.pack letterText .identity [1, 0, 2] }

/-- The request is recorded, its response is captured, and its lines are written. -/
def imageActions : List Action :=
  [.begin .forwarded {} 200 [] false 0, .sendRequest 0,
    .attach 0 .respBody "[binary body — 3 bytes]".toList,
    .attach 0 .respBodyRaw (Capture.pack letterText .identity [1, 0, 2]), .dropExchange 0, .write .requestLog,
    .write .requestDetail]

/-- The state after that. -/
def imageState : SharedState :=
  (run .reference (start .reference 24) imageActions).getD (start .reference 24)

theorem run_image :
  run .reference (start .reference 24) imageActions = some imageState
  := by
  have hsome : (run .reference (start .reference 24) imageActions).isSome := by decide +kernel
  obtain ⟨st, hst⟩ := Option.isSome_iff_exists.mp hsome
  rw [imageState, hst, Option.getD_some]

end SharedState

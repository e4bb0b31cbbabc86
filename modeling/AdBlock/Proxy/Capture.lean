import AdBlock.Stats.Capture

/-!
# Capturing a response as it is streamed

A response body is wrapped so that its frames go by unchanged while the first bytes of its data are
collected.  They are captured when the body ends, or else when the wrapper is dropped, and the
exchange is dropped after that.  So the response is captured once, before the line of the exchange
is sent to the detail log, and what is stored is the first part of the data that went by
(`CaptureBody.captured_once`).
-/

namespace Proxy

/-- `std::task::Poll`. -/
inductive Poll (α : Type) where
  | pending
  | ready (a : α)
  deriving DecidableEq, Repr

/-- A frame of a body. -/
inductive Frame (Trailers : Type) where
  | data (bytes : Bytes)
  | trailers (t : Trailers)
  deriving DecidableEq, Repr

/-- What a body answers when a frame is asked for. -/
abbrev Polled (Trailers Error : Type) :=
  Poll (Option (Except Error (Frame Trailers)))

structure CaptureBody where
  exchange : OpenExchange
  enc : Text
  cap : ℕ
  buf : Bytes
  total : ℕ
  flushed : Bool
  deriving DecidableEq, Repr

def streamResponse (exchange : OpenExchange) (enc : Text) : CaptureBody where
  cap := exchange.responseBodyCap
  exchange
  enc
  buf := []
  total := 0
  flushed := false

namespace CaptureBody

variable {Trailers Error : Type} (B : BodyText)

def flush (b : CaptureBody) : CaptureBody :=
  if b.flushed then b
  else
    { b with
      flushed := true
      exchange := b.exchange.captureResponseBody B b.buf b.total b.enc }

/-- Collect the data of a frame. -/
def tee (b : CaptureBody) (data : Bytes) : CaptureBody :=
  let b := { b with total := b.total + data.length }
  if b.buf.length < b.cap then
    { b with buf := b.buf ++ data.take (min (b.cap - b.buf.length) data.length) }
  else b

/-- Ask for a frame, when the wrapped body gives an answer. -/
def pollFrame (inner : Polled Trailers Error) (b : CaptureBody) :
    Polled Trailers Error × CaptureBody :=
  match inner with
  | .ready (some (.ok (.data data))) => (.ready (some (.ok (.data data))), b.tee data)
  | .ready none => (.ready none, b.flush B)
  | other => (other, b)

/-- Ask for frames, one after the other. -/
def pollFrames : List (Polled Trailers Error) → CaptureBody →
    List (Polled Trailers Error) × CaptureBody
  | [], b => ([], b)
  | inner :: rest, b =>
      let (frame, b) := b.pollFrame B inner
      let (frames, b) := b.pollFrames rest
      (frame :: frames, b)

/-- Drop the wrapper and then its exchange. -/
def drop (b : CaptureBody) : OpenExchange :=
  (b.flush B).exchange.drop

/-! ### The data that goes by -/

/-- The data in an answer. -/
def dataOf : Polled Trailers Error → Bytes
  | .ready (some (.ok (.data data))) => data
  | _ => []

/-- The body has ended. -/
def isEnd : Polled Trailers Error → Bool
  | .ready none => true
  | _ => false

/-- The data up to the end of the body. -/
def seen : List (Polled Trailers Error) → Bytes
  | [] => []
  | inner :: rest => if isEnd inner then [] else dataOf inner ++ seen rest

/-- The wrapper after some data. -/
def teed (ex : OpenExchange) (enc : Text) (data : Bytes) : CaptureBody where
  cap := ex.responseBodyCap
  exchange := ex
  enc
  buf := data.take ex.responseBodyCap
  total := data.length
  flushed := false

theorem streamResponse_eq (ex : OpenExchange) (enc : Text) :
  streamResponse ex enc = teed ex enc []
  := by
  rw [teed, List.take_nil]
  rfl

theorem tee_teed (ex : OpenExchange) (enc : Text) (data more : Bytes) :
  (teed ex enc data).tee more = teed ex enc (data ++ more)
  := by
  have hbuf : (data ++ more).take ex.responseBodyCap
      = data.take ex.responseBodyCap ++ more.take (ex.responseBodyCap - data.length) :=
    List.take_append
  simp only [tee, teed, hbuf, List.length_append, List.length_take]
  split
  next hlt =>
    have hlen : min ex.responseBodyCap data.length = data.length := by omega
    rw [hlen, ← List.take_eq_take_min]
  next hge =>
    have hfull : ex.responseBodyCap - data.length = 0 := by omega
    rw [hfull, List.take_zero, List.append_nil]

theorem pollFrame_fst (inner : Polled Trailers Error) (b : CaptureBody) :
  (b.pollFrame B inner).1 = inner
  := by
  fun_cases pollFrame B inner b with
  | case1 data => rfl
  | case2 => rfl
  | case3 other => rfl

/-- Before the end an answer adds its data. -/
theorem pollFrame_teed {inner : Polled Trailers Error} (h : isEnd inner = false)
    (ex : OpenExchange) (enc : Text) (data : Bytes) :
  ((teed ex enc data).pollFrame B inner).2 = teed ex enc (data ++ dataOf inner)
  := by
  revert h
  fun_cases pollFrame B inner (teed ex enc data) with
  | case1 more =>
    intro _
    apply tee_teed
  | case2 => exact fun h => nomatch h
  | case3 other hdata =>
    intro _
    have hempty : dataOf inner = [] := by
      revert hdata
      fun_cases dataOf inner with
      | case1 more => exact fun hdata => absurd rfl (hdata more)
      | case2 => exact fun _ => rfl
    rw [hempty, List.append_nil]

/-- At the end what was collected is captured. -/
theorem pollFrame_end {inner : Polled Trailers Error} (h : isEnd inner = true) (b : CaptureBody) :
  (b.pollFrame B inner).2 = b.flush B
  := by
  revert h
  fun_cases isEnd inner with
  | case1 => exact fun _ => rfl
  | case2 => exact fun h => nomatch h

/-- What was captured is not captured again. -/
theorem pollFrame_of_flushed (inner : Polled Trailers Error) {b : CaptureBody}
    (h : b.flushed = true) :
  (b.pollFrame B inner).2.exchange = b.exchange ∧ (b.pollFrame B inner).2.flushed = true
  := by
  fun_cases pollFrame B inner b with
  | case1 data =>
    rw [tee]
    split
    · exact ⟨rfl, h⟩
    · exact ⟨rfl, h⟩
  | case2 =>
    rw [flush, if_pos h]
    exact ⟨rfl, h⟩
  | case3 other => exact ⟨rfl, h⟩

/-! ### Whole bodies -/

theorem pollFrames_cons (inner : Polled Trailers Error) (rest : List (Polled Trailers Error))
    (b : CaptureBody) :
  (b.pollFrames B (inner :: rest)).2 = ((b.pollFrame B inner).2.pollFrames B rest).2
  := rfl

/-- The frames go by unchanged. -/
theorem pollFrames_fst (polls : List (Polled Trailers Error)) (b : CaptureBody) :
  (b.pollFrames B polls).1 = polls
  := by
  induction polls generalizing b with
  | nil => rfl
  | cons inner rest ih => exact congrArg₂ List.cons (pollFrame_fst B inner b) (ih _)

theorem pollFrames_of_flushed (polls : List (Polled Trailers Error)) {b : CaptureBody}
    (h : b.flushed = true) :
  (b.pollFrames B polls).2.exchange = b.exchange ∧ (b.pollFrames B polls).2.flushed = true
  := by
  induction polls generalizing b with
  | nil => exact ⟨rfl, h⟩
  | cons inner rest ih =>
    obtain ⟨hexchange, hflushed⟩ := pollFrame_of_flushed B inner h
    rw [pollFrames_cons, ← hexchange]
    exact ih hflushed

/-- While the body has not ended, its data is collected. -/
theorem pollFrames_teed (ex : OpenExchange) (enc : Text) (data : Bytes)
    {polls : List (Polled Trailers Error)} (h : polls.any isEnd = false) :
  ((teed ex enc data).pollFrames B polls).2 = teed ex enc (data ++ seen polls)
  := by
  induction polls generalizing data with
  | nil => exact congrArg (teed ex enc) (List.append_nil data).symm
  | cons inner rest ih =>
    rw [List.any_cons, Bool.or_eq_false_iff] at h
    rw [pollFrames_cons, pollFrame_teed B h.1, ih _ h.2, seen,
      if_neg (Bool.eq_false_iff.mp h.1), List.append_assoc]

/-- When the body has ended, its data was captured. -/
theorem pollFrames_ended (ex : OpenExchange) (enc : Text) (data : Bytes)
    {polls : List (Polled Trailers Error)} (h : polls.any isEnd = true) :
  ((teed ex enc data).pollFrames B polls).2.flushed = true
    ∧ ((teed ex enc data).pollFrames B polls).2.exchange
      = ((teed ex enc (data ++ seen polls)).flush B).exchange
  := by
  induction polls generalizing data with
  | nil => cases h
  | cons inner rest ih =>
    rw [pollFrames_cons]
    cases hend : isEnd inner with
    | true =>
      have hflushed : (((teed ex enc data).pollFrame B inner).2).flushed = true := by
        rw [pollFrame_end B hend]
        rfl
      obtain ⟨hexchange, hflushed⟩ := pollFrames_of_flushed B rest hflushed
      use hflushed
      rw [hexchange, pollFrame_end B hend, seen, if_pos hend, List.append_nil]
    | false =>
      rw [List.any_cons, hend, Bool.false_or] at h
      rw [seen, if_neg (Bool.eq_false_iff.mp hend), ← List.append_assoc, pollFrame_teed B hend]
      exact ih _ h

/-- The part of the data that is captured. -/
def captured (polls : List (Polled Trailers Error)) : Bytes :=
  (seen polls).take (min Capture.respBodyCap (seen polls).length)

/-- The form in which it is stored. -/
def storedBody (enc : Text) (polls : List (Polled Trailers Error)) : Text × Option Text :=
  Capture.stored B (captured polls) (seen polls).length Capture.respBodyCap enc

theorem flush_teed {ex : OpenExchange} {record : RequestRecord} (hactive : ex.captures = some record)
    (enc : Text) (polls : List (Polled Trailers Error)) :
  ((teed ex enc (seen polls)).flush B).exchange
    = ex.captureResponseBody B (captured polls) (seen polls).length enc
  := by
  have hcap : ex.responseBodyCap = Capture.respBodyCap := by
    rw [OpenExchange.responseBodyCap, OpenExchange.isActive, hactive]
    rfl
  rw [captured, ← List.take_eq_take_min, ← hcap]
  rfl

/-- An exchange that is dropped with its response: the response is captured and shown, and then the
line is sent. -/
theorem events_drop_captureResponseBody {ex : OpenExchange} {record : RequestRecord}
    (hactive : ex.captures = some record) (enc : Text) (polls : List (Polled Trailers Error)) :
  (ex.captureResponseBody B (captured polls) (seen polls).length enc).drop.events
    = ex.events
      ++ .captured (captured polls) (seen polls).length enc
      :: ((if ex.live then [.shown ex.seq .respBody (storedBody B enc polls).1] else [])
        ++ if ex.persists then
          (OpenExchange.detailLine
            (OpenExchange.withResponse record (storedBody B enc polls))).map .line
        else [])
  := by
  rw [OpenExchange.captureResponseBody_of_active B hactive, OpenExchange.drop]
  simp only [List.append_assoc, List.cons_append]
  rfl

/-- The wrapper captures what it has seen, if the body has ended or when it is dropped. -/
theorem drop_pollFrames {ex : OpenExchange} {record : RequestRecord}
    (hactive : ex.captures = some record) (enc : Text) (polls : List (Polled Trailers Error)) :
  ((teed ex enc []).pollFrames B polls).2.drop B
    = (ex.captureResponseBody B (captured polls) (seen polls).length enc).drop
  := by
  rw [← flush_teed B hactive]
  cases hend : polls.any isEnd with
  | true =>
    obtain ⟨hflushed, hexchange⟩ := pollFrames_ended B ex enc [] hend
    rw [drop, flush, if_pos hflushed, hexchange]
    rfl
  | false =>
    rw [pollFrames_teed B ex enc [] hend]
    rfl

/-- The frames of the body go by unchanged, and the response of an active exchange is captured
once, when the body ends or else when the wrapper is dropped, before the line of the exchange is
sent.  What is captured is the first part of the data that went by till then, and a plain body is
stored as its text, with a note if it is longer. -/
theorem captured_once {ex : OpenExchange} {record : RequestRecord}
    (hactive : ex.captures = some record) (enc : Text) (polls : List (Polled Trailers Error)) :
  ((streamResponse ex enc).pollFrames B polls).1 = polls
    ∧ (((streamResponse ex enc).pollFrames B polls).2.exchange
      = if polls.any isEnd then
          ex.captureResponseBody B (captured polls) (seen polls).length enc
        else ex)
    ∧ (((streamResponse ex enc).pollFrames B polls).2.drop B).events
      = ex.events
        ++ .captured (captured polls) (seen polls).length enc
        :: ((if ex.live then [.shown ex.seq .respBody (storedBody B enc polls).1] else [])
          ++ if ex.persists then
            (OpenExchange.detailLine
              (OpenExchange.withResponse record (storedBody B enc polls))).map .line
          else [])
    ∧ (Capture.labelOf enc = .identity → 0 ∉ captured polls →
      storedBody B enc polls
        = (B.fromUtf8Lossy (captured polls)
            ++ (if (seen polls).length > Capture.respBodyCap then
              Capture.truncationNote (seen polls).length
            else []),
          none))
  := by
  rw [streamResponse_eq]
  refine ⟨pollFrames_fst B polls _, ?_, ?_, ?_⟩
  · cases hend : polls.any isEnd with
    | true =>
      rw [if_pos rfl, ← flush_teed B hactive]
      exact (pollFrames_ended B ex enc [] hend).2
    | false =>
      rw [pollFrames_teed B ex enc [] hend]
      rfl
  · rw [drop_pollFrames B hactive]
    apply events_drop_captureResponseBody B hactive
  · intro hlabel hzero
    apply Capture.stored_identity B _ hlabel hzero
    rw [captured, List.length_take]
    omega

/-- A codec that reads each byte as a character and leaves bytes as they are. -/
def byteText : BodyText where
  encodeBase64 bytes := bytes.map fun b => Char.ofNat b.toNat
  decodeBase64 s := some (s.map fun c => UInt8.ofNat c.toNat)
  fromUtf8Lossy bytes := bytes.map fun b => Char.ofNat b.toNat

/-- Two frames of data, with a pause, trailers and the end after them. -/
def greeting : List (Polled Unit Unit) :=
  [.ready (some (.ok (.data [104]))), .pending, .ready (some (.ok (.data [105]))),
    .ready (some (.ok (.trailers ()))), .ready none]

/-- A watched exchange whose response says `hi`. -/
theorem captured_once_greeting :
  storedBody byteText [] greeting = ("hi".toList, none)
    ∧ (((streamResponse ⟨⟨7, true, some { seq := 7 }⟩, true, []⟩ []).pollFrames byteText
        greeting).2.drop byteText).events
      = [.captured [104, 105] 2 [], .shown 7 .respBody "hi".toList,
        .line (.detail { seq := 7, respBody := "hi".toList } 0)]
  := by
  obtain ⟨-, -, hevents, hstored⟩ := @captured_once _ _ byteText
    ⟨⟨7, true, some { seq := 7 }⟩, true, []⟩ { seq := 7 } rfl [] greeting
  constructor
  · rw [hstored (by decide +kernel) (by decide +kernel)]
    decide +kernel
  · rw [hevents]
    decide +kernel

end CaptureBody

end Proxy

import AdBlock.Stats.Ledger
import AdBlock.Rust.Bytes

/-!
# Captured bodies

The form in which a captured body is stored, and the exchange that collects what is captured of a
request.  A body in a known encoding is stored as a note and packed, and so is a body with a zero
byte.  Any other body is stored as text.  When an exchange is dropped, what it collected is sent to
the detail log.
-/

/-- What is used of the `base64` crate and of `String`. -/
structure BodyText where
  /-- `STANDARD.encode`. -/
  encodeBase64 : Bytes → Text
  /-- `STANDARD.decode`. -/
  decodeBase64 : Text → Option Bytes
  /-- `String::from_utf8_lossy`. -/
  fromUtf8Lossy : Bytes → Text

namespace Capture

def reqBodyCap : ℕ := 16 * 1024

def respBodyCap : ℕ := 64 * 1024

/-! ### The stored form -/

inductive Label where
  | gzip
  | deflate
  | br
  | zstd
  | identity
  deriving DecidableEq, Repr

def Label.name : Label → Text
  | .gzip => "gzip".toList
  | .deflate => "deflate".toList
  | .br => "br".toList
  | .zstd => "zstd".toList
  | .identity => "identity".toList

/-- The outermost encoding, which stands last.  One that is not known counts as none. -/
def labelOf (contentEncoding : Text) : Label :=
  let last := Text.toAsciiLowercase
    (((contentEncoding.splitOn ',').map Text.trim).getLast?.getD [])
  if last = "gzip".toList ∨ last = "x-gzip".toList then .gzip
  else if last = "deflate".toList then .deflate
  else if last = "br".toList then .br
  else if last = "zstd".toList then .zstd
  else .identity

variable (B : BodyText)

def pack (label : Label) (bytes : Bytes) : Text :=
  label.name ++ '\n' :: B.encodeBase64 bytes

/-- The note at the end of a text that is not the whole body. -/
def truncationNote (total : ℕ) : Text :=
  "\n… [truncated — ".toList ++ Nat.toDigits 10 total ++ " bytes total]".toList

def render (kept : Bytes) (total cap : ℕ) : Text :=
  if 0 ∈ kept then "[binary body — ".toList ++ Nat.toDigits 10 total ++ " bytes]".toList
  else B.fromUtf8Lossy kept ++ if total > cap then truncationNote total else []

/-- The text to show, and what is kept for decoding. -/
def stored (pre : Bytes) (total cap : ℕ) (contentEncoding : Text) : Text × Option Text :=
  let label := labelOf contentEncoding
  let kept := pre.take (min pre.length cap)
  if label ≠ .identity then
    ("[compressed body — ".toList ++ label.name ++ ", ".toList ++ Nat.toDigits 10 total
        ++ " bytes]".toList,
      some (pack B label kept))
  else (render B kept total cap, if 0 ∈ kept then some (pack B label kept) else none)

/-- A body without an encoding and without a zero byte is stored as text only. -/
theorem stored_identity {pre : Bytes} {total cap : ℕ} {contentEncoding : Text}
    (hcap : pre.length ≤ cap) (hlabel : labelOf contentEncoding = .identity) (hzero : 0 ∉ pre) :
  stored B pre total cap contentEncoding
    = (B.fromUtf8Lossy pre ++ (if total > cap then truncationNote total else []), none)
  := by
  have hkept : pre.take (min pre.length cap) = pre := by
    rw [Nat.min_eq_left hcap, List.take_length]
  rw [stored, hkept, hlabel, if_neg (not_not_intro rfl), render, if_neg hzero, if_neg hzero]

end Capture

/-! ### Exchanges -/

namespace OpenExchange

/-- What happens in an exchange that can be seen outside of it. -/
inductive Event where
  /-- The response body is captured. -/
  | captured (pre : Bytes) (total : ℕ) (contentEncoding : Text)
  /-- What was captured is shown on a dashboard. -/
  | shown (seq : UInt64) (slot : CaptureSlot) (text : Text)
  /-- A line is sent to the detail log. -/
  | line (l : Logged)
  deriving DecidableEq, Repr

end OpenExchange

/-- An exchange, and what happened in it. -/
structure OpenExchange extends Exchange where
  /-- There is a detail log. -/
  persists : Bool := true
  /-- What happened so far. -/
  events : List OpenExchange.Event := []
  deriving DecidableEq, Repr

namespace OpenExchange

def isActive (ex : OpenExchange) : Bool :=
  ex.captures.isSome

def responseBodyCap (ex : OpenExchange) : ℕ :=
  if ex.isActive then Capture.respBodyCap else 0

def attach (ex : OpenExchange) (slot : CaptureSlot) (text : Text) : OpenExchange :=
  match ex.captures with
  | none => ex
  | some record =>
      { ex with
        captures := some (slot.apply record text)
        events := ex.events ++ if ex.live then [.shown ex.seq slot text] else [] }

/-- Attach what is not shown. -/
def attachQuiet (ex : OpenExchange) (slot : CaptureSlot) (text : Text) : OpenExchange :=
  match ex.captures with
  | none => ex
  | some record => { ex with captures := some (slot.apply record text) }

variable (B : BodyText)

def captureBody (ex : OpenExchange) (disp raw : CaptureSlot) (pre : Bytes) (total cap : ℕ)
    (contentEncoding : Text) : OpenExchange :=
  if !ex.isActive then ex
  else
    match Capture.stored B pre total cap contentEncoding with
    | (body, packed) =>
        let ex := ex.attach disp body
        match packed with
        | some packed => ex.attachQuiet raw packed
        | none => ex

def captureRequestBody (ex : OpenExchange) (pre : Bytes) (total : ℕ) (contentEncoding : Text) :
    OpenExchange :=
  ex.captureBody B .reqBody .reqBodyRaw pre total Capture.reqBodyCap contentEncoding

def captureResponseBody (ex : OpenExchange) (pre : Bytes) (total : ℕ) (contentEncoding : Text) :
    OpenExchange :=
  ({ ex with events := ex.events ++ [Event.captured pre total contentEncoding] }).captureBody B
    .respBody .respBodyRaw pre total Capture.respBodyCap contentEncoding

/-- The line of a record in the detail log, if anything was captured. -/
def detailLine (record : RequestRecord) : List Logged :=
  ((RequestDetail.fromRecord record).map (Logged.detail · record.tsMs)).toList

/-- Drop an exchange, which sends what it collected to the detail log. -/
def drop (ex : OpenExchange) : OpenExchange :=
  match ex.captures with
  | none => ex
  | some record =>
      { ex with
        events := ex.events ++ if ex.persists then (detailLine record).map .line else [] }

/-- The line that is sent is the one of the shared state. -/
theorem persistDetail_eq (S : SerdeJson) (st : SharedState) (record : RequestRecord) :
  st.persistDetail S record = (detailLine record).foldl (SharedState.send S) st
  := by
  rw [SharedState.persistDetail, detailLine]
  cases RequestDetail.fromRecord record with
  | none => rfl
  | some d => rfl

/-- The record with a stored response body. -/
def withResponse (record : RequestRecord) (body : Text × Option Text) : RequestRecord :=
  { record with respBody := body.1, respBodyRaw := body.2.getD record.respBodyRaw }

/-- Capturing the response puts its stored form into the record and shows the text. -/
theorem captureResponseBody_of_active {ex : OpenExchange} {record : RequestRecord}
    (hactive : ex.captures = some record) (pre : Bytes) (total : ℕ) (contentEncoding : Text) :
  ex.captureResponseBody B pre total contentEncoding
    = { ex with
        captures := some (withResponse record
          (Capture.stored B pre total Capture.respBodyCap contentEncoding))
        events := ex.events ++ .captured pre total contentEncoding
          :: if ex.live then
            [.shown ex.seq .respBody
              (Capture.stored B pre total Capture.respBodyCap contentEncoding).1]
          else [] }
  := by
  obtain ⟨⟨seq, live, _⟩, persists, events⟩ := ex
  cases hactive
  rw [captureResponseBody, captureBody]
  rcases Capture.stored B pre total Capture.respBodyCap contentEncoding with ⟨body, packed⟩
  cases packed with
  | none => simp [isActive, attach, withResponse, CaptureSlot.apply]
  | some packed => simp [isActive, attach, attachQuiet, withResponse, CaptureSlot.apply]

end OpenExchange

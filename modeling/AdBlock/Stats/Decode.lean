import AdBlock.Stats.Capture

/-!
# Decoding captured bodies

A body that was packed is unpacked when it is asked for.  A decoder is read into a buffer again and
again, until it ends, fails or has given enough.  What comes out does not depend on how much each
read gives (`readCapped_eq_output`), and what was packed is decoded from exactly the bytes that were kept
(`decodeCaptured_pack`).
-/

/-- What is assumed of the `base64` crate. -/
structure BodyText.Lawful (B : BodyText) : Prop where
  /-- What is encoded is decoded. -/
  decode_encode (bytes : Bytes) : B.decodeBase64 (B.encodeBase64 bytes) = some bytes
  /-- No character of an encoding is white space. -/
  not_isWhitespace {bytes : Bytes} {c : Char} (h : c ∈ B.encodeBase64 bytes) :
    ¬ Unicode.isWhitespace c

/-- What becomes of a body that is asked for. -/
inductive BodyDecode where
  | text (s : Text)
  | binary (bytes : Bytes)
  | noData
  | unknownSlot
  deriving DecidableEq, Repr

namespace Decode

def decodeCap : ℕ := 512 * 1024

/-- What a decoder gives, read by read. -/
structure Reader where
  read : ℕ → Except Unit Bytes

/-- What is used of the `flate2`, `brotli` and `ruzstd` crates. -/
structure Decoders where
  gzDecoder : Bytes → Reader
  zlibDecoder : Bytes → Reader
  deflateDecoder : Bytes → Reader
  decompressor : Bytes → Reader
  streamingDecoder : Bytes → Option Reader

/-- Read on, with what was read so far. -/
def readLoop (r : Reader) (i : ℕ) (out : Bytes) : Bytes :=
  if out.length < decodeCap then
    match r.read i with
    | .ok [] => out
    | .ok (b :: chunk) => readLoop r (i + 1) (out ++ b :: chunk)
    | .error _ => out
  else out
termination_by decodeCap - out.length
decreasing_by
  rw [List.length_append, List.length_cons]
  omega

def readCapped (r : Reader) : Bytes :=
  (readLoop r 0 []).take decodeCap

variable (B : BodyText) (D : Decoders)

def decompress (bytes : Bytes) (label : Text) : Bytes :=
  let label := Text.toAsciiLowercase (Text.trim label)
  if label = "gzip".toList ∨ label = "x-gzip".toList then readCapped (D.gzDecoder bytes)
  else if label = "deflate".toList then
    let zlib := readCapped (D.zlibDecoder bytes)
    if zlib.isEmpty then readCapped (D.deflateDecoder bytes) else zlib
  else if label = "br".toList then readCapped (D.decompressor bytes)
  else if label = "zstd".toList then ((D.streamingDecoder bytes).map readCapped).getD []
  else bytes

/-- The note at the end of a text that was cut. -/
def capNote : Text :=
  "\n… [truncated — ".toList ++ Nat.toDigits 10 decodeCap ++ " bytes decompressed shown]".toList

def classifyDecoded (bytes : Bytes) : BodyDecode :=
  if bytes.isEmpty then
    .text "[nothing decoded — the captured prefix was incomplete]".toList
  else if 0 ∈ bytes then .binary bytes
  else .text (B.fromUtf8Lossy bytes ++ if decodeCap ≤ bytes.length then capNote else [])

def decodeCaptured (raw : Text) : BodyDecode :=
  match Text.splitOnce raw '\n' with
  | none => .text "[cannot decode — malformed capture]".toList
  | some (label, b64) =>
      match B.decodeBase64 (Text.trim b64) with
      | none => .text "[cannot decode — bad base64]".toList
      | some compressed => classifyDecoded B (decompress D compressed label)

/-! ### Reading a decoder -/

variable {B D}

/-- What the `n` reads from `i` on give, up to one that gives nothing or fails. -/
def Reader.bytes (r : Reader) : (n i : ℕ) → Bytes
  | 0, _ => []
  | n + 1, i =>
      match r.read i with
      | .ok [] => []
      | .ok (b :: chunk) => b :: chunk ++ r.bytes n (i + 1)
      | .error _ => []

/-- Reading on appends what the next reads give, as far as it is used. -/
theorem take_readLoop (r : Reader) {n i : ℕ} {out : Bytes} (hn : decodeCap ≤ out.length + n) :
  (readLoop r i out).take decodeCap = (out ++ r.bytes n i).take decodeCap
  := by
  induction n generalizing i out with
  | zero =>
    rw [readLoop, if_neg (by omega), Reader.bytes, List.append_nil]
  | succ n ih =>
    rw [readLoop, Reader.bytes]
    by_cases hlt : out.length < decodeCap
    · rw [if_pos hlt]
      rcases r.read i with e | _ | ⟨b, chunk⟩
      · rw [List.append_nil]
      · rw [List.append_nil]
      · dsimp only
        rw [ih, List.append_assoc]
        rw [List.length_append, List.length_cons]
        omega
    · rw [if_neg hlt, List.take_append_of_le_length (by omega)]

/-! ### What was packed -/

/-- What a decoder gives, as far as it is used. -/
def Reader.output (r : Reader) : Bytes :=
  (r.bytes decodeCap 0).take decodeCap

/-- The bytes behind those that were kept, by the encoding. -/
def unpack (D : Decoders) : Capture.Label → Bytes → Bytes
  | .gzip, kept => (D.gzDecoder kept).output
  | .deflate, kept =>
      if (D.zlibDecoder kept).output = [] then (D.deflateDecoder kept).output
      else (D.zlibDecoder kept).output
  | .br, kept => (D.decompressor kept).output
  | .zstd, kept => ((D.streamingDecoder kept).map Reader.output).getD []
  | .identity, kept => kept

/-- A decoder gives the first bytes of all that it gives, however many reads that takes. -/
theorem readCapped_eq_output (r : Reader) :
  readCapped r = r.output
  := take_readLoop r (Nat.le_add_left _ _)

/-- The name of an encoding is the one that its decoder goes by. -/
theorem decompress_name (label : Capture.Label) (kept : Bytes) :
  decompress D kept label.name = unpack D label kept
  := by
  have hname : ∀ label : Capture.Label,
      Text.toAsciiLowercase (Text.trim label.name) = label.name := by
    intro label
    cases label <;> decide +kernel
  rw [decompress, hname]
  cases label with
  | gzip => exact (if_pos (.inl rfl)).trans (readCapped_eq_output _)
  | deflate =>
    rw [if_neg (by decide), if_pos (by decide), unpack]
    simp only [readCapped_eq_output, List.isEmpty_iff]
  | br =>
    rw [if_neg (by decide), if_neg (by decide), if_pos (by decide), unpack, readCapped_eq_output]
  | zstd =>
    rw [if_neg (by decide), if_neg (by decide), if_neg (by decide), if_pos (by decide), unpack]
    congr 2
    funext r
    apply readCapped_eq_output
  | identity =>
    rw [if_neg (by decide), if_neg (by decide), if_neg (by decide), if_neg (by decide), unpack]

/-- What was packed is decoded from the bytes that were kept. -/
theorem decodeCaptured_pack (hB : B.Lawful) (label : Capture.Label) (kept : Bytes) :
  decodeCaptured B D (Capture.pack B label kept) = classifyDecoded B (unpack D label kept)
  := by
  have hsplit : Text.splitOnce (Capture.pack B label kept) '\n'
      = some (label.name, B.encodeBase64 kept) := by
    apply Text.splitOnce_append
    cases label <;> decide
  have htrim : Text.trim (B.encodeBase64 kept) = B.encodeBase64 kept := by
    apply Text.trim_of_forall
    intro c hc
    simpa using hB.not_isWhitespace hc
  rw [decodeCaptured, hsplit]
  dsimp only
  rw [htrim, hB.decode_encode]
  dsimp only
  rw [decompress_name]

end Decode

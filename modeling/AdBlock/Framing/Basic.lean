import AdBlock.Rust.Bytes

/-!
# Frames on a stream of bytes

A payload is sent with its length in front, as two bytes, the high one first.  A decoder takes
the bytes of a stream one by one.  `Expects d bytes payload` says that a decoder is in the middle
of a frame: with exactly the given bytes it gets the payload (`Expects.step`).
-/

namespace Framing

/-- The payloads that can be sent are shorter than that. -/
def maxLength : ℕ := 65536

/-- A payload with its length in front. -/
def frame (payload : Bytes) : Bytes :=
  UInt8.ofNat (payload.length / 256) :: UInt8.ofNat payload.length :: payload

/-- What was read of a frame: nothing, the high byte of the length, or the length and some bytes
of the payload, of which others are missing. -/
inductive Decoder where
  | start
  | high (byte : UInt8)
  | body (missing : ℕ) (got : Bytes)
  deriving DecidableEq, Repr

namespace Decoder

/-- Read the payload when no byte is missing. -/
def settle (missing : ℕ) (got : Bytes) : Decoder × Option Bytes :=
  if missing = 0 then (.start, some got) else (.body missing got, none)

/-- Read one byte, and give the payload when the frame is complete. -/
def step : Decoder → UInt8 → Decoder × Option Bytes
  | .start, b => (.high b, none)
  | .high byte, b => settle (byte.toNat * 256 + b.toNat) []
  | .body missing got, b => settle (missing - 1) (got ++ [b])

/-- A decoder gets a payload with exactly the given bytes. -/
def Expects (d : Decoder) (bytes payload : Bytes) : Prop :=
  match d with
  | .start => bytes = frame payload ∧ payload.length < maxLength
  | .high byte => ∃ low, bytes = low :: payload ∧ byte.toNat * 256 + low.toNat = payload.length
  | .body missing got => missing ≠ 0 ∧ bytes.length = missing ∧ got ++ bytes = payload

theorem expects_frame {payload : Bytes} (h : payload.length < maxLength) :
  Expects .start (frame payload) payload
  := ⟨rfl, h⟩

variable {d : Decoder} {b : UInt8} {bytes payload : Bytes}

theorem Expects.ne_nil (h : d.Expects bytes payload) :
  bytes ≠ []
  := by
  cases d with
  | start => rw [h.1]; exact List.cons_ne_nil _ _
  | high byte =>
    obtain ⟨low, rfl, -⟩ := h
    exact List.cons_ne_nil _ _
  | body missing got =>
    obtain ⟨hmissing, hlength, -⟩ := h
    rw [← hlength] at hmissing
    exact List.ne_nil_of_length_pos (Nat.pos_of_ne_zero hmissing)

/-- A decoder that expects a whole frame has read nothing of it. -/
theorem Expects.eq_start (h : d.Expects (frame payload) payload) :
  d = .start
  := by
  have hlength : (frame payload).length = payload.length + 2 := rfl
  cases d with
  | start => rfl
  | high byte =>
    obtain ⟨low, heq, -⟩ := h
    rw [heq, List.length_cons] at hlength
    omega
  | body missing got =>
    obtain ⟨-, -, heq⟩ := h
    have := congrArg List.length heq
    rw [List.length_append, hlength] at this
    omega

/-- The state after the bytes that are read so far, of which `bytes` are to come. -/
theorem step_settle {missing : ℕ} {got : Bytes} (hlength : bytes.length = missing)
    (hpayload : got ++ bytes = payload) :
  (bytes = [] ∧ settle missing got = (.start, some payload))
    ∨ ∃ d', settle missing got = (d', none) ∧ d'.Expects bytes payload
  := by
  rw [settle]
  by_cases hmissing : missing = 0
  · rw [hmissing] at hlength
    obtain rfl := List.eq_nil_of_length_eq_zero hlength
    rw [if_pos hmissing, ← hpayload, List.append_nil]
    exact .inl ⟨rfl, rfl⟩
  · rw [if_neg hmissing]
    exact .inr ⟨_, rfl, hmissing, hlength, hpayload⟩

/-- The last byte gives the payload, and another byte leaves the decoder in the middle of the
frame. -/
theorem Expects.step (h : d.Expects (b :: bytes) payload) :
  (bytes = [] ∧ d.step b = (.start, some payload))
    ∨ ∃ d', d.step b = (d', none) ∧ d'.Expects bytes payload
  := by
  cases d with
  | start =>
    obtain ⟨heq, hlt⟩ := h
    rw [frame, List.cons.injEq] at heq
    obtain ⟨rfl, rfl⟩ := heq
    refine .inr ⟨_, rfl, _, rfl, ?_⟩
    rw [maxLength] at hlt
    rw [UInt8.toNat_ofNat', UInt8.toNat_ofNat']
    omega
  | high byte =>
    obtain ⟨low, heq, hlength⟩ := h
    rw [List.cons.injEq] at heq
    obtain ⟨rfl, rfl⟩ := heq
    exact step_settle hlength.symm rfl
  | body missing got =>
    obtain ⟨hmissing, hlength, hpayload⟩ := h
    rw [List.length_cons] at hlength
    apply step_settle (by omega)
    rw [List.append_assoc]
    exact hpayload

end Decoder

end Framing

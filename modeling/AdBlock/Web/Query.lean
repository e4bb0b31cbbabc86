import AdBlock.Curation.Basic
import AdBlock.Json.Basic
import AdBlock.Rust.Net
import AdBlock.Rust.Utf8

/-!
# Query parameters of the admin pages

A query is split at its `&`, the value of a parameter is found by its key (`parseQuery`), and the
value is decoded by a loop over its bytes (`percentDecode`).  The loop reads a byte, or three bytes
for an escape, and every read is checked here against the end of the bytes.  A round moves forward
and stays inside (`exists_decodeRound`), so the loop ends with a result for every text
(`isSome_percentDecode`).  Along an encoding the loop puts out the bytes that were encoded
(`decodeFrom_encodes`), and the decoder of UTF-8 gives the text back.
-/

namespace Web

/-- The value of the first parameter with the given key. -/
def parseQuery (query key : Text) : Option Text :=
  (query.splitOn '&').findSome? fun kv =>
    (Text.splitOnce kv '=').bind fun (k, v) => if k = key then some v else none

/-- The digit in base sixteen that a byte is as a character. -/
def hexDigit (b : UInt8) : Option ℕ :=
  Net.toDigit 16 (Char.ofNat b.toNat)

/-- One round of the decoder at position `i`: the next position and what is put out by then.  It is
`none` if a byte is read past the end. -/
def decodeRound (bytes : Bytes) (i : ℕ) (out : Bytes) : Option (ℕ × Bytes) := do
  let b ← bytes[i]?
  if b = 0x2B then
    some (i + 1, out ++ [0x20])
  else if b = 0x25 ∧ i + 2 < bytes.length then do
    let hi ← bytes[i + 1]?
    let lo ← bytes[i + 2]?
    match hexDigit hi, hexDigit lo with
    | some h, some l => some (i + 3, out ++ [UInt8.ofNat (h * 16 + l)])
    | _, _ => some (i + 1, out ++ [0x25])
  else
    some (i + 1, out ++ [b])

/-- The loop of the decoder, for at most `fuel` rounds.  It is `none` if a byte is read past the end
or if the loop needs more rounds. -/
def decodeFrom (bytes : Bytes) : ℕ → ℕ → Bytes → Option Bytes
  | 0, i, out => if i < bytes.length then none else some out
  | fuel + 1, i, out =>
      if i < bytes.length then
        (decodeRound bytes i out).bind fun (i, out) => decodeFrom bytes fuel i out
      else some out

/-- Decode a query value, in as many rounds as it has bytes. -/
def percentDecode (s : Text) : Option Text :=
  (decodeFrom (Text.asBytes s) (Text.asBytes s).length 0 []).map Bytes.fromUtf8Lossy

/-- The answer for the list of the given name. -/
def listTextJson (lists : List ListEntry) (name : Text) : Json :=
  match findList lists name with
  | some l =>
      .obj [("name".toList, .str l.name), ("source".toList, .str l.source),
        ("rules".toList, .int l.rules), ("text".toList, .str l.text)]
  | none => .obj [("error".toList, .str ("no list named '".toList ++ name ++ "'".toList))]

/-- The text of the list that the query names, or of the list with an empty name if it names
none. -/
def blocklistTextJson (lists : List ListEntry) (query : Text) : Option Json :=
  let name :=
    match parseQuery query "name".toList with
    | some value => percentDecode value
    | none => some []
  name.map (listTextJson lists)

/-! ### The loop ends -/

/-- A round at a position inside the bytes has a result, at a later position. -/
theorem exists_decodeRound {bytes : Bytes} {i : ℕ} (hi : i < bytes.length) (out : Bytes) :
  ∃ next out', decodeRound bytes i out = some (next, out') ∧ i < next
  := by
  rw [decodeRound, List.getElem?_eq_getElem hi, Option.bind_eq_bind, Option.bind_some]
  split_ifs with hplus hescape
  · exact ⟨_, _, rfl, by omega⟩
  · -- The guard of the look-ahead is what keeps both reads inside.
    rw [List.getElem?_eq_getElem (by omega), List.getElem?_eq_getElem (by omega)]
    simp only [Option.bind_some]
    split
    · exact ⟨_, _, rfl, by omega⟩
    · exact ⟨_, _, rfl, by omega⟩
  · exact ⟨_, _, rfl, by omega⟩

theorem isSome_decodeFrom {bytes : Bytes} {fuel i : ℕ} (hfuel : bytes.length ≤ i + fuel)
    (out : Bytes) :
  (decodeFrom bytes fuel i out).isSome
  := by
  induction fuel generalizing i out with
  | zero =>
    rw [decodeFrom, if_neg (by omega)]
    rfl
  | succ fuel ih =>
    rw [decodeFrom]
    split_ifs with hi
    · obtain ⟨next, out', hround, hnext⟩ := exists_decodeRound hi out
      rw [hround, Option.bind_some]
      apply ih (by omega)
    · rfl

/-- The decoder has a result for every text. -/
theorem isSome_percentDecode (s : Text) :
  (percentDecode s).isSome
  := by
  rw [percentDecode, Option.isSome_map]
  apply isSome_decodeFrom (by omega)

/-! ### Encodings -/

/-- The byte `b` is the digit `n` in base sixteen, in either case. -/
def IsHexDigit (n : ℕ) (b : UInt8) : Prop :=
  n < 10 ∧ b.toNat = 0x30 + n ∨
    10 ≤ n ∧ n < 16 ∧ (b.toNat = 0x61 + (n - 10) ∨ b.toNat = 0x41 + (n - 10))
  deriving Decidable

/-- The second byte string encodes the first: every byte is itself, an escape, or `+` for a
space. -/
inductive Encodes : Bytes → Bytes → Prop
  | nil : Encodes [] []
  | raw {b : UInt8} {bytes code : Bytes} (hpercent : b ≠ 0x25) (hplus : b ≠ 0x2B)
      (hand : b ≠ 0x26) (hequals : b ≠ 0x3D) (h : Encodes bytes code) :
      Encodes (b :: bytes) (b :: code)
  | escape {b hi lo : UInt8} {bytes code : Bytes} (hhi : IsHexDigit (b.toNat / 16) hi)
      (hlo : IsHexDigit (b.toNat % 16) lo) (h : Encodes bytes code) :
      Encodes (b :: bytes) (0x25 :: hi :: lo :: code)
  | plus {bytes code : Bytes} (h : Encodes bytes code) : Encodes (0x20 :: bytes) (0x2B :: code)

theorem hexDigit_of_isHexDigit {n : ℕ} {b : UInt8} (h : IsHexDigit n b) :
  hexDigit b = some n
  := by
  have hdigit : ∀ n < 10, Net.toDigit 16 (Char.ofNat (0x30 + n)) = some n := by decide
  have hlower : ∀ n < 16, 10 ≤ n → Net.toDigit 16 (Char.ofNat (0x61 + (n - 10))) = some n := by
    decide
  have hupper : ∀ n < 16, 10 ≤ n → Net.toDigit 16 (Char.ofNat (0x41 + (n - 10))) = some n := by
    decide
  rw [hexDigit]
  rcases h with ⟨hn, hb⟩ | ⟨hten, hn, hb | hb⟩
  · rw [hb, hdigit n hn]
  · rw [hb, hlower n hn hten]
  · rw [hb, hupper n hn hten]

/-! ### The rounds along an encoding -/

theorem decodeRound_raw {b : UInt8} (hpercent : b ≠ 0x25) (hplus : b ≠ 0x2B)
    (before code out : Bytes) :
  decodeRound (before ++ b :: code) before.length out = some (before.length + 1, out ++ [b])
  := by
  have hread : (before ++ b :: code)[before.length]? = some b := by simp
  rw [decodeRound, hread, Option.bind_eq_bind, Option.bind_some, if_neg hplus,
    if_neg fun h => hpercent h.1]

theorem decodeRound_plus (before code out : Bytes) :
  decodeRound (before ++ 0x2B :: code) before.length out = some (before.length + 1, out ++ [0x20])
  := by
  have hread : (before ++ 0x2B :: code)[before.length]? = some 0x2B := by simp
  rw [decodeRound, hread, Option.bind_eq_bind, Option.bind_some, if_pos rfl]

theorem decodeRound_escape {b hi lo : UInt8} (hhi : IsHexDigit (b.toNat / 16) hi)
    (hlo : IsHexDigit (b.toNat % 16) lo) (before code out : Bytes) :
  decodeRound (before ++ 0x25 :: hi :: lo :: code) before.length out
    = some (before.length + 3, out ++ [b])
  := by
  have hread : (before ++ 0x25 :: hi :: lo :: code)[before.length]? = some 0x25 := by simp
  have hreadHi : (before ++ 0x25 :: hi :: lo :: code)[before.length + 1]? = some hi := by simp
  have hreadLo : (before ++ 0x25 :: hi :: lo :: code)[before.length + 2]? = some lo := by simp
  have hinside : before.length + 2 < (before ++ 0x25 :: hi :: lo :: code).length := by
    rw [List.length_append, List.length_cons, List.length_cons, List.length_cons]
    omega
  have hbyte : UInt8.ofNat (b.toNat / 16 * 16 + b.toNat % 16) = b := by
    rw [Nat.div_add_mod', UInt8.ofNat_toNat]
  rw [decodeRound, hread, Option.bind_eq_bind, Option.bind_some, if_neg (by decide),
    if_pos ⟨rfl, hinside⟩, hreadHi, hreadLo]
  simp only [Option.bind_some, hexDigit_of_isHexDigit hhi, hexDigit_of_isHexDigit hlo, hbyte]

theorem decodeFrom_of_round {bytes out out' : Bytes} {i next fuel : ℕ} (hi : i < bytes.length)
    (hround : decodeRound bytes i out = some (next, out')) :
  decodeFrom bytes (fuel + 1) i out = decodeFrom bytes fuel next out'
  := by
  rw [decodeFrom, if_pos hi, hround, Option.bind_some]

/-- From the beginning of an encoding, the loop puts out the bytes that are encoded. -/
theorem decodeFrom_encodes {bytes code : Bytes} (h : Encodes bytes code) {fuel : ℕ}
    (hfuel : code.length ≤ fuel) (before out : Bytes) :
  decodeFrom (before ++ code) fuel before.length out = some (out ++ bytes)
  := by
  induction h generalizing fuel before out with
  | nil =>
    cases fuel <;> rw [decodeFrom, List.append_nil, List.append_nil, if_neg (lt_irrefl _)]
  | @raw b bytes code hpercent hplus _ _ _ ih =>
    obtain ⟨fuel, rfl⟩ : ∃ n, fuel = n + 1 := ⟨fuel - 1, by rw [List.length_cons] at hfuel; omega⟩
    rw [decodeFrom_of_round (by simp) (decodeRound_raw hpercent hplus before code out)]
    have hrest := ih (Nat.le_of_succ_le_succ hfuel) (before ++ [b]) (out ++ [b])
    rwa [List.append_assoc, List.append_assoc, List.length_append] at hrest
  | @escape b hi lo bytes code hhi hlo _ ih =>
    obtain ⟨fuel, rfl⟩ : ∃ n, fuel = n + 1 := ⟨fuel - 1, by rw [List.length_cons] at hfuel; omega⟩
    rw [decodeFrom_of_round (by simp) (decodeRound_escape hhi hlo before code out)]
    have hcode : code.length ≤ fuel := by
      simp only [List.length_cons] at hfuel
      omega
    have hrest := ih hcode (before ++ [0x25, hi, lo]) (out ++ [b])
    rwa [List.append_assoc, List.append_assoc, List.length_append] at hrest
  | @plus bytes code _ ih =>
    obtain ⟨fuel, rfl⟩ : ∃ n, fuel = n + 1 := ⟨fuel - 1, by rw [List.length_cons] at hfuel; omega⟩
    rw [decodeFrom_of_round (by simp) (decodeRound_plus before code out)]
    have hrest := ih (Nat.le_of_succ_le_succ hfuel) (before ++ [0x2B]) (out ++ [0x20])
    rwa [List.append_assoc, List.append_assoc, List.length_append] at hrest

/-- The decoder gives back the text whose bytes are encoded. -/
theorem percentDecode_of_encodes {s code : Text}
    (h : Encodes (Text.asBytes s) (Text.asBytes code)) :
  percentDecode code = some s
  := by
  have hloop := decodeFrom_encodes h le_rfl [] []
  rw [List.nil_append, List.nil_append, List.length_nil] at hloop
  rw [percentDecode, hloop, Option.map_some, Bytes.fromUtf8Lossy_asBytes]

/-! ### The parameter in a query -/

theorem not_mem_of_encodes {bytes code : Bytes} (h : Encodes bytes code) :
  0x26 ∉ code
  := by
  have hdigit {n : ℕ} {b : UInt8} (hb : IsHexDigit n b) : 0x26 ≠ b := by
    rintro rfl
    rcases hb with ⟨_, hb⟩ | ⟨_, _, hb | hb⟩ <;> simp at hb <;> omega
  induction h with
  | nil => exact List.not_mem_nil
  | raw _ _ hand _ _ ih => exact List.not_mem_cons_of_ne_of_not_mem hand.symm ih
  | escape hhi hlo _ ih =>
    apply List.not_mem_cons_of_ne_of_not_mem (by decide)
    apply List.not_mem_cons_of_ne_of_not_mem (hdigit hhi)
    apply List.not_mem_cons_of_ne_of_not_mem (hdigit hlo) ih
  | plus _ ih => exact List.not_mem_cons_of_ne_of_not_mem (by decide) ih

/-- An encoding stays in one part of the query. -/
theorem and_not_mem_of_encodes {bytes : Bytes} {code : Text}
    (h : Encodes bytes (Text.asBytes code)) :
  '&' ∉ code
  := by
  intro hmem
  apply not_mem_of_encodes h
  apply List.mem_flatMap.mpr ⟨'&', hmem, List.mem_singleton.mpr rfl⟩

/-- No part of the query has the given key. -/
def KeyFree (key query : Text) : Prop :=
  ∀ part ∈ query.splitOn '&', ∀ value, Text.splitOnce part '=' ≠ some (key, value)

/-- The parameter is found behind parts with other keys, with all of its value. -/
theorem parseQuery_append {key query value : Text} (hquery : KeyFree key query)
    (hkey : '&' ∉ key) (hequals : '=' ∉ key) (hvalue : '&' ∉ value) (rest : Text) :
  parseQuery (query ++ '&' :: (key ++ '=' :: value ++ '&' :: rest)) key = some value
  := by
  have hpart : '&' ∉ key ++ '=' :: value := by
    rw [List.mem_append, List.mem_cons]
    rintro (h | h | h)
    · exact hkey h
    · exact absurd h (by decide)
    · exact hvalue h
  have hsplit : (query ++ '&' :: (key ++ '=' :: value ++ '&' :: rest)).splitOn '&'
      = query.splitOn '&' ++ (key ++ '=' :: value ++ '&' :: rest).splitOn '&' :=
    List.splitOnP_append_cons _ _ rfl
  rw [parseQuery, hsplit, List.splitOn_append_cons_self_of_not_mem hpart, List.findSome?_append,
    List.findSome?_eq_none_iff.mpr, Option.none_or, List.findSome?_cons,
    Text.splitOnce_append hequals]
  · simp
  · intro part hmem
    rw [Option.bind_eq_none_iff]
    rintro ⟨k, v⟩ honce
    apply if_neg
    rintro rfl
    apply hquery part hmem v honce

/-- A list name in any encoding of its bytes is read back from a query that has it as a parameter,
the list with this name is answered with, and the decoder has a result for every text. -/
theorem name_read_back (lists : List ListEntry) :
  (∀ s code before after : Text, Encodes (Text.asBytes s) (Text.asBytes code) →
    KeyFree "name".toList before →
    (parseQuery (before ++ "&name=".toList ++ code ++ "&".toList ++ after) "name".toList).bind
        percentDecode = some s ∧
      blocklistTextJson lists (before ++ "&name=".toList ++ code ++ "&".toList ++ after)
        = some (listTextJson lists s)) ∧
  ∀ s : Text, (percentDecode s).isSome
  := by
  refine ⟨?_, isSome_percentDecode⟩
  intro s code before after hcode hbefore
  have hquery : before ++ "&name=".toList ++ code ++ "&".toList ++ after
      = before ++ '&' :: ("name".toList ++ '=' :: code ++ '&' :: after) := by
    simp
  have hparse := parseQuery_append hbefore (by decide) (by decide) (and_not_mem_of_encodes hcode)
    after
  rw [hquery]
  constructor
  · rw [hparse, Option.bind_some, percentDecode_of_encodes hcode]
  · rw [blocklistTextJson, hparse]
    simp only [percentDecode_of_encodes hcode, Option.map_some]

theorem name_read_back_escaped :
  (parseQuery "page=2&name=my+l%c3%AFst&x".toList "name".toList).bind percentDecode
    = some "my lïst".toList
  := by
  have hcode : Encodes (Text.asBytes "my lïst".toList) (Text.asBytes "my+l%c3%AFst".toList) := by
    change Encodes [0x6D, 0x79, 0x20, 0x6C, 0xC3, 0xAF, 0x73, 0x74]
      [0x6D, 0x79, 0x2B, 0x6C, 0x25, 0x63, 0x33, 0x25, 0x41, 0x46, 0x73, 0x74]
    apply Encodes.raw (by decide) (by decide) (by decide) (by decide)
    apply Encodes.raw (by decide) (by decide) (by decide) (by decide)
    apply Encodes.plus
    apply Encodes.raw (by decide) (by decide) (by decide) (by decide)
    apply Encodes.escape (by decide) (by decide)
    apply Encodes.escape (by decide) (by decide)
    apply Encodes.raw (by decide) (by decide) (by decide) (by decide)
    apply Encodes.raw (by decide) (by decide) (by decide) (by decide)
    apply Encodes.nil
  have hbefore : KeyFree "name".toList "page=2".toList := by
    intro part hmem value
    rw [List.splitOn_eq_singleton (by decide), List.mem_singleton] at hmem
    rw [hmem, show Text.splitOnce "page=2".toList '=' = some ("page".toList, ['2']) from rfl]
    simp
  exact ((name_read_back []).1 _ _ "page=2".toList ['x'] hcode hbefore).1

end Web

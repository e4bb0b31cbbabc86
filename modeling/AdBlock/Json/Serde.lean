import AdBlock.Json.Parser

/-!
# The JSON library

What the program uses of the JSON library: a document is written on one line or with a line for
each item, and a text is read as a document.  `Lawful` is what the library promises of documents
whose numbers are integers of 64 bits and that are not nested too deep.  The writer and the
parser of this development keep it (`lawful_reference`).
-/

/-- The functions of the JSON library. -/
structure SerdeJson where
  toString : Json → Text
  toStringPretty : Json → Text
  fromStr : Text → Option Json

namespace SerdeJson

/-- What is written is read back, what is written on one line has no line break, and an empty
text is no document. -/
structure Lawful (S : SerdeJson) : Prop where
  fromStr_toString {v : Json} (hv : v.Plain) (hdepth : v.depth < Json.recursionLimit)
    {space : Text} (hspace : ∀ c ∈ space, Json.isSpace c) :
    S.fromStr (S.toString v ++ space) = some v
  fromStr_toStringPretty {v : Json} (hv : v.Plain) (hdepth : v.depth < Json.recursionLimit) :
    S.fromStr (S.toStringPretty v) = some v
  toString_line {v : Json} (hv : v.Plain) : ∀ c ∈ S.toString v, c ≠ '\n' ∧ c ≠ '\r'
  fromStr_nil : S.fromStr [] = none

/-- The writer and the parser of this development. -/
def reference : SerdeJson where
  toString := Json.render .compact 0
  toStringPretty := Json.render .pretty 0
  fromStr := Json.parse

end SerdeJson

namespace Json

/-- A character that does not break a line. -/
def InLine (c : Char) : Prop :=
  c ≠ '\n' ∧ c ≠ '\r'

instance (c : Char) : Decidable (InLine c) :=
  inferInstanceAs (Decidable (_ ∧ _))

theorem inLine_hexDigit :
  ∀ n < 16, InLine (hexDigit n)
  := by
  decide

/-- A line break in a string is escaped. -/
theorem inLine_escapeChar (c : Char) :
  ∀ d ∈ escapeChar c, InLine d
  := by
  rw [escapeChar]
  cases hletter : letters.find? (fun l => l.1 = c) with
  | some l =>
    have hall : ∀ l ∈ letters, ∀ d ∈ ['\\', l.2], InLine d := by decide
    exact hall l (List.mem_of_find?_eq_some hletter)
  | none =>
    rw [List.find?_eq_none] at hletter
    dsimp only
    split
    · next h =>
      have hhigh := inLine_hexDigit (c.toNat / 16) (by omega)
      have hlow := inLine_hexDigit (c.toNat % 16) (by omega)
      have hstart : ∀ d ∈ ['\\', 'u', '0', '0'], InLine d := by decide
      intro d hd
      rcases List.mem_append.mp (show d ∈ ['\\', 'u', '0', '0'] ++ [_, _] from hd) with hd | hd
      · exact hstart d hd
      · rcases List.mem_pair.mp hd with rfl | rfl
        · exact hhigh
        · exact hlow
    · intro d hd
      rw [List.mem_singleton.mp hd]
      constructor
      · rintro rfl
        exact hletter ('\n', 'n') (by decide) (by decide)
      · rintro rfl
        exact hletter ('\r', 'r') (by decide) (by decide)

theorem inLine_quote (s : Text) :
  ∀ c ∈ quote s, InLine c
  := by
  intro c hc
  rw [quote, List.cons_append, List.mem_cons, List.mem_append, List.mem_flatMap,
    List.mem_singleton] at hc
  rcases hc with rfl | ⟨d, -, hd⟩ | rfl
  · decide
  · exact inLine_escapeChar d c hd
  · decide

theorem inLine_integer (n : ℤ) :
  ∀ c ∈ integer n, InLine c
  := by
  have hdigits (n : ℕ) : ∀ c ∈ decimal n, InLine c := by
    intro c hc
    have hdigit := isDigit_of_mem_decimal hc
    constructor <;> rintro rfl <;> cases hdigit
  cases n with
  | ofNat n => exact hdigits n
  | negSucc n =>
    intro c hc
    rcases List.mem_cons.mp hc with rfl | hc
    · decide
    · exact hdigits (n + 1) c hc

theorem inLine_enclose (depth : ℕ) {left right : Char} (hleft : InLine left)
    (hright : InLine right) {items : List Text} (h : ∀ item ∈ items, ∀ c ∈ item, InLine c) :
  ∀ c ∈ Style.compact.enclose depth left right items, InLine c
  := by
  have hinter : ∀ c ∈ [','].intercalate items, InLine c := by
    induction items with
    | nil => simp [List.intercalate]
    | cons item items ih =>
      rw [List.forall_mem_cons] at h
      cases items with
      | nil => simpa [List.intercalate] using h.1
      | cons item' items =>
        rw [intercalate_cons_cons]
        intro c hc
        rcases List.mem_append.mp hc with hc | hc
        · exact h.1 c hc
        · rcases List.mem_append.mp hc with hc | hc
          · rw [List.mem_singleton.mp hc]
            decide
          · exact ih h.2 c hc
  intro c hc
  rw [Style.enclose] at hc
  split at hc
  · rcases List.mem_pair.mp hc with rfl | rfl
    · exact hleft
    · exact hright
  · simp only [Style.compact, List.nil_append, List.map_id', List.append_nil, List.cons_append,
      List.mem_cons, List.mem_append] at hc
    rcases hc with rfl | hc | hc
    · exact hleft
    · exact hinter c hc
    · rcases hc with rfl | hc
      · exact hright
      · cases hc

/-- A plain document is written on one line. -/
theorem inLine_render (depth : ℕ) {v : Json} (hv : v.Plain) :
  ∀ c ∈ render .compact depth v, InLine c
  := by
  induction v generalizing depth with
  | null => exact (by decide : ∀ c ∈ "null".toList, InLine c)
  | bool b =>
    cases b with
    | true => exact (by decide : ∀ c ∈ "true".toList, InLine c)
    | false => exact (by decide : ∀ c ∈ "false".toList, InLine c)
  | int n => exact inLine_integer n
  | float literal => cases hv
  | str s => exact inLine_quote s
  | arr items ih =>
    cases hv with
    | arr hitems =>
      rw [render_arr]
      apply inLine_enclose depth (by decide) (by decide)
      intro text htext
      obtain ⟨v, hv, rfl⟩ := List.mem_map.mp htext
      exact ih v hv (depth + 1) (hitems v hv)
  | obj fields ih =>
    cases hv with
    | obj hfields =>
      rw [render_obj]
      apply inLine_enclose depth (by decide) (by decide)
      intro text htext
      obtain ⟨f, hf, rfl⟩ := List.mem_map.mp htext
      intro c hc
      simp only [Style.compact, List.append_assoc, List.mem_append, List.cons_append,
        List.nil_append, List.mem_cons] at hc
      rcases hc with hc | rfl | hc
      · exact inLine_quote f.1 c hc
      · decide
      · exact ih f hf (depth + 1) (hfields f hf) c hc

end Json

theorem SerdeJson.lawful_reference :
  SerdeJson.reference.Lawful
  where
  fromStr_toString hv := Json.parse_render .compact (hv.made _)
  fromStr_toStringPretty hv hdepth := by
    have := Json.parse_render .pretty (hv.made _) hdepth (List.forall_mem_nil _)
    rwa [List.append_nil] at this
  toString_line hv := Json.inLine_render 0 hv
  fromStr_nil := rfl

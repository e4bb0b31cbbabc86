import AdBlock.Json.Parser
import AdBlock.Rust.Slice

/-!
# What a JSON text denotes

A text denotes the document whose tokens it is read as, however deep this is nested; it denotes at
most one (`Denotes.unique`).  A character that only strings can have may be written as its escape, and
the text still denotes the same document (`denotes_escapeLess`).
-/

namespace Json

/-- A text is a document. -/
def Denotes (text : Text) (v : Json) : Prop :=
  lex text = some (tokens v)

/-! ### One document for a text -/

/-- Items between commas up to a closing token are told apart, if each of them is told apart from what
follows it. -/
theorem intercalate_inj {α : Type} {f : α → List Token} {close : Token} (hclose : close ≠ .comma)
    (hstart : ∀ a, ∃ token toks, f a = token :: toks ∧ token ≠ close) {items : List α}
    (hitems : ∀ a ∈ items, ∀ b rest rest', f a ++ rest = f b ++ rest' → a = b ∧ rest = rest')
    {others : List α} {rest rest' : List Token}
    (h : [Token.comma].intercalate (items.map f) ++ close :: rest
      = [Token.comma].intercalate (others.map f) ++ close :: rest') :
  items = others ∧ rest = rest'
  := by
  have hne (a : α) (tail : List Token) (toks : List Token) : f a ++ tail ≠ close :: toks := by
    obtain ⟨token, toks', heq, hne⟩ := hstart a
    rw [heq, List.cons_append]
    intro h
    exact hne (List.cons.inj h).1
  induction items generalizing others with
  | nil =>
    cases others with
    | nil =>
      rw [List.map_nil] at h
      exact ⟨rfl, (List.cons.inj h).2⟩
    | cons b others =>
      obtain ⟨tail, htail⟩ := exists_intercalate_cons [Token.comma] (f b) (others.map f)
      rw [List.map_cons, htail, List.append_assoc] at h
      exact absurd h.symm (hne b _ rest)
  | cons a items ih =>
    rw [List.forall_mem_cons] at hitems
    obtain ⟨ha, hitems⟩ := hitems
    cases others with
    | nil =>
      obtain ⟨tail, htail⟩ := exists_intercalate_cons [Token.comma] (f a) (items.map f)
      rw [List.map_cons, htail, List.append_assoc] at h
      exact absurd h (hne a _ rest')
    | cons b others =>
      -- the first items agree, and then what separates them from the rest
      cases items with
      | nil =>
        cases others with
        | nil =>
          obtain ⟨rfl, hrest⟩ := ha b _ _ (by simpa using h)
          exact ⟨rfl, (List.cons.inj hrest).2⟩
        | cons b' others =>
          rw [List.map_cons, List.map_nil, List.intercalate_singleton, List.map_cons,
            List.map_cons, intercalate_cons_cons, List.append_assoc] at h
          obtain ⟨-, hrest⟩ := ha b _ _ h
          exact absurd (List.cons.inj hrest).1 hclose
      | cons a' items =>
        cases others with
        | nil =>
          rw [List.map_cons, List.map_cons, intercalate_cons_cons, List.append_assoc,
            List.map_cons, List.map_nil, List.intercalate_singleton] at h
          obtain ⟨-, hrest⟩ := ha b _ _ h
          exact absurd (List.cons.inj hrest).1.symm hclose
        | cons b' others =>
          simp only [List.map_cons, intercalate_cons_cons, List.append_assoc] at h
          obtain ⟨rfl, hrest⟩ := ha b _ _ h
          have hnext : [Token.comma].intercalate ((a' :: items).map f) ++ close :: rest
              = [Token.comma].intercalate ((b' :: others).map f) ++ close :: rest' :=
            (List.cons.inj hrest).2
          obtain ⟨hothers, hrest⟩ := ih hitems hnext
          exact ⟨congrArg (a :: ·) hothers, hrest⟩

/-- The tokens of a document tell where it ends. -/
theorem tokens_append_inj (v : Json) :
  ∀ w rest rest', tokens v ++ rest = tokens w ++ rest' → v = w ∧ rest = rest'
  := by
  induction v with
  | null | bool | int | float | str =>
    intro w rest rest' h
    cases w <;> simp_all [tokens]
  | arr items ih =>
    intro w rest rest' h
    cases w with
    | arr others =>
      rw [tokens_arr, tokens_arr, List.cons_append, List.cons_append, List.append_assoc,
        List.append_assoc] at h
      have hstart (v : Json) : ∃ token toks, tokens v = token :: toks ∧ token ≠ .rbracket :=
        exists_tokens_eq v
      obtain ⟨rfl, hrest⟩ := intercalate_inj (by decide : Token.rbracket ≠ .comma) hstart ih
        (List.cons.inj h).2
      exact ⟨rfl, hrest⟩
    | _ => simp [tokens] at h
  | obj fields ih =>
    intro w rest rest' h
    cases w with
    | obj others =>
      rw [tokens_obj, tokens_obj, List.cons_append, List.cons_append, List.append_assoc,
        List.append_assoc] at h
      have hstart (f : Text × Json) :
          ∃ token toks, .str f.1 :: .colon :: tokens f.2 = token :: toks ∧ token ≠ .rbrace :=
        ⟨_, _, rfl, nofun⟩
      have hfields : ∀ f ∈ fields, ∀ (g : Text × Json) (rest rest' : List Token),
          (.str f.1 :: .colon :: tokens f.2) ++ rest = (.str g.1 :: .colon :: tokens g.2) ++ rest' →
            f = g ∧ rest = rest' := by
        intro f hf g rest rest' h
        obtain ⟨hkey, h⟩ := List.cons.inj h
        obtain ⟨hvalue, hrest⟩ := ih f hf _ _ _ (List.cons.inj h).2
        exact ⟨Prod.ext (Token.str.inj hkey) hvalue, hrest⟩
      obtain ⟨rfl, hrest⟩ := intercalate_inj (by decide : Token.rbrace ≠ .comma) hstart hfields
        (List.cons.inj h).2
      exact ⟨rfl, hrest⟩
    | _ => simp [tokens] at h

/-- A text denotes one document. -/
theorem Denotes.unique {text : Text} {v w : Json} (hv : Denotes text v) (hw : Denotes text w) :
  v = w
  := by
  have htokens : tokens v ++ [] = tokens w ++ [] := by
    rw [List.append_nil, List.append_nil]
    exact Option.some_injective _ (hv.symm.trans hw)
  exact (tokens_append_inj v w _ _ htokens).1

/-! ### Arrays of texts -/

/-- What was read from a state to the end is read the same way in front of anything that does not go
on with a word. -/
theorem lexFrom_append {state : LexState} {text : Text} {toks : List Token}
    (h : lexFrom state text = some toks) {rest : Text} (hrest : Delimited rest) :
  lexFrom state (text ++ rest) = (lexFrom .start rest).map (toks ++ ·)
  := by
  induction text generalizing state toks with
  | nil =>
    rw [List.nil_append]
    rw [lexFrom] at h
    cases state with
    | start =>
      obtain rfl := Option.some_injective _ h
      exact Option.map_id'.symm
    | word acc =>
      obtain ⟨token, htoken, rfl⟩ := Option.map_eq_some_iff.mp h
      rw [lexFrom_word_of_delimited acc hrest, htoken]
      rfl
    | _ => cases h
  | cons c text ih =>
    rw [lexFrom] at h
    obtain ⟨⟨toks₁, state'⟩, hstep, h⟩ := Option.bind_eq_some_iff.mp h
    obtain ⟨toks₂, htext, rfl⟩ := Option.map_eq_some_iff.mp h
    rw [List.cons_append, lexFrom_cons hstep, ih htext, Option.map_map]
    simp [Function.comp_def]

theorem Denotes.reads {text : Text} {v : Json} (h : Denotes text v) :
  Reads text (tokens v)
  := fun _ hrest => lexFrom_append h hrest

/-- Texts between brackets, with commas, denote the array of what they denote. -/
theorem denotes_array {texts : List Text} {values : List Json}
    (h : List.Forall₂ Denotes texts values) :
  Denotes ('[' :: Text.join texts [','] ++ [']']) (.arr values)
  := by
  have hitems : List.Forall₂ Reads texts (values.map tokens) := by
    rw [List.forall₂_map_right_iff]
    apply h.imp
    intro text v htext
    exact htext.reads
  have hclose : Solid [']'] [.rbracket] := solid_punctuation rfl
  have hbody := (reads_intercalate hitems).append hclose.reads (by
    intro rest _
    exact delimited_cons (by decide) _)
  have hleft : Solid ['['] [.lbracket] := solid_punctuation rfl
  have hall := hleft.append hbody [] delimited_nil
  rw [Denotes, lex, tokens_arr]
  simpa [Text.join, lexFrom, lexEnd] using hall

/-! ### Escapes -/

/-- The character `<` is read in a string, and nowhere else. -/
theorem lexStep_less {state state' : LexState} {toks : List Token}
    (h : lexStep state '<' = some (toks, state')) :
  ∃ acc, state = .str acc ∧ toks = [] ∧ state' = .str (acc ++ ['<'])
  := by
  cases state with
  | str acc =>
    obtain ⟨rfl, rfl⟩ := Prod.mk.inj (Option.some_injective _ h)
    exact ⟨acc, rfl, rfl, rfl⟩
  | word acc =>
    obtain ⟨token, -, h⟩ := Option.bind_eq_some_iff.mp h
    cases h
  | _ => cases h

/-- The escape of `<` is read as the character. -/
theorem lexFrom_less (acc rest : Text) :
  lexFrom (.str acc) ("\\u003c".toList ++ rest) = lexFrom (.str (acc ++ ['<'])) rest
  := by
  have htext : "\\u003c".toList ++ rest = '\\' :: 'u' :: '0' :: '0' :: '3' :: 'c' :: rest := rfl
  rw [htext, lexFrom_silent (.escape acc) rfl, lexFrom_silent (.hex acc none []) rfl,
    lexFrom_silent (.hex acc none [0]) rfl, lexFrom_silent (.hex acc none [0, 0]) rfl,
    lexFrom_silent (.hex acc none [0, 0, 3]) rfl, lexFrom_silent (.str (acc ++ ['<'])) rfl]

/-- A text with each `<` written as its escape. -/
def escapeLess (text : Text) : Text :=
  Text.replaceChar text '<' "\\u003c".toList

theorem not_mem_escapeLess (text : Text) :
  '<' ∉ escapeLess text
  := by
  intro h
  obtain ⟨c, -, hc⟩ := List.mem_flatMap.mp h
  split at hc
  · revert hc
    decide
  · next hne => exact hne (List.mem_singleton.mp hc).symm

theorem lexFrom_escapeLess {state : LexState} {text : Text} {toks : List Token}
    (h : lexFrom state text = some toks) :
  lexFrom state (escapeLess text) = some toks
  := by
  induction text generalizing state toks with
  | nil => exact h
  | cons c text ih =>
    rw [lexFrom] at h
    obtain ⟨⟨toks₁, state'⟩, hstep, h⟩ := Option.bind_eq_some_iff.mp h
    obtain ⟨toks₂, htext, rfl⟩ := Option.map_eq_some_iff.mp h
    rw [escapeLess, Text.replaceChar, List.flatMap_cons]
    by_cases hc : c = '<'
    · obtain ⟨acc, rfl, rfl, rfl⟩ := lexStep_less (hc ▸ hstep)
      rw [if_pos hc, lexFrom_less]
      exact ih htext
    · rw [if_neg hc, List.singleton_append, lexFrom_cons hstep]
      exact congrArg (Option.map (toks₁ ++ ·)) (ih htext)

/-- A text with escapes for `<` denotes what it denoted. -/
theorem denotes_escapeLess {text : Text} {v : Json} (h : Denotes text v) :
  Denotes (escapeLess text) v
  := lexFrom_escapeLess h

end Json

import AdBlock.Json.Parser

/-!
# What the parser accepts

A document that was parsed has only numbers of the forms that are written, and is not nested too
deep (`made_of_parse`).  So it can be written and parsed again.
-/

namespace Json

/-! ### Tokens -/

/-- A token for a number says what was read. -/
def Token.Sound : Token → Prop
  | .int n => -2 ^ 63 ≤ n ∧ n < 2 ^ 64
  | .float literal => IsFloat literal
  | _ => True

/-- An integer that does not fit is read as a number with a fraction. -/
theorem integerToken_cases (literal : Text) (negative : Bool) (n : ℕ) :
  integerToken literal negative n = .float literal
    ∨ ∃ k : ℤ, integerToken literal negative n = .int k ∧ -2 ^ 63 ≤ k ∧ k < 2 ^ 64
  := by
  rw [integerToken]
  split
  · split
    · exact .inl rfl
    · exact .inr ⟨_, rfl, by omega, by omega⟩
  · split
    · exact .inr ⟨_, rfl, by omega, by omega⟩
    · exact .inl rfl

theorem unsignedToken_cases {literal s : Text} {negative : Bool} {token : Token}
    (h : unsignedToken literal negative s = some token) :
  token = .float literal ∨ ∃ n : ℤ, token = .int n ∧ -2 ^ 63 ≤ n ∧ n < 2 ^ 64
  := by
  simp only [unsignedToken] at h
  split at h
  · split at h
    · cases h
      exact integerToken_cases _ _ _
    · split at h
      · cases h
        exact .inl rfl
      · cases h
  · cases h

/-- A word that is a number is one of the forms that are written. -/
theorem sound_wordToken {word : Text} {token : Token} (hne : word ≠ [])
    (hchars : ∀ c ∈ word, isWordChar c) (h : wordToken word = some token) :
  token.Sound
  := by
  have hnumber (h' : numberToken word = some token) : token.Sound := by
    have hcases : token = .float word
        ∨ ∃ n : ℤ, token = .int n ∧ -2 ^ 63 ≤ n ∧ n < 2 ^ 64 := by
      unfold numberToken at h'
      split at h'
      · exact unsignedToken_cases h'
      · exact unsignedToken_cases h'
    rcases hcases with rfl | ⟨n, rfl, hrange⟩
    · exact ⟨hne, hchars, h⟩
    · exact hrange
  have h' := h
  rw [wordToken] at h'
  split at h'
  · cases h'
    trivial
  split at h'
  · cases h'
    trivial
  split at h'
  · cases h'
    trivial
  exact hnumber h'

/-- A word that was begun has only characters of words. -/
def LexState.Sound : LexState → Prop
  | .word acc => acc ≠ [] ∧ ∀ c ∈ acc, isWordChar c
  | _ => True

/-- The first character of a token is no number by itself. -/
theorem sound_lexStart {c : Char} {tokens : List Token} {state : LexState}
    (h : lexStart c = some (tokens, state)) :
  (∀ token ∈ tokens, token.Sound) ∧ state.Sound
  := by
  rw [lexStart] at h
  split at h
  · next hc =>
    cases h
    exact ⟨by simp, by simp, by simpa using hc⟩
  repeat
    split at h
    · cases h
      exact ⟨by simp [Token.Sound], trivial⟩
  cases h

theorem sound_afterHex {acc : Text} {high : Option ℕ} {n : ℕ} {state : LexState}
    (h : afterHex acc high n = some state) :
  state.Sound
  := by
  unfold afterHex at h
  split at h
  · split at h
    · cases h
      trivial
    split at h
    · cases h
    · cases h
      trivial
  · split at h
    · cases h
      trivial
    · cases h

/-- A character ends only sound tokens, and leaves a sound state. -/
theorem sound_lexStep {state state' : LexState} {c : Char} {tokens : List Token}
    (hstate : state.Sound) (h : lexStep state c = some (tokens, state')) :
  (∀ token ∈ tokens, token.Sound) ∧ state'.Sound
  := by
  cases state with
  | start => exact sound_lexStart h
  | word acc =>
    rw [lexStep] at h
    split at h
    · next hc =>
      cases h
      refine ⟨by simp, by simp, ?_⟩
      intro d hd
      rcases List.mem_append.mp hd with hd | hd
      · exact hstate.2 d hd
      · rw [List.mem_singleton.mp hd]
        exact hc
    · obtain ⟨token, htoken, hrest⟩ := Option.bind_eq_some_iff.mp h
      obtain ⟨⟨tokens', state''⟩, hstart, heq⟩ := Option.map_eq_some_iff.mp hrest
      cases heq
      obtain ⟨htokens, hstate'⟩ := sound_lexStart hstart
      exact ⟨List.forall_mem_cons.mpr ⟨sound_wordToken hstate.1 hstate.2 htoken, htokens⟩, hstate'⟩
  | str acc =>
    rw [lexStep] at h
    split at h
    · cases h
      exact ⟨by simp [Token.Sound], trivial⟩
    split at h
    · cases h
      exact ⟨by simp, trivial⟩
    split at h
    · cases h
    · cases h
      exact ⟨by simp, trivial⟩
  | escape acc =>
    rw [lexStep] at h
    split at h
    · cases h
      exact ⟨by simp, trivial⟩
    · obtain ⟨e, -, heq⟩ := Option.map_eq_some_iff.mp h
      cases heq
      exact ⟨by simp, trivial⟩
  | hex acc high digits =>
    obtain ⟨d, -, hrest⟩ := Option.bind_eq_some_iff.mp h
    split at hrest
    · obtain ⟨state, hafter, heq⟩ := Option.map_eq_some_iff.mp hrest
      cases heq
      exact ⟨by simp, sound_afterHex hafter⟩
    · cases hrest
      exact ⟨by simp, trivial⟩
  | pair acc high =>
    rw [lexStep] at h
    split at h
    · cases h
      exact ⟨by simp, trivial⟩
    · cases h
  | pairEscape acc high =>
    rw [lexStep] at h
    split at h
    · cases h
      exact ⟨by simp, trivial⟩
    · cases h

/-- The tokens of a text are sound. -/
theorem sound_lexFrom {state : LexState} {s : Text} {tokens : List Token} (hstate : state.Sound)
    (h : lexFrom state s = some tokens) :
  ∀ token ∈ tokens, token.Sound
  := by
  induction s generalizing state tokens with
  | nil =>
    rw [lexFrom] at h
    cases state with
    | start =>
      cases h
      simp
    | word acc =>
      obtain ⟨token, htoken, rfl⟩ := Option.map_eq_some_iff.mp h
      simpa using sound_wordToken hstate.1 hstate.2 htoken
    | _ => cases h
  | cons c s ih =>
    obtain ⟨⟨first, state'⟩, hstep, hrest⟩ := Option.bind_eq_some_iff.mp h
    obtain ⟨rest, hlex, rfl⟩ := Option.map_eq_some_iff.mp hrest
    obtain ⟨hfirst, hstate'⟩ := sound_lexStep hstate hstep
    intro token htoken
    rcases List.mem_append.mp htoken with htoken | htoken
    · exact hfirst token htoken
    · exact ih hstate' hlex token htoken

/-! ### Documents -/

/-- A value below some open arrays and objects. -/
def Fits (level : ℕ) (v : Json) : Prop :=
  v.Made IsFloat ∧ v.depth + level < recursionLimit

/-- An array is one deeper than its items. -/
theorem fits_arr {level : ℕ} {items : List Json} (hlevel : level + 1 < recursionLimit)
    (h : ∀ v ∈ items, Fits (level + 1) v) :
  Fits level (.arr items)
  := by
  constructor
  · apply Made.arr
    intro v hv
    exact (h v hv).1
  · have hdepth : depthItems items + (level + 1) < recursionLimit := by
      induction items with
      | nil =>
        rw [depthItems]
        omega
      | cons v items ih =>
        rw [List.forall_mem_cons] at h
        have hv := h.1.2
        have hitems := ih h.2
        rw [depthItems]
        omega
    rw [depth]
    omega

/-- An object is one deeper than its values. -/
theorem fits_obj {level : ℕ} {fields : List (Text × Json)} (hlevel : level + 1 < recursionLimit)
    (h : ∀ f ∈ fields, Fits (level + 1) f.2) :
  Fits level (.obj fields)
  := by
  constructor
  · apply Made.obj
    intro f hf
    exact (h f hf).1
  · have hdepth : depthFields fields + (level + 1) < recursionLimit := by
      induction fields with
      | nil =>
        rw [depthFields]
        omega
      | cons f fields ih =>
        rw [List.forall_mem_cons] at h
        have hf := h.1.2
        have hfields := ih h.2
        rw [depthFields]
        omega
    rw [depth]
    omega

/-- The arrays and objects that are open can be closed. -/
def StackFits : List Frame → Prop
  | [] => True
  | .arr items :: stack =>
      stack.length + 1 < recursionLimit ∧ (∀ v ∈ items, Fits (stack.length + 1) v)
        ∧ StackFits stack
  | .obj fields _ :: stack =>
      stack.length + 1 < recursionLimit ∧ (∀ f ∈ fields, Fits (stack.length + 1) f.2)
        ∧ StackFits stack

/-- What has been read so far can be part of a document that is not too deep. -/
def ParseState.Fits : ParseState → Prop
  | .value stack => StackFits stack
  | .openArr stack => stack.length + 1 < recursionLimit ∧ StackFits stack
  | .openObj stack => stack.length + 1 < recursionLimit ∧ StackFits stack
  | .key fields stack | .colon fields _ stack =>
      stack.length + 1 < recursionLimit ∧ (∀ f ∈ fields, Json.Fits (stack.length + 1) f.2)
        ∧ StackFits stack
  | .after v stack => Json.Fits stack.length v ∧ StackFits stack

/-- No more arrays and objects are open than the parser allows. -/
theorem StackFits.length_lt {stack : List Frame} (h : StackFits stack) :
  stack.length < recursionLimit
  := by
  cases stack with
  | nil => decide
  | cons frame stack =>
    cases frame with
    | arr items => exact h.1
    | obj fields key => exact h.1

theorem fits_concat {level : ℕ} {items : List Json} {v : Json} (h : ∀ w ∈ items, Fits level w)
    (hv : Fits level v) :
  ∀ w ∈ items ++ [v], Fits level w
  := by
  intro w hw
  rcases List.mem_append.mp hw with hw | hw
  · exact h w hw
  · rw [List.mem_singleton.mp hw]
    exact hv

theorem fits_concat_field {level : ℕ} {fields : List (Text × Json)} {v : Json}
    (h : ∀ f ∈ fields, Fits level f.2) (key : Text) (hv : Fits level v) :
  ∀ f ∈ fields ++ [(key, v)], Fits level f.2
  := by
  intro f hf
  rcases List.mem_append.mp hf with hf | hf
  · exact h f hf
  · rw [List.mem_singleton.mp hf]
    exact hv

/-- A value is begun only where it fits. -/
theorem fits_parseValue {stack : List Frame} {token : Token} {state : ParseState}
    (hstack : StackFits stack) (htoken : token.Sound) (h : parseValue stack token = some state) :
  state.Fits
  := by
  have hscalar {v : Json} (hv : v.Made IsFloat) (hdepth : v.depth = 0) :
      Json.Fits stack.length v := by
    refine ⟨hv, ?_⟩
    rw [hdepth, Nat.zero_add]
    exact hstack.length_lt
  cases token with
  | null =>
    cases h
    exact ⟨hscalar .null rfl, hstack⟩
  | bool b =>
    cases h
    exact ⟨hscalar (.bool b) rfl, hstack⟩
  | int n =>
    cases h
    exact ⟨hscalar (.int htoken.1 htoken.2) rfl, hstack⟩
  | float literal =>
    cases h
    exact ⟨hscalar (.float htoken) rfl, hstack⟩
  | str s =>
    cases h
    exact ⟨hscalar (.str s) rfl, hstack⟩
  | lbracket =>
    rw [parseValue] at h
    split at h
    · next hlevel =>
      cases h
      exact ⟨hlevel, hstack⟩
    · cases h
  | lbrace =>
    rw [parseValue] at h
    split at h
    · next hlevel =>
      cases h
      exact ⟨hlevel, hstack⟩
    · cases h
  | rbracket => cases h
  | rbrace => cases h
  | comma => cases h
  | colon => cases h

/-- A sound token keeps the state fit. -/
theorem fits_parseStep {state state' : ParseState} {token : Token} (hstate : state.Fits)
    (htoken : token.Sound) (h : parseStep state token = some state') :
  state'.Fits
  := by
  cases state with
  | value stack => exact fits_parseValue hstate htoken h
  | openArr stack =>
    by_cases hclose : token = .rbracket
    · subst hclose
      cases h
      exact ⟨fits_arr hstate.1 (by simp), hstate.2⟩
    · have hvalue : parseValue (.arr [] :: stack) token = some state' := by
        cases token <;> first | exact h | exact absurd rfl hclose
      have hstack : StackFits (.arr [] :: stack) := ⟨hstate.1, by simp, hstate.2⟩
      exact fits_parseValue hstack htoken hvalue
  | openObj stack =>
    cases token with
    | rbrace =>
      cases h
      exact ⟨fits_obj hstate.1 (by simp), hstate.2⟩
    | str key =>
      cases h
      exact ⟨hstate.1, by simp, hstate.2⟩
    | _ => cases h
  | key fields stack =>
    cases token with
    | str key =>
      cases h
      exact hstate
    | _ => cases h
  | colon fields key stack =>
    cases token with
    | colon =>
      cases h
      exact hstate
    | _ => cases h
  | after v stack =>
    obtain ⟨hv, hstack⟩ := hstate
    cases stack with
    | nil => cases token <;> cases h
    | cons frame stack =>
      cases frame with
      | arr items =>
        have hitems := fits_concat hstack.2.1 hv
        cases token with
        | comma =>
          cases h
          exact ⟨hstack.1, hitems, hstack.2.2⟩
        | rbracket =>
          cases h
          exact ⟨fits_arr hstack.1 hitems, hstack.2.2⟩
        | _ => cases h
      | obj fields key =>
        have hfields := fits_concat_field hstack.2.1 key hv
        cases token with
        | comma =>
          cases h
          exact ⟨hstack.1, hfields, hstack.2.2⟩
        | rbrace =>
          cases h
          exact ⟨fits_obj hstack.1 hfields, hstack.2.2⟩
        | _ => cases h

theorem fits_foldlM {tokens : List Token} {state state' : ParseState} (hstate : state.Fits)
    (htokens : ∀ token ∈ tokens, token.Sound) (h : tokens.foldlM parseStep state = some state') :
  state'.Fits
  := by
  induction tokens generalizing state with
  | nil =>
    cases h
    exact hstate
  | cons token tokens ih =>
    rw [List.forall_mem_cons] at htokens
    rw [List.foldlM_cons] at h
    obtain ⟨next, hstep, hrest⟩ := Option.bind_eq_some_iff.mp h
    exact ih (fits_parseStep hstate htokens.1 hstep) htokens.2 hrest

/-- A document that was parsed can be written and parsed again. -/
theorem made_of_parse {s : Text} {v : Json} (h : parse s = some v) :
  v.Made IsFloat ∧ v.depth < recursionLimit
  := by
  obtain ⟨tokens, hlex, hrest⟩ := Option.bind_eq_some_iff.mp h
  obtain ⟨state, hfold, hdocument⟩ := Option.bind_eq_some_iff.mp hrest
  have hstart : LexState.Sound .start := trivial
  have hvalue : ParseState.Fits (.value []) := trivial
  have hfits : state.Fits := fits_foldlM hvalue (sound_lexFrom hstart hlex) hfold
  cases state with
  | after w stack =>
    cases stack with
    | nil =>
      cases hdocument
      exact hfits.1
    | cons frame stack => cases hdocument
  | _ => cases hdocument

end Json

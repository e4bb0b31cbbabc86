import AdBlock.Json.Reading
import AdBlock.Json.Serde

/-!
# Documents that are cut short

No part of the text of an object from its beginning is a document by itself
(`parse_take_eq_none`): when a document is complete, no further token is read, and the closing brace
of the object comes last.
-/

namespace Json

/-! ### Reading a text in parts -/

/-- The tokens that the characters of a text complete, and the state they lead to. -/
def lexRun : LexState → Text → Option (List Token × LexState)
  | state, [] => some ([], state)
  | state, c :: s =>
      (lexStep state c).bind fun next =>
        (lexRun next.2 s).map fun last => (next.1 ++ last.1, last.2)

theorem lexFrom_eq_lexRun (state : LexState) (s t : Text) :
  lexFrom state (s ++ t)
    = (lexRun state s).bind fun last => (lexFrom last.2 t).map (last.1 ++ ·)
  := by
  induction s generalizing state with
  | nil => simp [lexRun]
  | cons c s ih =>
    rw [List.cons_append, lexFrom, lexRun]
    cases lexStep state c with
    | none => rfl
    | some next =>
      rw [Option.bind_some, Option.bind_some]
      dsimp only
      rw [ih]
      cases lexRun next.2 s with
      | none => rfl
      | some last => simp [Option.map_map, Function.comp_def]

/-- The closing brace is a token wherever it is not in a string that goes on. -/
theorem lexFrom_rbrace {state : LexState} {tokens : List Token}
    (h : lexFrom state ['\x7d'] = some tokens) :
  tokens ≠ []
  := by
  rintro rfl
  cases state with
  | start => cases h
  | word acc =>
    have hstep : lexStep (.word acc) '\x7d'
        = (wordToken acc).map fun token => ([token, .rbrace], .start) := by
      rw [Option.map_eq_bind]
      rfl
    rw [lexFrom, hstep] at h
    cases htoken : wordToken acc with
    | none =>
      rw [htoken] at h
      cases h
    | some token =>
      rw [htoken] at h
      cases h
  | str acc | escape acc | hex acc high digits | pair acc high | pairEscape acc high => cases h

/-- What is read up to a closing brace completes a token. -/
theorem ne_nil_of_lexFrom {state : LexState} {s : Text} {tokens : List Token}
    (h : lexFrom state (s ++ ['\x7d']) = some tokens) :
  tokens ≠ []
  := by
  rw [lexFrom_eq_lexRun, Option.bind_eq_some_iff] at h
  obtain ⟨last, -, h⟩ := h
  obtain ⟨more, hmore, rfl⟩ := Option.map_eq_some_iff.mp h
  exact List.append_ne_nil_of_right_ne_nil _ (lexFrom_rbrace hmore)

/-! ### Words -/

/-- The tokens of numbers and words. -/
def Token.isWord : Token → Bool
  | .null | .bool _ | .int _ | .float _ => true
  | _ => false

theorem isWord_wordToken {word : Text} {token : Token} (h : wordToken word = some token) :
  token.isWord = true
  := by
  have hnumber {literal s : Text} {negative : Bool}
      (h : unsignedToken literal negative s = some token) : token.isWord = true := by
    rcases unsignedToken_cases h with rfl | ⟨n, rfl, -⟩
    · rfl
    · rfl
  rw [wordToken] at h
  split_ifs at h
  · cases h
    rfl
  · cases h
    rfl
  · cases h
    rfl
  · unfold numberToken at h
    split at h
    · exact hnumber h
    · exact hnumber h

/-- A word is a value by itself. -/
theorem exists_parseValue {token : Token} (h : token.isWord = true) :
  ∃ v, ∀ stack, parseValue stack token = some (.after v stack)
  := by
  cases token <;> first
    | (cases h; done)
    | exact ⟨_, fun _ => rfl⟩

/-! ### Complete documents -/

theorem parseStep_document {state : ParseState} {v : Json} (h : state.document = some v)
    (token : Token) :
  parseStep state token = none
  := by
  cases state with
  | after w stack =>
    cases stack with
    | nil => cases token <;> rfl
    | cons frame stack => cases h
  | value stack | openArr stack | openObj stack | key fields stack | colon fields key stack =>
    cases h

/-- Nothing is read after a complete document. -/
theorem foldlM_of_document {state : ParseState} {v : Json} (h : state.document = some v)
    {tokens : List Token} (hne : tokens ≠ []) :
  tokens.foldlM parseStep state = none
  := by
  cases tokens with
  | nil => exact absurd rfl hne
  | cons token tokens =>
    rw [List.foldlM_cons, parseStep_document h]
    rfl

/-- A word completes no document but itself. -/
theorem document_of_word {state : ParseState} (hstate : state ≠ .value []) {token : Token}
    (hword : token.isWord = true) :
  (parseStep state token).bind ParseState.document = none
  := by
  obtain ⟨w, hw⟩ := exists_parseValue hword
  cases state with
  | value stack =>
    rw [parseStep, hw]
    cases stack with
    | nil => exact absurd rfl hstate
    | cons frame stack => rfl
  | openArr stack =>
    have hitem : parseStep (.openArr stack) token = parseValue (.arr [] :: stack) token := by
      cases token <;> first
        | (cases hword; done)
        | rfl
    rw [hitem, hw]
    rfl
  | openObj stack | key fields stack | colon fields key stack =>
    cases token <;> first
      | (cases hword; done)
      | rfl
  | after w' stack =>
    rcases stack with _ | ⟨_ | _, _⟩ <;> cases token <;> first
      | (cases hword; done)
      | rfl

/-- After a token, a value is only to follow inside of something. -/
theorem ne_value_of_parseStep {state next : ParseState} {token : Token}
    (h : parseStep state token = some next) :
  next ≠ .value []
  := by
  have hvalue (stack : List Frame) : parseValue stack token ≠ some (.value []) := by
    cases token <;> simp [parseValue]
  rintro rfl
  revert h
  fun_cases parseStep state token <;> simp [hvalue]

theorem ne_value_of_foldlM {tokens : List Token} {state reached : ParseState}
    (h : tokens.foldlM parseStep state = some reached) (hstate : state ≠ .value []) :
  reached ≠ .value []
  := by
  induction tokens generalizing state with
  | nil =>
    cases h
    exact hstate
  | cons token tokens ih =>
    obtain ⟨next, hnext, h⟩ := Option.bind_eq_some_iff.mp h
    exact ih h (ne_value_of_parseStep hnext)

/-- If a text between braces is a document, no part of it from its beginning is one. -/
theorem parse_eq_none_of_append {front rest : Text} {v : Json}
    (h : parse ('\x7b' :: front ++ (rest ++ ['\x7d'])) = some v) :
  parse ('\x7b' :: front) = none
  := by
  have hopen (s : Text) : lex ('\x7b' :: s) = (lexFrom .start s).map ([.lbrace] ++ ·) :=
    lexFrom_cons rfl s
  obtain ⟨tokens, hlex, hparse⟩ := Option.bind_eq_some_iff.mp h
  obtain ⟨final, hfinal, -⟩ := Option.bind_eq_some_iff.mp hparse
  rw [List.cons_append, hopen, lexFrom_eq_lexRun, Option.map_eq_some_iff] at hlex
  obtain ⟨_, hlex, rfl⟩ := hlex
  obtain ⟨⟨read, state⟩, hread, hlex⟩ := Option.bind_eq_some_iff.mp hlex
  obtain ⟨more, hmore, rfl⟩ := Option.map_eq_some_iff.mp hlex
  have hfront : lex ('\x7b' :: front) = (lexEnd state).map ([.lbrace] ++ read ++ ·) := by
    have hrun := lexFrom_eq_lexRun .start front []
    rw [List.append_nil, hread] at hrun
    rw [hopen, hrun]
    exact Option.map_map _ _ _
  rw [← List.append_assoc, List.foldlM_append, Option.bind_eq_bind, Option.bind_eq_some_iff]
    at hfinal
  obtain ⟨reached, hreached, hfinal⟩ := hfinal
  have hinside := @ne_value_of_foldlM read (.openObj []) reached hreached nofun
  rw [parse, hfront]
  cases state with
  | start =>
    -- the tokens of the part are complete, and others follow
    rw [lexEnd, Option.map_some, Option.bind_some, List.append_nil, hreached, Option.bind_some]
    cases hdocument : reached.document with
    | none => rfl
    | some w =>
      rw [foldlM_of_document hdocument (ne_nil_of_lexFrom hmore)] at hfinal
      cases hfinal
  | word acc =>
    -- the word at the end of the part would be the document, which is an object
    rw [lexEnd]
    cases hword : wordToken acc with
    | none => rfl
    | some cut =>
      rw [Option.map_some, Option.map_some, Option.bind_some, List.foldlM_append, hreached,
        Option.bind_eq_bind, Option.bind_some, List.foldlM_cons, Option.bind_eq_bind,
        Option.bind_assoc]
      exact document_of_word hinside (isWord_wordToken hword)
  | str acc | escape acc | hex acc high digits | pair acc high | pairEscape acc high => rfl

/-- An object that is cut short is no document. -/
theorem parse_take_eq_none (style : Style) {fields : List (Text × Json)}
    (hmade : (Json.obj fields).Made IsFloat) (hdepth : (Json.obj fields).depth < recursionLimit)
    {n : ℕ} (hn : n < (render style 0 (.obj fields)).length) :
  parse ((render style 0 (.obj fields)).take n) = none
  := by
  have hparse := parse_render style hmade hdepth (List.forall_mem_nil _)
  rw [List.append_nil] at hparse
  obtain ⟨text, htext⟩ : ∃ text, render style 0 (.obj fields) = '\x7b' :: text ++ ['\x7d'] := by
    rw [render_obj, Style.enclose]
    split
    · exact ⟨[], rfl⟩
    · exact ⟨_, rfl⟩
  rw [htext, List.length_append, List.length_singleton] at hn
  rw [htext] at hparse ⊢
  rw [List.take_append_of_le_length (by omega)]
  cases n with
  | zero => rfl
  | succ n =>
    rw [List.take_succ_cons]
    apply @parse_eq_none_of_append _ (text.drop n) (.obj fields)
    rw [← List.append_assoc, List.cons_append, List.take_append_drop]
    exact hparse

end Json

/-- An object that is written is not read when it is cut short. -/
def SerdeJson.RejectsCut (S : SerdeJson) (isFloat : Text → Prop) : Prop :=
  ∀ {fields : List (Text × Json)}, (Json.obj fields).Made isFloat →
    (Json.obj fields).depth < Json.recursionLimit →
    ∀ {n : ℕ}, n < (S.toStringPretty (.obj fields)).length →
      S.fromStr ((S.toStringPretty (.obj fields)).take n) = none

theorem SerdeJson.rejectsCut_reference :
  SerdeJson.reference.RejectsCut Json.IsFloat
  := Json.parse_take_eq_none .pretty

import AdBlock.Json.Lexer

/-!
# Writing and parsing JSON

`parse` reads the tokens of a text with a stack of the arrays and objects that are open.  A
document is written in a style, which says what stands between its tokens.  Whatever the style, a
document that is not nested too deep is parsed back (`parse_render`).
-/

namespace Json

/-! ### Parsing -/

/-- An array or an object that is open, where the next value goes. -/
inductive Frame where
  | arr (items : List Json)
  | obj (fields : List (Text × Json)) (key : Text)

/-- What the tokens read so far lead to. -/
inductive ParseState where
  /-- A value must follow. -/
  | value (stack : List Frame)
  /-- After a bracket: a value or the closing bracket must follow. -/
  | openArr (stack : List Frame)
  /-- After a brace: a key or the closing brace must follow. -/
  | openObj (stack : List Frame)
  /-- After a comma in an object: a key must follow. -/
  | key (fields : List (Text × Json)) (stack : List Frame)
  /-- After a key: a colon must follow. -/
  | colon (fields : List (Text × Json)) (key : Text) (stack : List Frame)
  /-- After a value. -/
  | after (v : Json) (stack : List Frame)

/-- How deep a text may be nested. -/
def recursionLimit : ℕ := 128

/-- A token where a value must follow. -/
def parseValue (stack : List Frame) : Token → Option ParseState
  | .null => some (.after .null stack)
  | .bool b => some (.after (.bool b) stack)
  | .int n => some (.after (.int n) stack)
  | .float literal => some (.after (.float literal) stack)
  | .str s => some (.after (.str s) stack)
  | .lbracket => if stack.length + 1 < recursionLimit then some (.openArr stack) else none
  | .lbrace => if stack.length + 1 < recursionLimit then some (.openObj stack) else none
  | .rbracket | .rbrace | .comma | .colon => none

/-- A token. -/
def parseStep : ParseState → Token → Option ParseState
  | .value stack, token => parseValue stack token
  | .openArr stack, .rbracket => some (.after (.arr []) stack)
  | .openArr stack, token => parseValue (.arr [] :: stack) token
  | .openObj stack, .rbrace => some (.after (.obj []) stack)
  | .openObj stack, .str key => some (.colon [] key stack)
  | .key fields stack, .str key => some (.colon fields key stack)
  | .colon fields key stack, .colon => some (.value (.obj fields key :: stack))
  | .after v (.arr items :: stack), .comma => some (.value (.arr (items ++ [v]) :: stack))
  | .after v (.arr items :: stack), .rbracket => some (.after (.arr (items ++ [v])) stack)
  | .after v (.obj fields key :: stack), .comma => some (.key (fields ++ [(key, v)]) stack)
  | .after v (.obj fields key :: stack), .rbrace =>
      some (.after (.obj (fields ++ [(key, v)])) stack)
  | _, _ => none

/-- The document, when nothing is open. -/
def ParseState.document : ParseState → Option Json
  | .after v [] => some v
  | _ => none

/-- The document that a text is. -/
def parse (s : Text) : Option Json :=
  (lex s).bind fun tokens => (tokens.foldlM parseStep (.value [])).bind ParseState.document

/-! ### Writing -/

/-- What stands between the tokens of a document. -/
structure Style where
  /-- Between the items of an array or object, by how deep they are. -/
  newline : ℕ → Text
  /-- Between a colon and the value. -/
  space : Text
  newline_space : ∀ depth, ∀ c ∈ newline depth, isSpace c
  space_space : ∀ c ∈ space, isSpace c

/-- Nothing between the tokens. -/
def Style.compact : Style where
  newline _ := []
  space := []
  newline_space := by simp
  space_space := by simp

/-- A line for each item, with two spaces for each level. -/
def Style.pretty : Style where
  newline depth := '\n' :: List.replicate (2 * depth) ' '
  space := [' ']
  newline_space := by
    intro depth c hc
    rcases List.mem_cons.mp hc with rfl | hc
    · decide
    · rw [(List.mem_replicate.mp hc).2]
      decide
  space_space := by decide

/-- Texts of items between an opening and a closing character, in a style. -/
def Style.enclose (style : Style) (depth : ℕ) (left right : Char) (items : List Text) : Text :=
  if items.isEmpty then [left, right]
  else left :: [','].intercalate (items.map (style.newline (depth + 1) ++ ·))
    ++ style.newline depth ++ [right]

mutual

/-- A document as it is written, at some depth. -/
def render (style : Style) (depth : ℕ) : Json → Text
  | .null => "null".toList
  | .bool true => "true".toList
  | .bool false => "false".toList
  | .int n => integer n
  | .float literal => literal
  | .str s => quote s
  | .arr items => style.enclose depth '[' ']' (renderItems style (depth + 1) items)
  | .obj fields => style.enclose depth '\x7b' '\x7d' (renderFields style (depth + 1) fields)

def renderItems (style : Style) (depth : ℕ) : List Json → List Text
  | [] => []
  | v :: items => render style depth v :: renderItems style depth items

def renderFields (style : Style) (depth : ℕ) : List (Text × Json) → List Text
  | [] => []
  | (key, v) :: fields =>
      (quote key ++ ':' :: style.space ++ render style depth v) :: renderFields style depth fields

end

mutual

/-- The tokens of a document. -/
def tokens : Json → List Token
  | .null => [.null]
  | .bool b => [.bool b]
  | .int n => [.int n]
  | .float literal => [.float literal]
  | .str s => [.str s]
  | .arr items => .lbracket :: [Token.comma].intercalate (tokensItems items) ++ [.rbracket]
  | .obj fields => .lbrace :: [Token.comma].intercalate (tokensFields fields) ++ [.rbrace]

def tokensItems : List Json → List (List Token)
  | [] => []
  | v :: items => tokens v :: tokensItems items

def tokensFields : List (Text × Json) → List (List Token)
  | [] => []
  | (key, v) :: fields => (.str key :: .colon :: tokens v) :: tokensFields fields

end

theorem renderItems_eq (style : Style) (depth : ℕ) (items : List Json) :
  renderItems style depth items = items.map (render style depth)
  := by
  induction items with
  | nil => rfl
  | cons v items ih => exact congrArg (_ :: ·) ih

theorem renderFields_eq (style : Style) (depth : ℕ) (fields : List (Text × Json)) :
  renderFields style depth fields
    = fields.map fun f => quote f.1 ++ ':' :: style.space ++ render style depth f.2
  := by
  induction fields with
  | nil => rfl
  | cons f fields ih => exact congrArg (_ :: ·) ih

theorem tokensItems_eq (items : List Json) :
  tokensItems items = items.map tokens
  := by
  induction items with
  | nil => rfl
  | cons v items ih => exact congrArg (_ :: ·) ih

theorem tokensFields_eq (fields : List (Text × Json)) :
  tokensFields fields = fields.map fun f => .str f.1 :: .colon :: tokens f.2
  := by
  induction fields with
  | nil => rfl
  | cons f fields ih => exact congrArg (_ :: ·) ih

theorem render_arr (style : Style) (depth : ℕ) (items : List Json) :
  render style depth (.arr items)
    = style.enclose depth '[' ']' (items.map (render style (depth + 1)))
  := by
  rw [← renderItems_eq]
  rfl

theorem render_obj (style : Style) (depth : ℕ) (fields : List (Text × Json)) :
  render style depth (.obj fields)
    = style.enclose depth '\x7b' '\x7d'
        (fields.map fun f => quote f.1 ++ ':' :: style.space ++ render style (depth + 1) f.2)
  := by
  rw [← renderFields_eq]
  rfl

theorem tokens_arr (items : List Json) :
  tokens (.arr items)
    = .lbracket :: [Token.comma].intercalate (items.map tokens) ++ [.rbracket]
  := by
  rw [← tokensItems_eq]
  rfl

theorem tokens_obj (fields : List (Text × Json)) :
  tokens (.obj fields) = .lbrace
    :: [Token.comma].intercalate (fields.map fun f => .str f.1 :: .colon :: tokens f.2)
      ++ [.rbrace]
  := by
  rw [← tokensFields_eq]
  rfl

theorem intercalate_cons_cons {α : Type*} (sep x y : List α) (l : List (List α)) :
  sep.intercalate (x :: y :: l) = x ++ (sep ++ sep.intercalate (y :: l))
  := by
  rw [List.intercalate_cons_cons, List.append_assoc]

theorem exists_intercalate_cons {α : Type*} (sep x : List α) (l : List (List α)) :
  ∃ tail, sep.intercalate (x :: l) = x ++ tail
  := by
  cases l with
  | nil => exact ⟨[], by simp [List.intercalate]⟩
  | cons y l => exact ⟨_, intercalate_cons_cons sep x y l⟩

/-! ### What is written is read as its tokens -/

/-- A text is read as some tokens, followed by anything. -/
def Solid (text : Text) (toks : List Token) : Prop :=
  ∀ rest, lexFrom .start (text ++ rest) = (lexFrom .start rest).map (toks ++ ·)

/-- A text is read as some tokens, followed by anything that does not go on with a word. -/
def Reads (text : Text) (toks : List Token) : Prop :=
  ∀ rest, Delimited rest → lexFrom .start (text ++ rest) = (lexFrom .start rest).map (toks ++ ·)

theorem Solid.reads {text : Text} {toks : List Token} (h : Solid text toks) :
  Reads text toks
  := fun rest _ => h rest

theorem Solid.append {text text' : Text} {toks toks' : List Token} (h : Solid text toks)
    (h' : Reads text' toks') :
  Reads (text ++ text') (toks ++ toks')
  := by
  intro rest hrest
  rw [List.append_assoc, h, h' rest hrest, Option.map_map]
  simp [Function.comp_def]

theorem Reads.append {text text' : Text} {toks toks' : List Token} (h : Reads text toks)
    (h' : Reads text' toks') (hdelim : ∀ rest, Delimited rest → Delimited (text' ++ rest)) :
  Reads (text ++ text') (toks ++ toks')
  := by
  intro rest hrest
  rw [List.append_assoc, h _ (hdelim rest hrest), h' rest hrest, Option.map_map]
  simp [Function.comp_def]

theorem solid_space {space : Text} (h : ∀ c ∈ space, isSpace c) :
  Solid space []
  := by
  intro rest
  rw [lexFrom_space h]
  exact Option.map_id'.symm

/-- A character that is a token by itself. -/
theorem solid_punctuation {c : Char} {token : Token}
    (h : lexStep .start c = some ([token], .start)) :
  Solid [c] [token]
  := lexFrom_cons h

theorem solid_quote (s : Text) :
  Solid (quote s) [.str s]
  := lexFrom_quote s

theorem delimited_space_append {space text : Text} (hspace : ∀ c ∈ space, isSpace c)
    (h : Delimited text) :
  Delimited (space ++ text)
  := by
  cases space with
  | nil => exact h
  | cons c space =>
    exact delimited_cons (not_isWordChar_of_isSpace (hspace c List.mem_cons_self)) _

/-- Items with commas between them. -/
theorem reads_intercalate {texts : List Text} {toks : List (List Token)}
    (h : List.Forall₂ Reads texts toks) :
  Reads ([','].intercalate texts) ([Token.comma].intercalate toks)
  := by
  induction h with
  | nil => exact (solid_space (by simp)).reads
  | cons hhead htail ih =>
    cases htail with
    | nil => simpa [List.intercalate] using hhead
    | cons hnext htail =>
      rw [intercalate_cons_cons, intercalate_cons_cons]
      apply hhead.append ((solid_punctuation rfl).append ih)
      intro rest _
      exact delimited_cons (by decide) _

/-- Items between an opening and a closing character. -/
theorem reads_enclose (style : Style) (depth : ℕ) {left right : Char} {open_ close : Token}
    (hleft : lexStep .start left = some ([open_], .start))
    (hright : lexStep .start right = some ([close], .start)) (hword : ¬ isWordChar right)
    {texts : List Text} {toks : List (List Token)} (h : List.Forall₂ Reads texts toks) :
  Reads (style.enclose depth left right texts)
    (open_ :: [Token.comma].intercalate toks ++ [close])
  := by
  have hclose : Solid [right] [close] := solid_punctuation hright
  rw [Style.enclose]
  split
  · next hnil =>
    obtain rfl : texts = [] := List.isEmpty_iff.mp hnil
    cases h
    exact (solid_punctuation hleft).append hclose.reads
  · have hitems : List.Forall₂ Reads (texts.map (style.newline (depth + 1) ++ ·)) toks := by
      rw [List.forall₂_map_left_iff]
      apply h.imp
      intro text tok htext
      exact (solid_space (style.newline_space (depth + 1))).append htext
    have hend : Reads (style.newline depth ++ [right]) [close] :=
      (solid_space (style.newline_space depth)).append hclose.reads
    have hbody := (reads_intercalate hitems).append hend (by
      intro rest _
      rw [List.append_assoc]
      exact delimited_space_append (style.newline_space depth) (delimited_cons hword _))
    have hall := (solid_punctuation hleft).append hbody
    simpa using hall

theorem reads_word (word : Text) {token : Token} (hne : word ≠ [])
    (hchars : ∀ c ∈ word, isWordChar c) (htoken : wordToken word = some token) :
  Reads word [token]
  := fun _ hrest => lexFrom_word hne hchars htoken hrest

/-- A document is read as its tokens. -/
theorem reads_render (style : Style) (depth : ℕ) {v : Json} (hv : v.Made IsFloat) :
  Reads (render style depth v) (tokens v)
  := by
  induction v generalizing depth with
  | null => exact reads_word "null".toList (by decide) (by decide) (by decide)
  | bool b =>
    cases b with
    | true => exact reads_word "true".toList (by decide) (by decide) (by decide)
    | false => exact reads_word "false".toList (by decide) (by decide) (by decide)
  | int n =>
    cases hv with
    | int hlow hhigh =>
      intro rest hrest
      exact lexFrom_integer hlow hhigh hrest
  | float literal =>
    cases hv with
    | float hfloat => exact reads_word literal hfloat.ne_nil hfloat.chars hfloat.token
  | str s => exact (solid_quote s).reads
  | arr items ih =>
    cases hv with
    | arr hitems =>
      rw [render_arr, tokens_arr]
      apply reads_enclose style depth rfl rfl (by decide)
      rw [List.forall₂_map_left_iff, List.forall₂_map_right_iff, List.forall₂_same]
      intro v hv
      exact ih v hv (depth + 1) (hitems v hv)
  | obj fields ih =>
    cases hv with
    | obj hfields =>
      rw [render_obj, tokens_obj]
      apply reads_enclose style depth rfl rfl (by decide)
      rw [List.forall₂_map_left_iff, List.forall₂_map_right_iff, List.forall₂_same]
      intro f hf
      have hvalue := ih f hf (depth + 1) (hfields f hf)
      have hcolon := (solid_punctuation (c := ':') rfl).append
        ((solid_space style.space_space).append hvalue)
      have hfield := (solid_quote f.1).append hcolon
      simpa using hfield

/-! ### What is written is parsed back -/

variable {stack : List Frame} {rest : List Token}

/-- The first token of a value closes nothing. -/
theorem exists_tokens_eq (v : Json) :
  ∃ token toks, tokens v = token :: toks ∧ token ≠ .rbracket
  := by
  cases v <;> exact ⟨_, _, rfl, by simp⟩

/-- After a bracket, a value is read as the first item. -/
theorem foldlM_openArr (v : Json) (rest : List Token) :
  (tokens v ++ rest).foldlM parseStep (.openArr stack)
    = (tokens v ++ rest).foldlM parseStep (.value (.arr [] :: stack))
  := by
  obtain ⟨token, toks, heq, hne⟩ := exists_tokens_eq v
  rw [heq, List.cons_append, List.foldlM_cons, List.foldlM_cons]
  congr 1
  cases token <;> first | rfl | exact absurd rfl hne

/-- A value is parsed back in any place. -/
def Parses (v : Json) : Prop :=
  ∀ (stack : List Frame) (rest : List Token), stack.length + v.depth < recursionLimit →
    (tokens v ++ rest).foldlM parseStep (.value stack) = rest.foldlM parseStep (.after v stack)

/-- The items of an array, after some. -/
theorem foldlM_items {v : Json} {items : List Json} (h : ∀ w ∈ v :: items, Parses w)
    (hdepth : ∀ w ∈ v :: items, stack.length + 1 + w.depth < recursionLimit)
    (done : List Json) (rest : List Token) :
  ([Token.comma].intercalate ((v :: items).map tokens) ++ .rbracket :: rest).foldlM parseStep
      (.value (.arr done :: stack))
    = rest.foldlM parseStep (.after (.arr (done ++ v :: items)) stack)
  := by
  have hvalue (rest : List Token) : (tokens v ++ rest).foldlM parseStep (.value (.arr done :: stack))
      = rest.foldlM parseStep (.after v (.arr done :: stack)) :=
    h v List.mem_cons_self (.arr done :: stack) rest (hdepth v List.mem_cons_self)
  induction items generalizing v done with
  | nil =>
    rw [List.map_cons, List.map_nil, List.intercalate_singleton, hvalue]
    rfl
  | cons w items ih =>
    rw [List.map_cons, List.map_cons, intercalate_cons_cons, List.append_assoc, hvalue]
    have h' : ∀ u ∈ w :: items, Parses u := fun u hu => h u (List.mem_cons_of_mem v hu)
    have hdepth' : ∀ u ∈ w :: items, stack.length + 1 + u.depth < recursionLimit :=
      fun u hu => hdepth u (List.mem_cons_of_mem v hu)
    have htail := ih h' hdepth' (done ++ [v]) fun rest =>
      h' w List.mem_cons_self (.arr (done ++ [v]) :: stack) rest (hdepth' w List.mem_cons_self)
    rw [List.append_assoc] at htail
    exact htail

/-- The fields of an object, after some. -/
theorem foldlM_fields {f : Text × Json} {fields : List (Text × Json)}
    (h : ∀ g ∈ f :: fields, Parses g.2)
    (hdepth : ∀ g ∈ f :: fields, stack.length + 1 + g.2.depth < recursionLimit)
    (done : List (Text × Json)) (rest : List Token) :
  ([Token.comma].intercalate ((f :: fields).map fun g => .str g.1 :: .colon :: tokens g.2)
      ++ .rbrace :: rest).foldlM parseStep (.key done stack)
    = rest.foldlM parseStep (.after (.obj (done ++ f :: fields)) stack)
  := by
  have hvalue (rest : List Token) :
      ((.str f.1 :: .colon :: tokens f.2) ++ rest).foldlM parseStep (.key done stack)
        = rest.foldlM parseStep (.after f.2 (.obj done f.1 :: stack)) :=
    h f List.mem_cons_self (.obj done f.1 :: stack) rest (hdepth f List.mem_cons_self)
  induction fields generalizing f done with
  | nil =>
    rw [List.map_cons, List.map_nil, List.intercalate_singleton, hvalue]
    rfl
  | cons g fields ih =>
    rw [List.map_cons, List.map_cons, intercalate_cons_cons, List.append_assoc, hvalue]
    have h' : ∀ u ∈ g :: fields, Parses u.2 := fun u hu => h u (List.mem_cons_of_mem f hu)
    have hdepth' : ∀ u ∈ g :: fields, stack.length + 1 + u.2.depth < recursionLimit :=
      fun u hu => hdepth u (List.mem_cons_of_mem f hu)
    have htail := ih (f := g) h' hdepth' (done ++ [f]) fun rest =>
      h' g List.mem_cons_self (.obj (done ++ [f]) g.1 :: stack) rest (hdepth' g List.mem_cons_self)
    rw [List.append_assoc] at htail
    exact htail

theorem parses (v : Json) :
  Parses v
  := by
  induction v with
  | null => exact fun _ _ _ => rfl
  | bool b => exact fun _ _ _ => rfl
  | int n => exact fun _ _ _ => rfl
  | float literal => exact fun _ _ _ => rfl
  | str s => exact fun _ _ _ => rfl
  | arr items ih =>
    intro stack rest hdepth
    rw [depth] at hdepth
    have hopen : parseStep (.value stack) .lbracket = some (.openArr stack) :=
      if_pos (show stack.length + 1 < recursionLimit by omega)
    rw [tokens_arr, List.cons_append, List.cons_append, List.foldlM_cons, hopen,
      List.append_assoc]
    cases items with
    | nil => rfl
    | cons v items =>
      have hitems : ∀ w ∈ v :: items, stack.length + 1 + w.depth < recursionLimit := by
        intro w hw
        have := depth_le_of_mem hw
        omega
      have hloop := foldlM_items ih hitems [] rest
      obtain ⟨tail, htail⟩ := exists_intercalate_cons [Token.comma] (tokens v) (items.map tokens)
      rw [List.map_cons, htail, List.append_assoc, ← foldlM_openArr, ← List.append_assoc, ← htail]
        at hloop
      exact hloop
  | obj fields ih =>
    intro stack rest hdepth
    rw [depth] at hdepth
    have hopen : parseStep (.value stack) .lbrace = some (.openObj stack) :=
      if_pos (show stack.length + 1 < recursionLimit by omega)
    rw [tokens_obj, List.cons_append, List.cons_append, List.foldlM_cons, hopen,
      List.append_assoc]
    cases fields with
    | nil => rfl
    | cons f fields =>
      have hfields : ∀ g ∈ f :: fields, stack.length + 1 + g.2.depth < recursionLimit := by
        intro g hg
        have := depth_le_of_mem_fields hg
        omega
      have hloop := foldlM_fields ih hfields [] rest
      -- the first token is a key, as after a comma
      obtain ⟨tail, htail⟩ := exists_intercalate_cons [Token.comma]
        (.str f.1 :: .colon :: tokens f.2)
        (fields.map fun g => .str g.1 :: .colon :: tokens g.2)
      rw [List.map_cons, htail] at hloop ⊢
      exact hloop

/-- A document that is not nested too deep is parsed back, whatever space stands around it. -/
theorem parse_render (style : Style) {v : Json} (hv : v.Made IsFloat)
    (hdepth : v.depth < recursionLimit) {space : Text} (hspace : ∀ c ∈ space, isSpace c) :
  parse (render style 0 v ++ space) = some v
  := by
  have hend := (solid_space hspace) []
  rw [List.append_nil] at hend
  have hdelim : Delimited space := by
    have := delimited_space_append hspace delimited_nil
    rwa [List.append_nil] at this
  have hparses := parses v [] [] (by simpa using hdepth)
  rw [List.append_nil] at hparses
  rw [parse, lex, reads_render style 0 hv space hdelim, hend]
  simp only [lexFrom, lexEnd, Option.map_some, Option.bind_some, List.append_nil, hparses]
  rfl

end Json

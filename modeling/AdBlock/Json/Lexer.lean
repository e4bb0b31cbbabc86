import AdBlock.Json.Basic

/-!
# The tokens of a JSON text

`lex` reads a text into tokens, character by character: the state says what the characters read
so far began.  Strings, punctuation and words are read back as they are written, followed by
anything that does not go on with a word (`Delimited`).
-/

namespace Json

/-- The tokens of a JSON text. -/
inductive Token where
  | lbrace
  | rbrace
  | lbracket
  | rbracket
  | comma
  | colon
  | null
  | bool (b : Bool)
  | int (n : ℤ)
  | float (literal : Text)
  | str (s : Text)
  deriving DecidableEq, Repr

/-! ### Numbers and words -/

/-- `e` or `E`, a sign that may be missing, and digits; or nothing. -/
def isExponent : Text → Bool
  | [] => true
  | c :: s =>
      let digits := match s with
        | '+' :: s => s
        | '-' :: s => s
        | s => s
      (c = 'e' ∨ c = 'E') && !digits.isEmpty && digits.all Char.isDigit

/-- What may follow the integer part of a number: a fraction and an exponent. -/
def isFraction : Text → Bool
  | '.' :: s => !(s.takeWhile Char.isDigit).isEmpty && isExponent (s.dropWhile Char.isDigit)
  | s => isExponent s

/-- The integer part of a number: digits, with no zero in front of others. -/
def isIntegerPart (digits : Text) : Bool :=
  !digits.isEmpty && (digits.length = 1 || digits.head? ≠ some '0')

/-- An integer of 64 bits, or a number of another form. -/
def integerToken (literal : Text) (negative : Bool) (n : ℕ) : Token :=
  if negative then
    if n = 0 ∨ 2 ^ 63 < n then .float literal else .int (-n)
  else if n < 2 ^ 64 then .int n else .float literal

/-- A number, as it is written after its sign. -/
def unsignedToken (literal : Text) (negative : Bool) (s : Text) : Option Token :=
  let digits := s.takeWhile Char.isDigit
  let rest := s.dropWhile Char.isDigit
  if isIntegerPart digits then
    if rest.isEmpty then some (integerToken literal negative (Nat.ofDigitChars 10 digits 0))
    else if isFraction rest then some (.float literal)
    else none
  else none

def numberToken (literal : Text) : Option Token :=
  match literal with
  | '-' :: s => unsignedToken literal true s
  | s => unsignedToken literal false s

/-- A number or one of the words. -/
def wordToken (s : Text) : Option Token :=
  if s = "null".toList then some .null
  else if s = "true".toList then some (.bool true)
  else if s = "false".toList then some (.bool false)
  else numberToken s

/-- The characters of numbers and words. -/
def isWordChar (c : Char) : Bool :=
  c.isAlphanum || c = '-' || c = '+' || c = '.'

/-- A number that is no integer of 64 bits. -/
structure IsFloat (literal : Text) : Prop where
  ne_nil : literal ≠ []
  chars : ∀ c ∈ literal, isWordChar c
  token : wordToken literal = some (.float literal)

/-! ### The lexer -/

/-- What the characters read so far began. -/
inductive LexState where
  | start
  | word (acc : Text)
  | str (acc : Text)
  /-- After a backslash in a string. -/
  | escape (acc : Text)
  /-- After the `u` of an escape, with the digits read so far and the first half of a surrogate
  pair if there was one. -/
  | hex (acc : Text) (high : Option ℕ) (digits : List ℕ)
  /-- After the first half of a surrogate pair. -/
  | pair (acc : Text) (high : ℕ)
  /-- After the backslash that follows the first half of a surrogate pair. -/
  | pairEscape (acc : Text) (high : ℕ)
  deriving DecidableEq, Repr

def isSpace (c : Char) : Bool :=
  c = ' ' || c = '\n' || c = '\t' || c = '\r'

def hexValue (c : Char) : Option ℕ :=
  if c.isDigit then some (c.toNat - '0'.toNat)
  else if 'a' ≤ c ∧ c ≤ 'f' then some (c.toNat - 'a'.toNat + 10)
  else if 'A' ≤ c ∧ c ≤ 'F' then some (c.toNat - 'A'.toNat + 10)
  else none

/-- The character that a letter after a backslash stands for. -/
def escapedChar (c : Char) : Option Char :=
  if c = '"' ∨ c = '\\' ∨ c = '/' then some c
  else if c = 'b' then some '\x08'
  else if c = 'f' then some '\x0c'
  else if c = 'n' then some '\n'
  else if c = 'r' then some '\r'
  else if c = 't' then some '\t'
  else none

/-- The state after the four digits of an escape. -/
def afterHex (acc : Text) (high : Option ℕ) (n : ℕ) : Option LexState :=
  match high with
  | none =>
      if 0xd800 ≤ n ∧ n < 0xdc00 then some (.pair acc n)
      else if 0xdc00 ≤ n ∧ n < 0xe000 then none
      else some (.str (acc ++ [Char.ofNat n]))
  | some high =>
      if 0xdc00 ≤ n ∧ n < 0xe000 then
        some (.str (acc ++ [Char.ofNat (0x10000 + (high - 0xd800) * 0x400 + (n - 0xdc00))]))
      else none

/-- A character where a token may begin. -/
def lexStart (c : Char) : Option (List Token × LexState) :=
  if isWordChar c then some ([], .word [c])
  else if isSpace c then some ([], .start)
  else if c = '\x7b' then some ([.lbrace], .start)
  else if c = '\x7d' then some ([.rbrace], .start)
  else if c = '[' then some ([.lbracket], .start)
  else if c = ']' then some ([.rbracket], .start)
  else if c = ',' then some ([.comma], .start)
  else if c = ':' then some ([.colon], .start)
  else if c = '"' then some ([], .str [])
  else none

/-- A character: the tokens it completes and the state it leads to. -/
def lexStep : LexState → Char → Option (List Token × LexState)
  | .start, c => lexStart c
  | .word acc, c =>
      if isWordChar c then some ([], .word (acc ++ [c]))
      else (wordToken acc).bind fun token =>
        (lexStart c).map fun (tokens, state) => (token :: tokens, state)
  | .str acc, c =>
      if c = '"' then some ([.str acc], .start)
      else if c = '\\' then some ([], .escape acc)
      else if c.toNat < 0x20 then none
      else some ([], .str (acc ++ [c]))
  | .escape acc, c =>
      if c = 'u' then some ([], .hex acc none [])
      else (escapedChar c).map fun e => ([], .str (acc ++ [e]))
  | .hex acc high digits, c =>
      (hexValue c).bind fun d =>
        match digits with
        | [d₁, d₂, d₃] =>
            (afterHex acc high (((d₁ * 16 + d₂) * 16 + d₃) * 16 + d)).map fun state => ([], state)
        | _ => some ([], .hex acc high (digits ++ [d]))
  | .pair acc high, c => if c = '\\' then some ([], .pairEscape acc high) else none
  | .pairEscape acc high, c => if c = 'u' then some ([], .hex acc (some high) []) else none

/-- The tokens that the end of the text completes. -/
def lexEnd : LexState → Option (List Token)
  | .start => some []
  | .word acc => (wordToken acc).map fun token => [token]
  | _ => none

/-- The tokens of a text, from a state on. -/
def lexFrom : LexState → Text → Option (List Token)
  | state, [] => lexEnd state
  | state, c :: s =>
      (lexStep state c).bind fun (tokens, state) => (lexFrom state s).map (tokens ++ ·)

/-- The tokens of a text. -/
def lex (s : Text) : Option (List Token) :=
  lexFrom .start s

/-! ### Reading punctuation and space -/

theorem lexFrom_cons {state state' : LexState} {c : Char} {tokens : List Token}
    (h : lexStep state c = some (tokens, state')) (s : Text) :
  lexFrom state (c :: s) = (lexFrom state' s).map (tokens ++ ·)
  := by
  rw [lexFrom, h]
  rfl

/-- A character that completes no token only changes the state. -/
theorem lexFrom_silent {state : LexState} (state' : LexState) {c : Char}
    (h : lexStep state c = some ([], state')) (s : Text) :
  lexFrom state (c :: s) = lexFrom state' s
  := by
  rw [lexFrom_cons h]
  exact Option.map_id'

theorem not_isWordChar_of_isSpace {c : Char} (h : isSpace c) :
  ¬ isWordChar c
  := by
  simp only [isSpace, Bool.or_eq_true, decide_eq_true_eq] at h
  obtain ((rfl | rfl) | rfl) | rfl := h <;> decide

theorem lexFrom_space {space : Text} (h : ∀ c ∈ space, isSpace c) (s : Text) :
  lexFrom .start (space ++ s) = lexFrom .start s
  := by
  induction space with
  | nil => rfl
  | cons c space ih =>
    rw [List.forall_mem_cons] at h
    have hstep : lexStep .start c = some ([], .start) := by
      rw [lexStep, lexStart, if_neg (not_isWordChar_of_isSpace h.1), if_pos h.1]
    rw [List.cons_append, lexFrom_silent _ hstep, ih h.2]

/-! ### Writing and reading strings -/

def hexDigit (n : ℕ) : Char :=
  if n < 10 then Char.ofNat ('0'.toNat + n) else Char.ofNat ('a'.toNat + (n - 10))

/-- The characters that are written as a backslash and a letter, with the letter. -/
def letters : List (Char × Char) :=
  [('"', '"'), ('\\', '\\'), ('\x08', 'b'), ('\x0c', 'f'), ('\n', 'n'), ('\r', 'r'), ('\t', 't')]

/-- A character as it is written in a string. -/
def escapeChar (c : Char) : Text :=
  match letters.find? (fun l => l.1 = c) with
  | some l => ['\\', l.2]
  | none =>
      if c.toNat < 0x20 then
        ['\\', 'u', '0', '0', hexDigit (c.toNat / 16), hexDigit (c.toNat % 16)]
      else [c]

/-- A string as it is written. -/
def quote (s : Text) : Text :=
  '"' :: s.flatMap escapeChar ++ ['"']

theorem hexValue_hexDigit :
  ∀ n < 16, hexValue (hexDigit n) = some n
  := by
  decide

/-- The escape of a control character by its number. -/
theorem lexFrom_hex (acc : Text) (c : Char) (h : c.toNat < 0x20) (rest : Text) :
  lexFrom (.str acc) (['\\', 'u', '0', '0', hexDigit (c.toNat / 16), hexDigit (c.toNat % 16)] ++ rest)
    = lexFrom (.str (acc ++ [c])) rest
  := by
  have hhigh := hexValue_hexDigit (c.toNat / 16) (by omega)
  have hlow := hexValue_hexDigit (c.toNat % 16) (by omega)
  have hval : ((0 * 16 + 0) * 16 + c.toNat / 16) * 16 + c.toNat % 16 = c.toNat := by omega
  have hafter : afterHex acc none c.toNat = some (.str (acc ++ [c])) := by
    rw [afterHex, if_neg (by omega), if_neg (by omega), Char.ofNat_toNat]
  simp only [List.cons_append, List.nil_append]
  rw [lexFrom_silent (.escape acc) rfl, lexFrom_silent (.hex acc none []) rfl,
    lexFrom_silent (.hex acc none [0]) rfl,
    lexFrom_silent (.hex acc none [0, 0]) rfl,
    lexFrom_silent (.hex acc none [0, 0, c.toNat / 16]),
    lexFrom_silent (.str (acc ++ [c]))]
  · rw [lexStep, hlow, Option.bind_some]
    dsimp only
    rw [hval, hafter]
    rfl
  · rw [lexStep, hhigh]
    rfl

/-- The letters stand for their characters. -/
theorem escapedChar_letters :
  ∀ l ∈ letters, l.2 ≠ 'u' ∧ escapedChar l.2 = some l.1
  := by
  decide

/-- A character of a string is read back. -/
theorem lexFrom_escapeChar (acc : Text) (c : Char) (rest : Text) :
  lexFrom (.str acc) (escapeChar c ++ rest) = lexFrom (.str (acc ++ [c])) rest
  := by
  rw [escapeChar]
  cases hletter : letters.find? (fun l => l.1 = c) with
  | some l =>
    obtain ⟨hu, hchar⟩ := escapedChar_letters l (List.mem_of_find?_eq_some hletter)
    obtain rfl : l.1 = c := by simpa using List.find?_some hletter
    have hstep : lexStep (.escape acc) l.2 = some ([], .str (acc ++ [l.1])) := by
      rw [lexStep, if_neg hu, hchar]
      rfl
    exact (lexFrom_silent _ rfl _).trans (lexFrom_silent _ hstep rest)
  | none =>
    rw [List.find?_eq_none] at hletter
    have hquote : c ≠ '"' := fun h => hletter ('"', '"') (by decide) (by simp [h])
    have hslash : c ≠ '\\' := fun h => hletter ('\\', '\\') (by decide) (by simp [h])
    dsimp only
    split
    · next h => exact lexFrom_hex acc c h rest
    · next h =>
      apply lexFrom_silent
      rw [lexStep, if_neg hquote, if_neg hslash, if_neg h]

/-- A string is read back. -/
theorem lexFrom_quote (s rest : Text) :
  lexFrom .start (quote s ++ rest) = (lexFrom .start rest).map ([.str s] ++ ·)
  := by
  have hbody : ∀ acc : Text, lexFrom (.str acc) (s.flatMap escapeChar ++ '"' :: rest)
      = (lexFrom .start rest).map ([.str (acc ++ s)] ++ ·) := by
    induction s with
    | nil =>
      intro acc
      rw [List.append_nil]
      exact lexFrom_cons rfl rest
    | cons c s ih =>
      intro acc
      rw [List.flatMap_cons, List.append_assoc, lexFrom_escapeChar, ih, List.append_assoc]
      rfl
  have hquote : quote s ++ rest = '"' :: (s.flatMap escapeChar ++ '"' :: rest) := by
    simp [quote]
  rw [hquote, lexFrom_silent (.str []) rfl]
  exact hbody []

/-! ### Reading words -/

/-- A text that does not go on with a word. -/
def Delimited (s : Text) : Prop :=
  ∀ c ∈ s.head?, ¬ isWordChar c

theorem delimited_nil :
  Delimited []
  := by
  intro c hc
  cases hc

theorem delimited_cons {c : Char} (h : ¬ isWordChar c) (s : Text) :
  Delimited (c :: s)
  := by
  intro d hd
  rw [List.head?_cons, Option.mem_some_iff] at hd
  exact hd ▸ h

/-- The end of a word completes its token. -/
theorem lexFrom_word_of_delimited (acc : Text) {rest : Text} (h : Delimited rest) :
  lexFrom (.word acc) rest
    = (wordToken acc).bind fun token => (lexFrom .start rest).map ([token] ++ ·)
  := by
  cases rest with
  | nil =>
    rw [lexFrom, lexEnd, lexFrom, lexEnd]
    cases wordToken acc <;> rfl
  | cons c rest =>
    have hc : ¬ isWordChar c := h c rfl
    rw [lexFrom, lexStep, if_neg hc, lexFrom, lexStep]
    cases wordToken acc with
    | none => rfl
    | some token =>
      cases lexStart c with
      | none => rfl
      | some next => simp [Function.comp_def]

/-- The rest of a word, with what was read of it. -/
theorem lexFrom_word_tail {tail rest : Text} (hchars : ∀ c ∈ tail, isWordChar c)
    (hrest : Delimited rest) (acc : Text) :
  lexFrom (.word acc) (tail ++ rest)
    = (wordToken (acc ++ tail)).bind fun token => (lexFrom .start rest).map ([token] ++ ·)
  := by
  induction tail generalizing acc with
  | nil =>
    rw [List.append_nil]
    exact lexFrom_word_of_delimited acc hrest
  | cons c tail ih =>
    rw [List.forall_mem_cons] at hchars
    have hstep : lexStep (.word acc) c = some ([], .word (acc ++ [c])) := by
      rw [lexStep, if_pos hchars.1]
    rw [List.cons_append, lexFrom_silent _ hstep, ih hchars.2, List.append_assoc]
    rfl

/-- A word that is delimited is read back as its token. -/
theorem lexFrom_word {word rest : Text} {token : Token} (hne : word ≠ [])
    (hchars : ∀ c ∈ word, isWordChar c) (htoken : wordToken word = some token)
    (hrest : Delimited rest) :
  lexFrom .start (word ++ rest) = (lexFrom .start rest).map ([token] ++ ·)
  := by
  cases word with
  | nil => exact absurd rfl hne
  | cons c tail =>
    rw [List.forall_mem_cons] at hchars
    have hstep : lexStep .start c = some ([], .word [c]) := by
      rw [lexStep, lexStart, if_pos hchars.1]
    rw [List.cons_append, lexFrom_silent _ hstep, lexFrom_word_tail hchars.2 hrest,
      List.singleton_append, htoken]
    rfl

/-! ### Writing and reading integers -/

/-- A natural number in decimal. -/
def decimal (n : ℕ) : Text :=
  Nat.toDigits 10 n

/-- An integer in decimal. -/
def integer : ℤ → Text
  | .ofNat n => decimal n
  | .negSucc n => '-' :: decimal (n + 1)

theorem isDigit_of_mem_decimal {n : ℕ} {c : Char} (h : c ∈ decimal n) :
  c.isDigit
  := Nat.isDigit_of_mem_toDigits (by decide) (by decide) h

theorem isWordChar_of_isDigit {c : Char} (h : c.isDigit) :
  isWordChar c
  := by
  simp [isWordChar, Char.isAlphanum, h]

theorem decimal_ne_nil (n : ℕ) :
  decimal n ≠ []
  := by
  rw [decimal, Nat.toDigits_eq_if (by decide)]
  split <;> simp

/-- A number has no zero in front, unless it is zero. -/
theorem head?_decimal_ne {n : ℕ} (h : n ≠ 0) :
  (decimal n).head? ≠ some '0'
  := by
  induction n using Nat.strong_induction_on with
  | _ n ih =>
    rw [decimal, Nat.toDigits_eq_if (by decide)]
    split
    · next hlt =>
      have hdigit : ∀ d < 10, d ≠ 0 → d.digitChar ≠ '0' := by decide
      simpa using hdigit n hlt h
    · have hhead := ih (n / 10) (by omega) (by omega)
      rw [decimal] at hhead
      cases hdigits : Nat.toDigits 10 (n / 10) with
      | nil => exact absurd hdigits (decimal_ne_nil (n / 10))
      | cons c digits =>
        rw [hdigits] at hhead
        exact hhead

theorem isIntegerPart_decimal (n : ℕ) :
  isIntegerPart (decimal n)
  := by
  by_cases h : n = 0
  · rw [h]
    decide
  · simp [isIntegerPart, decimal_ne_nil, head?_decimal_ne h]

theorem unsignedToken_decimal (literal : Text) (negative : Bool) (n : ℕ) :
  unsignedToken literal negative (decimal n) = some (integerToken literal negative n)
  := by
  have hall : ∀ c ∈ decimal n, c.isDigit := fun c hc => isDigit_of_mem_decimal hc
  have htake : (decimal n).takeWhile Char.isDigit = decimal n :=
    List.takeWhile_eq_self_iff.mpr hall
  have hdrop : (decimal n).dropWhile Char.isDigit = [] :=
    List.dropWhile_eq_nil_iff.mpr hall
  rw [unsignedToken, htake, hdrop]
  simp only [isIntegerPart_decimal, if_true, List.isEmpty_nil]
  rw [decimal, Nat.ofDigitChars_toDigits (by decide) (by decide)]

theorem numberToken_of_head? {s : Text} (h : s.head? ≠ some '-') :
  numberToken s = unsignedToken s false s
  := by
  unfold numberToken
  split
  · exact absurd rfl h
  · rfl

/-- None of the words begins with a digit or a sign. -/
theorem wordToken_of_head? {s : Text} (h : ∀ c ∈ s.head?, c ≠ 'n' ∧ c ≠ 't' ∧ c ≠ 'f') :
  wordToken s = numberToken s
  := by
  rw [wordToken, if_neg, if_neg, if_neg]
  all_goals
    rintro rfl
    simp at h

/-- An integer of 64 bits is read back. -/
theorem wordToken_integer {n : ℤ} (hlow : -2 ^ 63 ≤ n) (hhigh : n < 2 ^ 64) :
  wordToken (integer n) = some (.int n)
  := by
  cases n with
  | ofNat n =>
    rw [Int.ofNat_eq_natCast] at hhigh
    have hhead (c : Char) (hc : c ∈ (decimal n).head?) : c.isDigit :=
      isDigit_of_mem_decimal (List.mem_of_mem_head? hc)
    rw [integer, wordToken_of_head?, numberToken_of_head?, unsignedToken_decimal, integerToken,
      if_neg Bool.false_ne_true, if_pos (by omega)]
    · rfl
    · intro h
      cases hhead '-' h
    · intro c hc
      have hdigit := hhead c hc
      and_intros <;> rintro rfl <;> cases hdigit
  | negSucc n =>
    rw [integer, wordToken_of_head? (by simp), numberToken, unsignedToken_decimal, integerToken,
      if_pos rfl, if_neg (by omega)]
    rfl

theorem lexFrom_integer {n : ℤ} (hlow : -2 ^ 63 ≤ n) (hhigh : n < 2 ^ 64) {rest : Text}
    (hrest : Delimited rest) :
  lexFrom .start (integer n ++ rest) = (lexFrom .start rest).map ([.int n] ++ ·)
  := by
  apply lexFrom_word _ _ (wordToken_integer hlow hhigh) hrest
  · cases n with
    | ofNat n => exact decimal_ne_nil n
    | negSucc n => simp [integer]
  · intro c hc
    cases n with
    | ofNat n => exact isWordChar_of_isDigit (isDigit_of_mem_decimal hc)
    | negSucc n =>
      rcases List.mem_cons.mp hc with rfl | hc
      · decide
      · exact isWordChar_of_isDigit (isDigit_of_mem_decimal hc)

end Json

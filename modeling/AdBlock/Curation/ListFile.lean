import AdBlock.Curation.Store

/-!
# Lists and their files

A blocklist in memory, the name a text or a URL gives a list, and the form in which a list is
stored: a header with the source, a mark under it when the list is switched off, and the text
of the list.  A list that is stored reads back as it was (`entryFromText_header`), except that
its name is taken from the title in the text, or else from the id of the file.
-/

/-- A blocklist in memory. -/
structure ListEntry where
  name : Text
  source : Text
  rules : Nat
  /-- A disabled list stays stored and listed, but none of its rules reach the engine. -/
  enabled : Bool
  text : Text
  deriving DecidableEq, Repr

/-- The name of the list maintained by hand. -/
def customList : Text := "custom".toList

/-- The source of the list maintained by hand. -/
def customSource : Text := "config + ui".toList

/-- The number of lines of a text that hold a rule. -/
def countRules (text : Text) : Nat :=
  ((Text.lines text).map Text.trim).countP fun l =>
    !l.isEmpty && !Text.startsWith l ['!'] && !Text.startsWith l ['[']

/-! ### Names -/

/-- One character of a name: letters, digits and `-_.` stay, a run of others becomes `-`. -/
def sanitizeChar (out : Text) (c : Char) : Text :=
  if c.isAlphanum || c == '-' || c == '_' || c == '.' then out ++ [c]
  else if out.getLast? = some '-' then out
  else out ++ ['-']

/-- The form of a name that is used for a list. -/
def sanitizeName (name : Text) : Text :=
  let name := Text.trimEndMatches (Text.trim name) ".txt".toList
  Text.trimMatches (name.foldl sanitizeChar []) '-'

/-- The title a line gives, if it is a title line. -/
def titleOfLine (line : Text) : Option Text :=
  let rest := Text.trimStart (Text.trimStartMatches line ['!', '#'])
  Text.stripPrefix rest "Title:".toList <|> Text.stripPrefix rest "title:".toList

/-- The title in the first thirty lines of a text. -/
def listTitle (text : Text) : Option Text :=
  let comments := ((Text.lines text).take 30).filter fun l =>
    Text.startsWith l ['!'] || Text.startsWith l ['#']
  ((comments.findSome? titleOfLine).map Text.trim).filter (· ≠ [])

/-- The name of a list by the last part of its URL. -/
def nameFromUrl (url : Text) : Text :=
  let part := (Text.rsplit url '/').find? fun s => !s.isEmpty && !s.contains ':'
  Text.trimEndMatches (part.getD "list".toList) ".txt".toList

/-- The name a text gives its list: its title, if that leaves a name, or else the
fallback. -/
def titleName (fallback text : Text) : Text :=
  (((listTitle text).map sanitizeName).filter (· ≠ [])).getD fallback

/-! ### Files -/

/-- The line under the source header of a list that is switched off. -/
def disabledMark : Text := "! disabled\n".toList

/-- What the source header starts with. -/
def sourceMark : Text := "! source: ".toList

/-- The header written above a stored list: where it came from, and whether it is switched
off. -/
def header (source : Text) (enabled : Bool) : Text :=
  sourceMark ++ source ++ '\n' :: (if enabled then [] else disabledMark)

/-- A stored text without its source header. -/
def stripSourceHeader (text : Text) : Text :=
  match Text.stripPrefix text sourceMark with
  | some rest => ((Text.splitOnce rest '\n').map Prod.snd).getD []
  | none => text

/-- The source of a stored text and what follows its source header. -/
def splitSource (fallbackSource text : Text) : Text × Text :=
  match Text.stripPrefix text sourceMark with
  | some rest => (Text.splitOnce rest '\n').getD (rest, [])
  | none => (fallbackSource, text)

/-- Whether the text under a source header belongs to a list that is switched on, and the text
of that list. -/
def splitMark (text : Text) : Bool × Text :=
  match Text.stripPrefix text disabledMark with
  | some body => (false, body)
  | none => (true, text)

/-- Read a stored text as a list. -/
def entryFromText (fallbackName fallbackSource text : Text) : ListEntry :=
  let (source, text) := splitSource fallbackSource text
  let (enabled, text) := splitMark text
  { name := titleName fallbackName text
    source := source
    rules := countRules text
    enabled := enabled
    text := text }

/-! ### Reading back what was stored -/

theorem splitSource_header {source : Text} (h : '\n' ∉ source) (fallbackSource : Text)
    (enabled : Bool) (text : Text) :
  splitSource fallbackSource (header source enabled ++ text)
    = (source, (if enabled then [] else disabledMark) ++ text)
  := by
  have hsplit : header source enabled ++ text
      = sourceMark ++ (source ++ '\n' :: ((if enabled then [] else disabledMark) ++ text)) := by
    simp [header]
  rw [splitSource, hsplit, Text.stripPrefix_append]
  simp only [Text.splitOnce_append h, Option.getD_some]

theorem splitMark_disabled (text : Text) :
  splitMark (disabledMark ++ text) = (false, text)
  := by
  rw [splitMark, Text.stripPrefix_append]

theorem splitMark_enabled {text : Text} (h : ¬ disabledMark <+: text) :
  splitMark text = (true, text)
  := by
  rw [splitMark, Text.stripPrefix_eq_none_iff.mpr h]

/-- A list stored with a source of one line, whose text does not itself start with the mark
when the list is switched on, reads back as it was, under the name its text and the fallback
give. -/
theorem entryFromText_header {source text : Text} {enabled : Bool} (hsource : '\n' ∉ source)
    (hmark : enabled = true → ¬ disabledMark <+: text) (fallbackName fallbackSource : Text) :
  entryFromText fallbackName fallbackSource (header source enabled ++ text)
    = { name := titleName fallbackName text
        source := source
        rules := countRules text
        enabled := enabled
        text := text }
  := by
  rw [entryFromText, splitSource_header hsource]
  cases enabled with
  | false => simp [splitMark_disabled]
  | true => simp [splitMark_enabled (hmark rfl)]

import AdBlock.Rust.Slice
import AdBlock.Uri.Basic

/-!
# Splitting addresses

A library of URIs that accepts every text and splits it at the first `://` and where the authority
ends (`UriCrate.splitting`).  It shows that what is assumed of the library can be met.
-/

namespace Rfc3986

/-- The host in an authority: what is after the last `@`, up to a closing bracket or a colon. -/
def hostOf (authority : Text) : Text :=
  let hostPort := ((Text.rsplitOnce authority '@').map Prod.snd).getD authority
  if hostPort.head? = some '[' then hostPort.takeWhile (· ≠ ']') ++ [']']
  else hostPort.takeWhile (· ≠ ':')

/-! ### Host and port -/

theorem not_mem_of_forall {p : Char → Bool} {c : Char} (hc : p c = false) (s : Word p) :
  c ∉ s.val
  := by
  intro hmem
  rw [Word.forall s c hmem] at hc
  cases hc

theorem at_not_mem_host (host : Host) :
  '@' ∉ host.text
  := by
  cases host with
  | name s _ => exact not_mem_of_forall rfl s
  | literal s =>
    have := not_mem_of_forall (c := '@') rfl s
    simp [Host.text, this]

theorem at_not_mem_back (a : Authority) :
  '@' ∉ a.back
  := by
  rw [Authority.back]
  cases a.port with
  | none => exact List.not_mem_nil
  | some digits =>
    have := not_mem_of_forall (c := '@') rfl digits
    simp [writePart, this]

/-- What is after the last `@` is the host with the port. -/
theorem after_at (a : Authority) :
  ((Text.rsplitOnce a.text '@').map Prod.snd).getD a.text = a.host.text ++ a.back
  := by
  have hat : '@' ∉ a.host.text ++ a.back := by
    rw [List.mem_append, not_or]
    exact ⟨at_not_mem_host a.host, at_not_mem_back a⟩
  rw [Authority.text, List.append_assoc, Authority.front]
  cases a.userinfo with
  | none =>
    rw [writePart, List.nil_append, Text.rsplitOnce_none hat]
    rfl
  | some info =>
    rw [writePart, List.append_assoc, List.singleton_append, Text.rsplitOnce_append hat]
    rfl

theorem takeWhile_ne_append {c : Char} {part rest : Text} (hpart : c ∉ part)
    (hrest : ∀ d ∈ rest.head?, d = c) :
  (part ++ rest).takeWhile (· ≠ c) = part
  := by
  apply takeWhile_append_stop
  · intro d hd
    rw [decide_eq_true_eq]
    rintro rfl
    exact hpart hd
  · intro d hd
    rw [hrest d hd]
    simp

/-- The host that is written is found. -/
theorem hostOf_text (a : Authority) :
  hostOf a.text = a.host.text
  := by
  have hback : ∀ c ∈ a.back.head?, c = ':' := by
    rw [Authority.back]
    cases a.port with
    | none => simp [writePart]
    | some digits => simp [writePart]
  rw [hostOf]
  simp only [after_at]
  cases a.host with
  | name s hne =>
    have hopen : (s.val ++ a.back).head? ≠ some '[' := by
      rw [List.head?_append_of_ne_nil _ hne]
      intro hhead
      exact not_mem_of_forall (c := '[') rfl s (List.mem_of_head? hhead)
    rw [Host.text, if_neg hopen, takeWhile_ne_append (not_mem_of_forall rfl s) hback]
  | literal s =>
    have hclose : ']' ∉ '[' :: s.val := by
      rw [List.mem_cons, not_or]
      exact ⟨by decide, not_mem_of_forall rfl s⟩
    have hopen : ('[' :: s.val ++ ([']'] ++ a.back)).head? = some '[' := rfl
    rw [Host.text, List.append_assoc, if_pos hopen, takeWhile_ne_append hclose (by simp)]

theorem parseU16_of_mem {s : Text} {c : Char} (hmem : c ∈ s) (hplus : c ≠ '+')
    (hdigit : Net.isDigit 10 c = false) :
  Net.parseU16 s = none
  := by
  have hmem' : c ∈ (Text.stripPrefix s ['+']).getD s := by
    cases hstrip : Text.stripPrefix s ['+'] with
    | none => exact hmem
    | some rest =>
      rw [Text.eq_append_of_stripPrefix hstrip, List.singleton_append, List.mem_cons] at hmem
      exact hmem.resolve_left hplus
  rw [Net.parseU16, if_neg]
  rintro ⟨-, hall, -⟩
  rw [List.all_eq_true.mp hall c hmem'] at hdigit
  cases hdigit

theorem mem_of_last {front head tail : Text} {c : Char} (hc : c ≠ ':')
    (h : front ++ [c] = head ++ ':' :: tail) :
  c ∈ tail
  := by
  have hlast : (head ++ ':' :: tail).getLast? = some c := by
    rw [← h, List.getLast?_concat]
  rw [List.getLast?_append_of_ne_nil _ (List.cons_ne_nil _ _)] at hlast
  exact (List.mem_cons.mp (List.mem_of_getLast? hlast)).resolve_left hc

/-- Without a port, what is after the last colon is no number: it is in front of the host or within
brackets. -/
theorem parseU16_of_colon {front : Text} (host : Host)
    (hfront : front = [] ∨ ∃ info, front = info ++ ['@']) {head tail : Text}
    (h : front ++ host.text = head ++ ':' :: tail) :
  Net.parseU16 tail = none
  := by
  cases host with
  | literal s =>
    apply parseU16_of_mem (c := ']') _ (by decide) rfl
    rw [Host.text, ← List.append_assoc] at h
    exact mem_of_last (by decide) h
  | name s hne =>
    have hcolon {head tail : Text} : s.val ≠ head ++ ':' :: tail := by
      intro hs
      apply not_mem_of_forall (c := ':') rfl s
      rw [hs]
      simp
    apply parseU16_of_mem (c := '@') _ (by decide) rfl
    rcases hfront with rfl | ⟨info, rfl⟩
    · exact absurd h hcolon
    · -- The last colon is before the `@`, since a name has none.
      rcases List.append_eq_append_iff.mp h with ⟨part, -, hrest⟩ | ⟨part, hinfo, hrest⟩
      · exact absurd hrest hcolon
      · cases part with
        | nil => exact absurd (show s.val = [] ++ ':' :: tail from hrest.symm) hcolon
        | cons c part =>
          obtain ⟨rfl, rfl⟩ := List.cons_eq_cons.mp hrest
          exact List.mem_append_left _ (mem_of_last (by decide) hinfo)

/-- The port that is written is found. -/
theorem rsplitOnce_text (a : Authority) :
  ((Text.rsplitOnce a.text ':').bind fun (_, port) => Net.parseU16 port)
    = a.port.bind (Net.parseU16 ·.val)
  := by
  rw [Authority.text, Authority.back]
  cases a.port with
  | none =>
    rw [writePart, List.append_nil]
    rcases Text.rsplitOnce_cases (a.front ++ a.host.text) ':' with
      ⟨-, h⟩ | ⟨head, tail, -, hsplit, h⟩
    · rw [h]
      rfl
    · rw [h, Option.bind_some]
      apply parseU16_of_colon a.host _ hsplit
      rw [Authority.front]
      cases a.userinfo with
      | none => exact .inl rfl
      | some info => exact .inr ⟨info.val, rfl⟩
  | some digits =>
    have hcolon : ':' ∉ digits.val := not_mem_of_forall rfl digits
    rw [writePart, Text.rsplitOnce_append hcolon]
    rfl

end Rfc3986

namespace UriCrate

open Rfc3986

/-- The scheme in front of the first `://`, and what is after it. -/
def splitScheme (s : Text) : Option (Text × Text) :=
  (Text.splitOnceText "://".toList s).filter (·.1.all (!isEnd ·))

/-- The authority at the beginning of a text. -/
def authorityOf (rest : Text) : Text :=
  rest.takeWhile (!isEnd ·)

def portOf (authority : Text) : Option UInt16 :=
  (Text.rsplitOnce authority ':').bind fun (_, port) => Net.parseU16 port

/-- A URI is its scheme with what is after it, or a text without a scheme. -/
def splitting : UriCrate where
  Uri := (Text × Text) ⊕ Text
  parse s :=
    match splitScheme s with
    | some parts => .ok (.inl parts)
    | none => .ok (.inr s)
  schemeStr
    | .inl (scheme, _) => some (Text.toAsciiLowercase scheme)
    | .inr _ => none
  host
    | .inl (_, rest) => some (hostOf (authorityOf rest))
    | .inr _ => none
  portU16
    | .inl (_, rest) => portOf (authorityOf rest)
    | .inr _ => none
  authority
    | .inl (_, rest) => some (hostOf (authorityOf rest), portOf (authorityOf rest))
    | .inr _ => none
  pathAndQuery
    | .inl (_, rest) => some (pathOf rest)
    | .inr s => some s

theorem splitScheme_append {front rest : Text} (hcolon : ':' ∉ front)
    (hfront : ∀ c ∈ front, isEnd c = false) :
  splitScheme (front ++ "://".toList ++ rest) = some (front, rest)
  := by
  rw [splitScheme, List.append_assoc]
  apply Option.filter_eq_some_iff.mpr
  refine ⟨Text.splitOnceText_append hcolon rest, ?_⟩
  simpa using hfront

theorem splitScheme_eq_some {s front rest : Text} (h : splitScheme s = some (front, rest)) :
  s = front ++ "://".toList ++ rest ∧ ∀ c ∈ front, isEnd c = false
  := by
  obtain ⟨hsplit, hfront⟩ := Option.filter_eq_some_iff.mp h
  rw [List.append_assoc]
  refine ⟨Text.splitOnceText_eq_some hsplit, ?_⟩
  simpa using hfront

theorem colon_not_mem (scheme : Scheme) :
  ':' ∉ scheme.text
  := by
  intro hmem
  have hlower : ':'.toLower ∈ scheme.lower := List.mem_map_of_mem hmem
  rcases scheme.lower_cases with h | h
  all_goals
    rw [h] at hlower
    revert hlower
    decide

theorem parse_splitting (s : Text) :
  splitting.parse s = .ok (match splitScheme s with | some parts => .inl parts | none => .inr s)
  := by
  dsimp only [splitting]
  split <;> rfl

theorem parse_splitting_text {u : Url} {uri : splitting.Uri} (h : splitting.parse u.text = .ok uri) :
  uri = .inl (u.scheme.text, u.authority.text ++ (pathText u.path ++ queryText u.query))
  := by
  rw [parse_splitting, Url.text, splitScheme_append (colon_not_mem u.scheme) u.scheme.isEnd_text] at h
  exact (Except.ok.inj h).symm

theorem authorityOf_text (u : Url) :
  authorityOf (u.authority.text ++ (pathText u.path ++ queryText u.query)) = u.authority.text
  := by
  apply takeWhile_append_stop
  · intro c hc
    rw [u.authority.isEnd_text c hc]
    rfl
  · intro c hc
    rw [ends_text u.path u.query c hc]
    rfl

theorem accepts_splitting (s : Text) :
  splitting.Accepts s
  := ⟨_, parse_splitting s⟩

theorem splittingLawful :
  splitting.Lawful
  where
  exists_scheme := by
    intro s scheme uri h hscheme _
    rw [parse_splitting] at h
    cases hsplit : splitScheme s with
    | none =>
      rw [hsplit] at h
      obtain rfl := Except.ok.inj h
      cases hscheme
    | some parts =>
      obtain ⟨front, rest⟩ := parts
      rw [hsplit] at h
      obtain rfl := Except.ok.inj h
      obtain ⟨hs, hfront⟩ := splitScheme_eq_some hsplit
      exact ⟨front, rest, hs, hfront, rfl⟩
  schemeStr_text := by
    intro u uri h
    rw [parse_splitting_text h]
    rfl
  host_text := by
    intro u uri h
    rw [parse_splitting_text h]
    apply congrArg some
    rw [authorityOf_text, hostOf_text]
  portU16_text := by
    intro u uri h
    rw [parse_splitting_text h]
    change portOf (authorityOf _) = _
    rw [authorityOf_text]
    exact rsplitOnce_text u.authority
  accepts_target := by
    intro u _
    apply accepts_splitting

end UriCrate

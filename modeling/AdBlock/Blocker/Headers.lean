import AdBlock.Blocker.Splice

/-!
# The headers of a response

What the edit of a page does to the headers of the response.  Headers are compared name by name,
by the values of the name in order.  An edit with a script takes the policies of the site away, any
edit takes the length away, and the policy that a rule asks for comes last
(`getAll_filterResponse`).
-/

namespace AdBlocker

variable {A : Library} (P : PageLibrary A) (b : AdBlocker A)

/-- The headers of a page that is edited lose its length, and its policies if there is a script. -/
theorem getAll_editPage (hP : P.headers.Lawful) {url : Text} {headers headers' : P.headers.Map}
    {body : Bytes} {edit : ResponseEdit}
    (h : b.editPage P url headers body = some (edit, headers')) (name : Text) :
  P.headers.getAll headers' name
    = if name = "content-length".toList
        ∨ name ∈ Rewrite.cspHeaders ∧ b.pageScript P url (b.pageScriptlets P url) ≠ [] then []
      else P.headers.getAll headers name
  := by
  rw [editPage] at h
  split at h
  · cases h
  · obtain ⟨out, -, h⟩ := Option.bind_eq_some_iff.mp h
    cases h
    change P.headers.getAll (P.headers.remove (if (b.pageScript P url
      (b.pageScriptlets P url)).isEmpty then headers else _) _) name = _
    rw [hP.getAll_remove]
    by_cases hlength : name = "content-length".toList
    · rw [if_pos hlength, if_pos (.inl hlength)]
    · rw [if_neg hlength]
      by_cases hscript : b.pageScript P url (b.pageScriptlets P url) = []
      · rw [hscript, if_pos List.isEmpty_nil]
        simp only [hlength, ne_eq, not_true_eq_false, and_false, or_self, if_false]
      · rw [if_neg (by rwa [List.isEmpty_iff]), hP.getAll_foldl_remove]
        simp only [hlength, ne_eq, hscript, not_false_eq_true, and_true, false_or]

/-- The policy that a rule asks for comes after what the edit has left of the headers. -/
theorem filterResponse_eq (url : Text) (decision : BlockDecision) (headers : P.headers.Map)
    (body : Option Bytes) :
  b.filterResponse P url decision headers body
    = (((body.bind (b.editPage P url headers)).getD ({}, headers)).1,
      (decision.csp.bind P.headers.fromStr).elim
        ((body.bind (b.editPage P url headers)).getD ({}, headers)).2
        (P.headers.append ((body.bind (b.editPage P url headers)).getD ({}, headers)).2
          "content-security-policy".toList))
  := by
  rw [filterResponse]
  cases decision.csp.bind P.headers.fromStr <;> rfl

/-- The values of every name after the response has passed: what the edit left of those of the
site, and then the policy that a rule asked for. -/
theorem getAll_filterResponse (hP : P.headers.Lawful) (url : Text) (decision : BlockDecision)
    (headers : P.headers.Map) (body : Option Bytes) (name : Text) :
  P.headers.getAll (b.filterResponse P url decision headers body).2 name
    = (if (b.filterResponse P url decision headers body).1.body ≠ none
          ∧ (name = "content-length".toList
            ∨ name ∈ Rewrite.cspHeaders ∧ b.pageScript P url (b.pageScriptlets P url) ≠ [])
        then [] else P.headers.getAll headers name)
      ++ if name = "content-security-policy".toList then
          (decision.csp.bind P.headers.fromStr).toList
        else []
  := by
  have hpolicy (kept : P.headers.Map) (policy : Option P.headers.Value) :
      P.headers.getAll
          (policy.elim kept (P.headers.append kept "content-security-policy".toList)) name
        = P.headers.getAll kept name
          ++ if name = "content-security-policy".toList then policy.toList else [] := by
    cases policy with
    | none =>
      rw [Option.toList_none, ite_self, List.append_nil]
      rfl
    | some value => apply hP.getAll_append
  rw [filterResponse_eq, hpolicy]
  congr 1
  cases hedit : body.bind (b.editPage P url headers) with
  | none =>
    rw [Option.getD_none, if_neg]
    rintro ⟨hbody, -⟩
    exact hbody rfl
  | some edited =>
    obtain ⟨page, -, hpage⟩ := Option.bind_eq_some_iff.mp hedit
    rw [Option.getD_some, getAll_editPage P b hP hpage]
    simp only [editPage_body P b hpage, ne_eq, not_false_eq_true, true_and]

/-- Which of the names that an edit looks at are which. -/
theorem header_names :
  "content-security-policy".toList ∈ Rewrite.cspHeaders
    ∧ "content-security-policy-report-only".toList ∈ Rewrite.cspHeaders
    ∧ "content-security-policy".toList ≠ "content-length".toList
    ∧ "content-security-policy-report-only".toList ≠ "content-length".toList
    ∧ "content-security-policy-report-only".toList ≠ "content-security-policy".toList
    ∧ "content-length".toList ≠ "content-security-policy".toList
  := by
  decide +kernel

/-- What becomes of the headers of a response, for every decision, every list of headers, with or
without a body and however the blocker is switched.  The policies of the site are gone if the body
was edited and there is a script, and the length if the body was edited.  The policy that a rule
asks for, if it is a header value, is there once more after those that the site kept.  All other
names keep their values, and without a body nothing but that policy is new. -/
theorem filterResponse_headers (hP : P.headers.Lawful) (url : Text) (decision : BlockDecision)
    (headers : P.headers.Map) (body : Option Bytes) :
  let result := b.filterResponse P url decision headers body
  let script := b.pageScript P url (b.pageScriptlets P url)
  let policy := (decision.csp.bind P.headers.fromStr).toList
  P.headers.getAll result.2 "content-security-policy".toList
      = (if result.1.body ≠ none ∧ script ≠ [] then []
          else P.headers.getAll headers "content-security-policy".toList) ++ policy
    ∧ P.headers.getAll result.2 "content-security-policy-report-only".toList
      = (if result.1.body ≠ none ∧ script ≠ [] then []
          else P.headers.getAll headers "content-security-policy-report-only".toList)
    ∧ P.headers.getAll result.2 "content-length".toList
      = (if result.1.body ≠ none then [] else P.headers.getAll headers "content-length".toList)
    ∧ (∀ name, name ∉ ["content-security-policy".toList,
          "content-security-policy-report-only".toList, "content-length".toList] →
        P.headers.getAll result.2 name = P.headers.getAll headers name)
    ∧ (b.filterResponse P url decision headers none).2
      = policy.foldl (P.headers.append · "content-security-policy".toList ·) headers
  := by
  intro result script policy
  have hvalues (name : Text) : P.headers.getAll result.2 name = _ :=
    getAll_filterResponse P b hP url decision headers body name
  obtain ⟨hpolicy, hreport, hpolicyLength, hreportLength, hreportPolicy, hlengthPolicy⟩ :=
    header_names
  refine ⟨?_, ?_, ?_, ?_, ?_⟩
  · rw [hvalues, if_pos rfl]
    congr 1
    apply if_congr (and_congr_right fun _ => ?_) rfl rfl
    rw [or_iff_right hpolicyLength, and_iff_right hpolicy]
  · rw [hvalues, if_neg hreportPolicy, List.append_nil]
    apply if_congr (and_congr_right fun _ => ?_) rfl rfl
    rw [or_iff_right hreportLength, and_iff_right hreport]
  · rw [hvalues, if_neg hlengthPolicy, List.append_nil]
    apply if_congr (and_iff_left (.inl rfl)) rfl rfl
  · intro name hname
    rw [List.mem_cons, List.mem_pair, not_or, not_or] at hname
    obtain ⟨hpolicy, hreport, hlength⟩ := hname
    rw [hvalues, if_neg hpolicy, List.append_nil, if_neg]
    rintro ⟨-, hname | ⟨hname, -⟩⟩
    · exact hlength hname
    · rcases List.mem_pair.mp hname with hname | hname
      · exact hpolicy hname
      · exact hreport hname
  · rw [filterResponse_eq, Option.bind_none, Option.getD_none]
    dsimp only [policy]
    cases decision.csp.bind P.headers.fromStr <;> rfl

/-- Headers of which two are there twice. -/
def repeatedHeaders : plainPages.headers.Map :=
  show List (Text × Text) from
    [("content-security-policy".toList, "script-src https:".toList),
      ("link".toList, "</a.css>".toList), ("content-length".toList, "26".toList),
      ("content-security-policy".toList, "img-src *".toList), ("link".toList, "</b.css>".toList)]

/-- A blocker with an admin server. -/
def servedBlocker : AdBlocker Library.counting :=
  counting.setAdminEndpoint plainPages "127.0.0.1:8081".toList

/-- A decision with a policy. -/
def policyDecision : BlockDecision :=
  { counting.check pageUrl [] "document".toList with csp := some "img-src a".toList }

/-- A page gets a script, so of its headers only the links stay, and the policy of a rule is
added. -/
theorem filterResponse_headers_script :
  servedBlocker.enabled = true
    ∧ plainPages.headers.getAll (servedBlocker.filterResponse plainPages pageUrl policyDecision
        repeatedHeaders (some shortPage)).2 "link".toList
      = (["</a.css>".toList, "</b.css>".toList] : List Text)
    ∧ plainPages.headers.getAll (servedBlocker.filterResponse plainPages pageUrl policyDecision
        repeatedHeaders (some shortPage)).2 "content-security-policy".toList
      = (["img-src a".toList] : List Text)
  := by
  obtain ⟨hpolicy, -, -, hothers, -⟩ := filterResponse_headers plainPages servedBlocker
    HeaderCrate.listedLawful pageUrl policyDecision repeatedHeaders (some shortPage)
  refine ⟨by decide +kernel, ?_, ?_⟩
  · rw [hothers "link".toList (by decide +kernel)]
    rfl
  · rw [hpolicy, if_pos (by decide +kernel)]
    rfl

end AdBlocker

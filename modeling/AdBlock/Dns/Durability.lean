import AdBlock.Dns.Service

/-!
# Settings last

The settings in use are always those that the service would start with.  One call keeps this
(`Request.perform_keeps`), so it holds after every sequence of calls.  A call that fails leaves
the settings as they were.
-/

namespace Dns

namespace EffectiveDnsSettings

/-- Taking back a change of the upstreams leaves the settings as they were. -/
theorem withOverrides_upstreams_back {e : EffectiveDnsSettings} (h : e.normalized = e)
    (list : List Text) :
  (e.withOverrides { upstreams := some list }).withOverrides { upstreams := some e.upstreams } = e
  := by
  rw [withOverrides_mergedWith]
  exact h

theorem validate_upstreams (e : EffectiveDnsSettings) (list : List Text) :
  (e.withOverrides { upstreams := some list }).validate = e.validate
  := rfl

end EffectiveDnsSettings

namespace DnsService

open EffectiveDnsSettings

variable {codec : Codec DnsOverrides} {base : DnsConfig} {st : DnsService}

/-- The settings in use are those of the file over those of the configuration, and the resolver in
use is made from them. -/
structure Durable (codec : Codec DnsOverrides) (base : DnsConfig) (st : DnsService) : Prop where
  settings :
    st.live.settings = (fromConfig base).withOverrides (OverrideStore.load codec st.file)
  resolver : st.live.settings.resolver = .ok st.live.resolver

theorem Durable.normalized (h : Durable codec base st) :
  st.live.settings.normalized = st.live.settings
  := by
  rw [h.settings, normalized_withOverrides]

/-! ### The start of the service -/

/-- A file that is written at the start does not change the settings. -/
theorem withOverrides_ensure (file : Option Text) :
  (fromConfig base).withOverrides (OverrideStore.load codec
      (OverrideStore.ensure codec (DnsOverrides.fromEffective (fromConfig base)) file))
    = (fromConfig base).withOverrides (OverrideStore.load codec file)
  := by
  cases file with
  | none =>
    rw [OverrideStore.load_ensure_none]
    rfl
  | some text => rfl

/-- If a resolver can be made from the settings of the file, the service starts with them. -/
theorem new_eq {listen : Net.SocketAddr} (hlisten : Net.SocketAddr.parse base.listen = some listen)
    {file : Option Text} {resolver : Resolver}
    (hresolver : ((fromConfig base).withOverrides (OverrideStore.load codec file)).resolver
      = .ok resolver) (written : Bool) :
  ∃ st, new codec base file written = .ok st ∧ Durable codec base st
    ∧ st.live.settings = (fromConfig base).withOverrides (OverrideStore.load codec file)
  := by
  have heff :
      (fromConfig base).withOverrides (OverrideStore.load codec
        (if written then
          OverrideStore.ensure codec (DnsOverrides.fromEffective (fromConfig base)) file
        else file)) = (fromConfig base).withOverrides (OverrideStore.load codec file) := by
    cases written with
    | true => exact withOverrides_ensure file
    | false => rfl
  simp only [new, hlisten, heff, hresolver]
  exact ⟨_, rfl, ⟨heff.symm, hresolver⟩, rfl⟩

/-- The settings in use are those that the service would start with. -/
theorem Durable.restart {listen : Net.SocketAddr}
    (hlisten : Net.SocketAddr.parse base.listen = some listen) (h : Durable codec base st)
    (written : Bool) :
  (new codec base st.file written).map (·.live.settings) = .ok st.live.settings
  := by
  have hresolver := h.resolver
  rw [h.settings] at hresolver
  obtain ⟨st', hnew, _, hsettings⟩ := new_eq hlisten hresolver written
  rw [hnew, h.settings, ← hsettings]
  rfl

/-! ### What the calls do -/

theorem nextResolver_eq {current : LiveDns} (h : current.settings.resolver = .ok current.resolver)
    (eff : EffectiveDnsSettings) :
  nextResolver current eff = eff.resolver
  := by
  rw [nextResolver]
  split
  · rfl
  · rename_i hsame
    simp only [not_or, ne_eq, not_not] at hsame
    obtain ⟨hupstreams, hmode, hbootstrap⟩ := hsame
    rw [← h, resolver, resolver, hupstreams, hmode, hbootstrap]

theorem realize_ok {eff : EffectiveDnsSettings} {persist : Call Unit} {file : Option Text}
    {r : Resolver} (hvalid : eff.validate = .ok ()) (hresolver : nextResolver st.live eff = .ok r)
    (hpersist : persist.run st = (.ok (), { st with file })) :
  (realize eff persist).run st = (.ok (), { live := { resolver := r, settings := eff }, file })
  := by
  rw [realize, hvalid, Fallible.run_ofExcept_bind_ok, Fallible.run_bind_ok (run_readLive st),
    hresolver, Fallible.run_ofExcept_bind_ok, Fallible.run_bind_ok hpersist]
  rfl

/-- New settings are put to use as a whole or not at all. -/
theorem realize_run (hlive : st.live.settings.resolver = .ok st.live.resolver)
    (eff : EffectiveDnsSettings) {persist : Call Unit} {file : Option Text}
    (hpersist : (∃ e, persist.run st = (.error e, st))
      ∨ persist.run st = (.ok (), { st with file })) :
  (∃ e, (realize eff persist).run st = (.error e, st))
    ∨ ∃ r, eff.resolver = .ok r ∧ eff.validate = .ok ()
      ∧ (realize eff persist).run st
        = (.ok (), { live := { resolver := r, settings := eff }, file })
  := by
  have hnext := nextResolver_eq hlive eff
  cases hvalid : eff.validate with
  | error e =>
    left
    use e
    rw [realize, hvalid, Fallible.run_ofExcept_bind_error]
  | ok _ =>
    cases hresolver : eff.resolver with
    | error e =>
      left
      use e
      rw [realize, hvalid, Fallible.run_ofExcept_bind_ok, Fallible.run_bind_ok (run_readLive st),
        hnext, hresolver, Fallible.run_ofExcept_bind_error]
    | ok r =>
      rw [hresolver] at hnext
      rcases hpersist with ⟨e, he⟩ | hpersist
      · left
        use e
        rw [realize, hvalid, Fallible.run_ofExcept_bind_ok, Fallible.run_bind_ok (run_readLive st),
          hnext, Fallible.run_ofExcept_bind_ok, Fallible.run_bind_error he]
      · right
        exact ⟨r, rfl, rfl, realize_ok hvalid hnext hpersist⟩

theorem writeFile_run (written : Except Text Unit) (file : Option Text) (st : DnsService) :
  (∃ e, (writeFile written file).run st = (.error e, st))
    ∨ (writeFile written file).run st = (.ok (), { st with file })
  := by
  cases written with
  | error e => exact .inl ⟨e, rfl⟩
  | ok _ => exact .inr rfl

/-- The file after an update is saved. -/
def merged (codec : Codec DnsOverrides) (st : DnsService) (upd : DnsOverrides) : Option Text :=
  OverrideStore.save codec ((OverrideStore.load codec st.file).mergedWith upd)

theorem saveMerged_eq (upd : DnsOverrides) (saved : Except Text Unit) (st : DnsService) :
  (saveMerged codec upd saved).run st = (writeFile saved (merged codec st upd)).run st
  := rfl

/-- The settings stay those of the file when an update goes to both. -/
theorem Durable.settings_merged (h : Durable codec base st) (upd : DnsOverrides) :
  st.live.settings.withOverrides upd
    = (fromConfig base).withOverrides (OverrideStore.load codec (merged codec st upd))
  := by
  rw [h.settings, withOverrides_mergedWith, merged, OverrideStore.load_save]

theorem applySettings_eq (upd : DnsOverrides) (saved : Except Text Unit) (st : DnsService) :
  (applySettings codec upd saved).run st
    = (realize (st.live.settings.withOverrides upd) (saveMerged codec upd saved)).run st
  := rfl

/-- An update is applied as a whole or not at all. -/
theorem applySettings_run (h : Durable codec base st) (upd : DnsOverrides)
    (saved : Except Text Unit) :
  (∃ e, (applySettings codec upd saved).run st = (.error e, st))
    ∨ ∃ st', (applySettings codec upd saved).run st = (.ok (), st') ∧ Durable codec base st'
      ∧ st'.live.settings = st.live.settings.withOverrides upd
      ∧ st'.live.settings.validate = .ok ()
  := by
  have hpersist := writeFile_run saved (merged codec st upd) st
  rw [← saveMerged_eq] at hpersist
  rw [applySettings_eq]
  apply (realize_run h.resolver _ hpersist).imp_right
  rintro ⟨r, hresolver, hvalid, hrun⟩
  exact ⟨_, hrun, ⟨h.settings_merged upd, hresolver⟩, rfl, hvalid⟩

/-- An update to settings that can be used is applied. -/
theorem applySettings_ok (h : Durable codec base st) {upd : DnsOverrides} {r : Resolver}
    (hvalid : (st.live.settings.withOverrides upd).validate = .ok ())
    (hresolver : (st.live.settings.withOverrides upd).resolver = .ok r) :
  ∃ st', (applySettings codec upd (.ok ())).run st = (.ok (), st') ∧ Durable codec base st'
    ∧ st'.live.settings = st.live.settings.withOverrides upd
  := by
  have hnext := (nextResolver_eq h.resolver _).trans hresolver
  rw [applySettings_eq, realize_ok hvalid hnext (saveMerged_eq upd (.ok ()) st)]
  exact ⟨_, rfl, ⟨h.settings_merged upd, hresolver⟩, rfl⟩

/-- The settings are reset as a whole or not at all. -/
theorem resetSettings_run (h : Durable codec base st) (removed : Except Text Unit) :
  (∃ e, (resetSettings base removed).run st = (.error e, st))
    ∨ ∃ st', (resetSettings base removed).run st = (.ok (), st') ∧ Durable codec base st'
  := by
  apply (realize_run h.resolver _ (writeFile_run removed none st)).imp_right
  rintro ⟨r, hresolver, _, hrun⟩
  exact ⟨_, hrun, (normalized_fromConfig base).symm, hresolver⟩

theorem resolveHost_run (host : Text) (lookup : Except Text Net.IpAddr) (st : DnsService) :
  ∃ r, (resolveHost host lookup).run st = (r, st)
  := by
  cases hparse : Net.IpAddr.parse host with
  | some ip => exact ⟨_, run_resolveHost_of_some hparse lookup st⟩
  | none => exact ⟨_, run_resolveHost_of_none hparse lookup st⟩

/-- To find out what an edit makes of the list changes nothing. -/
theorem edit_run (list : List Text) (lookup : Except Text Net.IpAddr) (cmd : UpstreamCommand)
    (st : DnsService) :
  ∃ r, (edit list lookup cmd).run st = (r, st)
  := by
  cases cmd with
  | delete spec => exact ⟨_, rfl⟩
  | setEnabled spec enabled => exact ⟨_, rfl⟩
  | add name host scheme =>
    rw [edit]
    cases UpstreamAddr.parse (scheme ++ "://".toList ++ host) with
    | error e => exact ⟨_, Fallible.run_ofExcept_bind_error e st⟩
    | ok typed =>
      rw [Fallible.run_ofExcept_bind_ok]
      obtain ⟨ip, hip⟩ := resolveHost_run typed.host lookup st
      cases ip with
      | error e => exact ⟨_, Fallible.run_bind_error hip⟩
      | ok ip =>
        rw [Fallible.run_bind_ok hip]
        exact ⟨_, rfl⟩

theorem testFails_run (spec : Text) (answered : Bool) (st : DnsService) :
  ∃ fails, (testFails spec answered).run st = (.ok fails, st)
  := by
  rw [testFails, Fallible.run_bind_ok (run_readLive st)]
  split
  · exact ⟨_, rfl⟩
  · exact ⟨_, rfl⟩

/-- The settings last, and if the call fails, they are as they were. -/
structure Keeps (codec : Codec DnsOverrides) (base : DnsConfig) (st : DnsService)
    (rolledBack : Except Text Unit) {α : Type} (out : Except Text α × DnsService) : Prop where
  durable : Durable codec base out.2
  settings {e : Text} (herror : out.1 = .error e) (hback : rolledBack = .ok ()) :
    out.2.live.settings = st.live.settings

variable {rolledBack : Except Text Unit}

theorem Durable.keeps_error {α : Type} (h : Durable codec base st) (e : Text) :
  Keeps codec base st rolledBack ((.error e, st) : Except Text α × DnsService)
  := ⟨h, fun _ _ => rfl⟩

theorem Durable.keeps_ok {α : Type} {st' : DnsService} (h : Durable codec base st') (a : α) :
  Keeps codec base st rolledBack (.ok a, st')
  := by
  constructor
  · exact h
  · rintro e ⟨⟩

/-- The previous list comes back. -/
theorem rollBack_keeps (h : Durable codec base st) {st₁ : DnsService} {list : List Text}
    (h₁ : Durable codec base st₁)
    (hsettings : st₁.live.settings = st.live.settings.withOverrides { upstreams := some list })
    (hvalid : st₁.live.settings.validate = .ok ()) (what : Text) (rolledBack : Except Text Unit) :
  Keeps codec base st rolledBack
    ((rollBack codec st.live.settings.upstreams what rolledBack).run st₁)
  := by
  have hback :
      st₁.live.settings.withOverrides { upstreams := some st.live.settings.upstreams }
        = st.live.settings := by
    rw [hsettings]
    exact withOverrides_upstreams_back h.normalized list
  rw [rollBack]
  cases rolledBack with
  | error e =>
    rcases applySettings_run h₁ { upstreams := some st.live.settings.upstreams } (.error e) with
      ⟨e', hrun⟩ | ⟨st₂, hrun, h₂, _⟩
    · rw [Fallible.run_bind_error hrun]
      exact ⟨h₁, fun _ hok => nomatch hok⟩
    · rw [Fallible.run_bind_ok hrun]
      exact ⟨h₂, fun _ hok => nomatch hok⟩
  | ok _ =>
    obtain ⟨st₂, hrun, h₂, hsettings₂⟩ :=
      applySettings_ok h₁ ((validate_upstreams _ _).trans hvalid) (hback ▸ h.resolver)
    rw [Fallible.run_bind_ok hrun]
    exact ⟨h₂, fun _ _ => hsettings₂.trans hback⟩

theorem testAdded_keeps (h : Durable codec base st) {st₁ : DnsService} {list : List Text}
    (h₁ : Durable codec base st₁)
    (hsettings : st₁.live.settings = st.live.settings.withOverrides { upstreams := some list })
    (hvalid : st₁.live.settings.validate = .ok ()) (edited : Edited) (outcomes : EditOutcomes) :
  Keeps codec base st outcomes.rolledBack
    ((testAdded codec st.live.settings.upstreams edited outcomes).run st₁)
  := by
  rw [testAdded]
  cases edited.added with
  | none => exact h₁.keeps_ok edited.message
  | some added =>
    obtain ⟨spec, what⟩ := added
    obtain ⟨fails, hfails⟩ := testFails_run spec outcomes.answered st₁
    rw [Fallible.run_bind_ok hfails]
    cases fails with
    | true => exact rollBack_keeps h h₁ hsettings hvalid what outcomes.rolledBack
    | false => exact h₁.keeps_ok edited.message

theorem editUpstreams_keeps (h : Durable codec base st) (cmd : UpstreamCommand)
    (outcomes : EditOutcomes) :
  Keeps codec base st outcomes.rolledBack ((editUpstreams codec cmd outcomes).run st)
  := by
  rw [editUpstreams, Fallible.run_bind_ok (run_readLive st)]
  obtain ⟨r, hedit⟩ := edit_run st.live.settings.upstreams outcomes.lookup cmd st
  cases r with
  | error e =>
    rw [Fallible.run_bind_error hedit]
    exact h.keeps_error e
  | ok edited =>
    rw [Fallible.run_bind_ok hedit]
    rcases applySettings_run h { upstreams := some edited.list } outcomes.saved with
      ⟨e, hrun⟩ | ⟨st₁, hrun, h₁, hsettings, hvalid⟩
    · rw [Fallible.run_bind_error hrun]
      exact h.keeps_error e
    · rw [Fallible.run_bind_ok hrun]
      exact testAdded_keeps h h₁ hsettings hvalid edited outcomes

/-! ### Sequences of calls -/

/-- One call keeps the settings lasting. -/
theorem Request.perform_keeps (h : Durable codec base st) (request : Request) :
  Keeps codec base st request.rolledBack ((request.perform codec base).run st)
  := by
  cases request with
  | applySettings upd saved =>
    rw [perform]
    rcases applySettings_run h upd saved with ⟨e, hrun⟩ | ⟨st', hrun, h', _⟩
    · rw [hrun]
      exact h.keeps_error e
    · rw [hrun]
      exact h'.keeps_ok ()
  | resetSettings removed =>
    rw [perform]
    rcases resetSettings_run h removed with ⟨e, hrun⟩ | ⟨st', hrun, h'⟩
    · rw [hrun]
      exact h.keeps_error e
    · rw [hrun]
      exact h'.keeps_ok ()
  | editUpstreams cmd outcomes =>
    have hkeeps := editUpstreams_keeps h cmd outcomes
    rw [perform, Fallible.run_bind]
    generalize (DnsService.editUpstreams codec cmd outcomes).run st = out at hkeeps
    obtain ⟨r, st'⟩ := out
    cases r with
    | error e => exact ⟨hkeeps.durable, fun _ => hkeeps.settings rfl⟩
    | ok message => exact hkeeps.durable.keeps_ok ()

theorem after_durable (h : Durable codec base st) (requests : List Request) :
  Durable codec base (after codec base requests st)
  := by
  induction requests generalizing st with
  | nil => exact h
  | cons request requests ih => exact ih (request.perform_keeps h).durable

/-- Settings last, and a call that fails leaves them as they were. -/
theorem edits_durable (codec : Codec DnsOverrides) {base : DnsConfig} {file : Option Text}
    {resolver : Resolver}
    (haccepted : ((fromConfig base).withOverrides (OverrideStore.load codec file)).resolver
      = .ok resolver)
    {written : Bool} {st₀ : DnsService} (hnew : new codec base file written = .ok st₀)
    (requests : List Request) (request : Request) {st st' : DnsService} {r : Except Text Unit}
    (hst : after codec base requests st₀ = st)
    (hrun : (request.perform codec base).run st = (r, st')) (written' : Bool) :
  (new codec base st'.file written').map (·.live.settings) = .ok st'.live.settings
    ∧ ∀ e, r = .error e → request.rolledBack = .ok () →
      st'.live.settings = st.live.settings
        ∧ (new codec base st'.file written').map (·.live.settings)
          = (new codec base st.file written').map (·.live.settings)
  := by
  obtain ⟨listen, hlisten⟩ : ∃ listen, Net.SocketAddr.parse base.listen = some listen := by
    cases hparse : Net.SocketAddr.parse base.listen with
    | none =>
      rw [new, hparse] at hnew
      cases hnew
    | some listen => exact ⟨listen, rfl⟩
  have h₀ : Durable codec base st₀ := by
    obtain ⟨st₁, hnew₁, h₁, _⟩ := new_eq hlisten haccepted written
    rw [hnew] at hnew₁
    cases hnew₁
    exact h₁
  have h : Durable codec base st := hst ▸ after_durable h₀ requests
  have hkeeps := request.perform_keeps h
  rw [hrun] at hkeeps
  have hrestart := hkeeps.durable.restart hlisten written'
  constructor
  · exact hrestart
  · intro e herror hback
    have hsettings := hkeeps.settings herror hback
    use hsettings
    rw [hrestart, h.restart hlisten written', hsettings]

/-- The service on an empty settings file and the default configuration. -/
def started : DnsService where
  live :=
    { resolver :=
        { upstreams := []
          mode := .failover
          bootstrap := [(⟨1, 1, 1, 1⟩, 53), (⟨8, 8, 8, 8⟩, 53)] }
      settings := .fromConfig {} }
  file := some "\x7b\x7d".toList

/-- An edit that adds a server that does not answer. -/
def addUnanswered : Request :=
  .editUpstreams (.add "Quad9".toList "9.9.9.9".toList "tls".toList)
    { lookup := .error [], saved := .ok (), answered := false, rolledBack := .ok () }

theorem edits_durable_unanswered :
  ∃ st', new DnsOverrides.referenceCodec {} started.file true = .ok started
    ∧ (addUnanswered.perform DnsOverrides.referenceCodec {}).run started
      = (.error (didNotAnswer "Quad9 (9.9.9.9:853)".toList), st')
    ∧ st'.file ≠ started.file ∧ st'.live.settings = started.live.settings
  := by
  let codec := DnsOverrides.referenceCodec
  have hnew : new codec {} started.file true = .ok started := by decide +kernel
  have haccepted : ((fromConfig {}).withOverrides (OverrideStore.load codec started.file)).resolver
      = .ok started.live.resolver := by decide +kernel
  have herror : ((addUnanswered.perform codec {}).run started).1
      = .error (didNotAnswer "Quad9 (9.9.9.9:853)".toList) := by decide +kernel
  have hrun : (addUnanswered.perform codec {}).run started
      = (.error (didNotAnswer "Quad9 (9.9.9.9:853)".toList),
        ((addUnanswered.perform codec {}).run started).2) := Prod.ext herror rfl
  have hkept := edits_durable codec haccepted hnew [] addUnanswered rfl hrun true
  exact ⟨_, hnew, hrun, by decide +kernel, (hkept.2 _ rfl rfl).1⟩

end DnsService

end Dns

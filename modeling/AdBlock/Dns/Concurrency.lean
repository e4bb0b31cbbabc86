import AdBlock.Dns.Durability
import AdBlock.Process.Exclusive

/-!
# Calls at the same time

Calls that save and publish while each of the others has not started, or has nothing more to change,
do what they do one after the other.  The calls take no lock, so that a call can also save and
publish what it made of settings that another call has changed since: then the change of the other
is lost.
-/

namespace Dns

namespace DnsService

open EffectiveDnsSettings Process Process.System

variable {codec : Codec DnsOverrides} {base : DnsConfig}

/-- The requests are carried out at the same time. -/
def concurrently {ι : Type} (codec : Codec DnsOverrides) (base : DnsConfig)
    (requests : ι → Request) (st : DnsService) : System ι DnsService (Except Text Unit) where
  proc i := ExceptT.run ((requests i).perform codec base)
  state := st

theorem inTurn_eq {ι : Type} (requests : ι → Request) (st : DnsService) (order : List ι) :
  (concurrently codec base requests st).inTurn order
    = after codec base (order.map requests) st
  := by
  rw [inTurn, after, List.foldl_map]
  rfl

/-! ### A call that succeeds changes the settings -/

theorem publish_not_silent (live : LiveDns) (r : Except Text Unit) :
  ¬ ReturnsSilently (ExceptT.run (publish live)) r
  := by
  intro h
  let other : LiveDns :=
    { live with
      settings :=
        { live.settings with
          stripEch := !live.settings.stripEch } }
  have hstate := ReturnsSilently.atomic_inv h { live := other, file := none }
  have hstrip : live.settings.stripEch = !live.settings.stripEch :=
    congrArg (·.live.settings.stripEch) hstate
  cases hlive : live.settings.stripEch <;> simp [hlive] at hstrip

theorem realize_not_silent (eff : EffectiveDnsSettings) (persist : Call Unit) :
  ¬ ReturnsSilently (ExceptT.run (realize eff persist)) (.ok ())
  := by
  intro h
  obtain ⟨_, _, h⟩ := Fallible.returnsSilently_bind_inv h
  obtain ⟨_, _, h⟩ := Fallible.returnsSilently_bind_inv h
  obtain ⟨_, _, h⟩ := Fallible.returnsSilently_bind_inv h
  obtain ⟨_, _, h⟩ := Fallible.returnsSilently_bind_inv h
  exact publish_not_silent _ _ h

theorem applySettings_not_silent (upd : DnsOverrides) (saved : Except Text Unit) :
  ¬ ReturnsSilently (ExceptT.run (applySettings codec upd saved)) (.ok ())
  := by
  intro h
  obtain ⟨_, _, h⟩ := Fallible.returnsSilently_bind_inv h
  exact realize_not_silent _ _ h

theorem Request.perform_not_silent (request : Request) :
  ¬ ReturnsSilently (ExceptT.run (request.perform codec base)) (.ok ())
  := by
  cases request with
  | applySettings upd saved => exact applySettings_not_silent upd saved
  | resetSettings removed => exact realize_not_silent _ _
  | editUpstreams cmd outcomes =>
    intro h
    obtain ⟨_, h, _⟩ := Fallible.returnsSilently_bind_inv h
    obtain ⟨_, _, h⟩ := Fallible.returnsSilently_bind_inv h
    obtain ⟨_, _, h⟩ := Fallible.returnsSilently_bind_inv h
    obtain ⟨_, h, _⟩ := Fallible.returnsSilently_bind_inv h
    exact applySettings_not_silent _ _ h

/-! ### Calls in turn -/

/-- If each call saves and publishes while each other call has not started or is settled, the calls
do what they do one after the other, and the settings in use are those of the file.  Only calls that
fail can be left out. -/
theorem concurrent_edits {ι : Type} [DecidableEq ι] {st : DnsService}
    (h : Durable codec base st) (requests : ι → Request) {schedule : List ι}
    {c : System ι DnsService (Except Text Unit)}
    (hexec : (concurrently codec base requests st).exec schedule = some c)
    {results : ι → Except Text Unit} (hdone : ∀ i, c.proc i = .done (results i))
    (hexclusive : Exclusive (concurrently codec base requests st) schedule) :
  ∃ order : List ι, order.Nodup ∧ (∀ i, results i = .ok () → i ∈ order)
    ∧ (∀ before i rest, order = before ++ i :: rest →
      ((requests i).perform codec base).run (after codec base (before.map requests) st)
        = (results i, after codec base ((before ++ [i]).map requests) st))
    ∧ c.state = after codec base (order.map requests) st
    ∧ c.state.live.settings
      = (fromConfig base).withOverrides (OverrideStore.load codec c.state.file)
  := by
  obtain ⟨order, hnodup, hstate, hresult, hsilent⟩ := hexclusive.serialized hexec hdone
  rw [inTurn_eq] at hstate
  have hdurable := after_durable h (order.map requests)
  rw [← hstate] at hdurable
  use order, hnodup
  refine ⟨?_, ?_, hstate, hdurable.settings⟩
  · intro i hok
    by_contra hi
    have hreturns := hsilent i hi
    rw [hok] at hreturns
    exact (requests i).perform_not_silent hreturns
  · intro before i rest hsplit
    apply Prod.ext
    · rw [hresult before i rest hsplit, inTurn_eq]
      rfl
    · rw [← inTurn_eq, ← inTurn_eq, inTurn_append]
      rfl

/-! ### Two edits -/

/-- The service with one server. -/
def oneServer : DnsService :=
  after DnsOverrides.referenceCodec {}
    [.applySettings { upstreams := some ["1.1.1.1".toList] } (.ok ())] started

theorem durable_oneServer :
  Durable DnsOverrides.referenceCodec {} oneServer
  := by
  apply after_durable
  constructor
  · decide +kernel
  · decide +kernel

/-- One call adds a server and another removes the one that is there. -/
def addAndDelete : Bool → Request
  | false =>
      .editUpstreams (.add "Quad9".toList "9.9.9.9".toList "tls".toList)
        { lookup := .error [], saved := .ok (), answered := true, rolledBack := .ok () }
  | true =>
      .editUpstreams (.delete "1.1.1.1".toList)
        { lookup := .error [], saved := .ok (), answered := true, rolledBack := .ok () }

/-- The edits at the same time. -/
def edits : System Bool DnsService (Except Text Unit) :=
  concurrently DnsOverrides.referenceCodec {} addAndDelete oneServer

/-- What the edits have returned, and the servers in use and in the file. -/
def progress (c : System Bool DnsService (Except Text Unit)) :
    (Bool → Option (Except Text Unit)) × List Text × Option (List Text) :=
  (fun i => (c.proc i).result, c.state.live.settings.upstreams,
    (OverrideStore.load DnsOverrides.referenceCodec c.state.file).upstreams)

theorem done_of_progress {c : System Bool DnsService (Except Text Unit)}
    (h : (progress c).1 = fun _ => some (.ok ())) (i : Bool) :
  c.proc i = .done (.ok ())
  := eq_done_of_result (congrFun h i)

/-- Nothing depends on the settings any more once the query to the new server is on its way. -/
theorem settled_testing :
  ∃ c, edits.exec (List.replicate 9 false) = some c ∧ c.Settled false
  := by
  refine ⟨_, rfl, .ok (), ?_⟩
  exact .step (fun _ => rfl) fun _ => .done _

/-- A server is removed while a new one is being tested. -/
theorem concurrent_edits_testing :
  ∃ c, edits.exec (List.replicate 9 false ++ (List.replicate 6 true ++ [false])) = some c
    ∧ (∀ i, c.proc i = .done (.ok ()))
    ∧ ∃ order : List Bool, (∀ i, i ∈ order)
      ∧ c.state = after DnsOverrides.referenceCodec {} (order.map addAndDelete) oneServer
  := by
  have hboth : (edits.exec (List.replicate 9 false ++ (List.replicate 6 true ++ [false]))).map
      progress = some (fun _ => some (.ok ()), ["tls://9.9.9.9:853#Quad9".toList],
        some ["tls://9.9.9.9:853#Quad9".toList]) := by decide +kernel
  obtain ⟨c₁, hexec₁, hsettled⟩ := settled_testing
  obtain ⟨c, hexec, hprogress⟩ := Option.map_eq_some_iff.mp hboth
  have hdone := done_of_progress (congrArg Prod.fst hprogress)
  have hfirst : Exclusive edits ([] ++ List.replicate 9 false) := by
    apply (Exclusive.nil edits).append (k := false) rfl
    · simp
    · exact fun i hi hne => absurd (List.eq_of_mem_replicate hi) hne
  have hothers (i : Bool) (hne : i ≠ true) : c₁.Settled i := by
    rwa [Bool.eq_false_of_not_eq_true hne]
  have hexclusive : Exclusive edits (List.replicate 9 false ++ (List.replicate 6 true ++ [false])) :=
    hfirst.append hexec₁ (fun i _ => hothers i) (fun i _ => hothers i)
  obtain ⟨order, _, hok, _, hstate, _⟩ :=
    concurrent_edits durable_oneServer addAndDelete hexec hdone hexclusive
  exact ⟨c, hexec, hdone, order, fun i => hok i rfl, hstate⟩

/-- A server is removed while another one is being added: both calls succeed, and the server is
still there.  It is gone when the calls come one after the other. -/
theorem concurrent_delete_undone :
  ∃ c, edits.exec (false :: List.replicate 6 true ++ List.replicate 9 false) = some c
    ∧ (∀ i, c.proc i = .done (.ok ()))
    ∧ c.state.live.settings.upstreams = ["1.1.1.1".toList, "tls://9.9.9.9:853#Quad9".toList]
    ∧ (OverrideStore.load DnsOverrides.referenceCodec c.state.file).upstreams
      = some ["1.1.1.1".toList, "tls://9.9.9.9:853#Quad9".toList]
    ∧ ∀ order ∈ [[false, true], [true, false]],
      (after DnsOverrides.referenceCodec {} (order.map addAndDelete)
        oneServer).live.settings.upstreams = ["tls://9.9.9.9:853#Quad9".toList]
  := by
  have hboth : (edits.exec (false :: List.replicate 6 true ++ List.replicate 9 false)).map progress
      = some (fun _ => some (.ok ()), ["1.1.1.1".toList, "tls://9.9.9.9:853#Quad9".toList],
        some ["1.1.1.1".toList, "tls://9.9.9.9:853#Quad9".toList]) := by decide +kernel
  obtain ⟨c, hexec, hprogress⟩ := Option.map_eq_some_iff.mp hboth
  refine ⟨c, hexec, done_of_progress (congrArg Prod.fst hprogress),
    congrArg (·.2.1) hprogress, congrArg (·.2.2) hprogress, ?_⟩
  decide +kernel

end DnsService

end Dns

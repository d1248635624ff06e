import LayeredCss.Live.Debouncer
import LayeredCss.Live.Endpoint
import LayeredCss.Proofs.Session.LastGood

/-!
# What the live endpoint serves

The stylesheet of a session is made in several places: when a module is loaded, when a flush is due
and when somebody fetches it.  Each of them may fail, and all share the stylesheet that is kept.  A
*host* is what they work on, and its calls come in any order.

* `Host.session_perform`: what a call does to the session, it does through one call of the session;
* `response_fetch`: a fetch serves what is kept after it;
* `response_of_run`: so it serves the complete stylesheet of the store at the last success;
* `outcome_of_run`, `revision_of_run`: what a call that makes the stylesheet does, and the order of the
  stores that are served;
* `fetch_serves_last_success`: all of this for every run.
-/

namespace LayeredCss

/-- A plugin, the debouncer of its flushes, and the world that subscribers act on. -/
structure Host (κ ω : Type) where
  plugin : Plugin
  debouncer : Debouncer κ
  world : ω

namespace Host

inductive Call (κ : Type)
  | session (call : Session.Call)
  | load (generate : Generator) (moduleId : String)
  | notify (now : Nat)
  | cancel
  | subscribe (subscriber : κ)
  | unsubscribe (id : Nat)
  | poll (generate : Generator) (now : Nat)
  | fetch (generate : Generator)

variable {κ ω : Type}

abbrev session (x : Host κ ω) : Session := x.plugin.session

def withSession (x : Host κ ω) (session : Session) : Host κ ω :=
  { x with plugin := { x.plugin with session } }

/-- What a call asks of the session, if anything.  A stylesheet is made by each fetch, by a poll that
is due, and by loading the stylesheet module of a one-shot build. -/
def asks (x : Host κ ω) : Call κ → Option Session.Call
  | .session call => some call
  | .load generate moduleId =>
    if x.plugin.sheet.isResolved moduleId ∧ x.plugin.sheet.mode = .oneShot then
      some (.stylesheet generate)
    else none
  | .poll generate now => if x.debouncer.isDue now then some (.stylesheet generate) else none
  | .fetch generate => some (.stylesheet generate)
  | _ => none

variable (deliver : κ → Nat → ω → Traced (Delivery × ω))

/-- The host after a call. -/
def perform (x : Host κ ω) : Call κ → Host κ ω
  | .session call => x.withSession (x.session.perform call).2
  | .load generate moduleId => { x with plugin := (x.plugin.load generate moduleId).value.2 }
  | .notify now => { x with debouncer := (x.debouncer.notify now).value }
  | .cancel => { x with debouncer := x.debouncer.cancel.value.2 }
  | .subscribe subscriber => { x with debouncer := (x.debouncer.subscribe subscriber).2 }
  | .unsubscribe id => { x with debouncer := (x.debouncer.unsubscribe id).2 }
  | .poll generate now =>
    let (_, debouncer, session, world) :=
      (x.debouncer.poll deliver generate now x.session x.world).value
    { x.withSession session with debouncer, world }
  | .fetch generate => x.withSession (Endpoint.fetch x.session generate).value.2

/-- The host after calls in this order. -/
def after (x : Host κ ω) : List (Call κ) → Host κ ω
  | [] => x
  | call :: rest => (x.perform deliver call).after rest

/-- What calls in this order ask of the session. -/
def asked (x : Host κ ω) : List (Call κ) → List Session.Call
  | [] => []
  | call :: rest => (x.asks call).toList ++ (x.perform deliver call).asked rest

/-- The stores that a host makes stylesheets of while it gets calls in this order. -/
def made (x : Host κ ω) (calls : List (Call κ)) : List RuleStore :=
  x.session.made (x.asked deliver calls)

/-! ## What calls do to the session -/

theorem session_load (p : Plugin) (generate : Generator) (moduleId : String) :
    (p.load generate moduleId).value.2.session =
      if p.sheet.isResolved moduleId ∧ p.sheet.mode = .oneShot then
        (p.session.stylesheet generate).value.2
      else p.session := by
  unfold Plugin.load SheetModule.load
  cases p.sheet.isResolved moduleId with
  | false => rfl
  | true => cases p.sheet.mode <;> rfl

theorem session_poll (s : Debouncer κ) (generate : Generator) (now : Nat) (session : Session)
    (world : ω) :
    (s.poll deliver generate now session world).value.2.2.1 =
      if s.isDue now then (session.stylesheet generate).value.2 else session := by
  unfold Debouncer.poll
  cases s.isDue now with
  | false => rfl
  | true =>
    simp only [Bool.not_true, Bool.false_eq_true, if_false, if_true, Traced.value_bind]
    rcases (session.stylesheet generate).value with ⟨failure | css, next⟩
    · rfl
    · simp only [Traced.value_bind]
      split <;> rfl

/-- **What a call does to the session**, it does through what it asks of it. -/
theorem session_perform (x : Host κ ω) (call : Call κ) :
    (x.perform deliver call).session = x.session.after (x.asks call).toList := by
  cases call with
  | session call => rfl
  | load generate moduleId =>
    refine (session_load x.plugin generate moduleId).trans ?_
    simp only [asks]
    split <;> rfl
  | poll generate now =>
    refine (session_poll deliver x.debouncer generate now x.session x.world).trans ?_
    simp only [asks]
    split <;> rfl
  | fetch generate => exact Endpoint.session_fetch x.session generate
  | _ => rfl

theorem session_after (x : Host κ ω) (calls : List (Call κ)) :
    (x.after deliver calls).session = x.session.after (x.asked deliver calls) := by
  induction calls generalizing x with
  | nil => rfl
  | cons call rest ih =>
    rw [after, asked, Session.after_append, ← session_perform, ih]

theorem asked_append (x : Host κ ω) (calls more : List (Call κ)) :
    x.asked deliver (calls ++ more) =
      x.asked deliver calls ++ (x.after deliver calls).asked deliver more := by
  induction calls generalizing x with
  | nil => rfl
  | cons call rest ih =>
    rw [List.cons_append, asked, asked, after, ih, List.append_assoc]

theorem after_append (x : Host κ ω) (calls more : List (Call κ)) :
    x.after deliver (calls ++ more) = (x.after deliver calls).after deliver more := by
  induction calls generalizing x with
  | nil => rfl
  | cons call rest ih => exact ih _

theorem made_append (x : Host κ ω) (calls more : List (Call κ)) :
    x.made deliver (calls ++ more) =
      x.made deliver calls ++ (x.after deliver calls).made deliver more := by
  simp only [made, asked_append, Session.made_append, session_after]

/-! ## What is served -/

/-- **A fetch serves what is kept after it**, and nothing if there is nothing. -/
theorem response_fetch (s : Session) (generate : Generator) :
    (Endpoint.fetch s generate).value.1 =
      match (Endpoint.fetch s generate).value.2.lastGood? with
      | some text => .css 200 text
      | none => .css 503 "" := by
  rw [Endpoint.session_fetch]
  rcases Session.stylesheet_cases s generate with ⟨failure, hvalue, -⟩ | ⟨text, sheets, hvalue, hkept⟩
  · simp only [Endpoint.fetch, Traced.value_bind, hvalue]
    cases s.lastGood? <;> rfl
  · rw [Endpoint.value_fetch_of_ok hvalue, hvalue]
    simp only [Session.lastGood?, hkept, Option.map_some]

section Runs

variable {deliver} {x₀ : Host κ ω} {lifecycle : Lifecycle} (h₀ : x₀.session.Starts lifecycle)
  {css : List String → String} {calls : List (Call κ)}
  (hgenerators : ∀ generate, .stylesheet generate ∈ x₀.asked deliver calls → generate.Agrees css)
  (hlt : Session.mutations (x₀.session.history (x₀.asked deliver calls)) < UInt64.size)
include hgenerators hlt

/-- What holds of the generators and changes of a run holds of its beginning. -/
theorem asked_prefix {before more : List (Call κ)} (hcalls : calls = before ++ more) :
    (∀ generate, .stylesheet generate ∈ x₀.asked deliver before → generate.Agrees css) ∧
      Session.mutations (x₀.session.history (x₀.asked deliver before)) < UInt64.size := by
  rw [hcalls, asked_append] at hgenerators hlt
  exact Session.beginning_of_run hgenerators hlt

include h₀

/-- What is kept after a run is the complete stylesheet of the store at the last success. -/
theorem lastGood?_after :
    (x₀.after deliver calls).session.lastGood? = (x₀.made deliver calls).getLast?.map
      (Session.pageOf css x₀.session.config.annotateSources) := by
  rw [session_after, Session.lastGood?, Session.lastGood_after h₀ hgenerators hlt, Option.map_map]
  rfl

/-- A fetch of a run serves the stylesheet of the store at the last success. -/
theorem response_of_run {before rest : List (Call κ)} {generate : Generator}
    (hcalls : calls = before ++ .fetch generate :: rest) :
    (Endpoint.fetch (x₀.after deliver before).session generate).value.1 =
      match (x₀.made deliver (before ++ [.fetch generate])).getLast? with
      | some store => .css 200 (Session.pageOf css x₀.session.config.annotateSources store)
      | none => .css 503 "" := by
  have hcalls' : calls = (before ++ [.fetch generate]) ++ rest := by
    rw [hcalls, List.append_assoc]
    rfl
  obtain ⟨hgenerators, hlt⟩ := asked_prefix hgenerators hlt hcalls'
  have hkept := lastGood?_after h₀ hgenerators hlt
  have hsession : (x₀.after deliver (before ++ [.fetch generate])).session =
      (Endpoint.fetch (x₀.after deliver before).session generate).value.2 := by
    rw [after_append]
    rfl
  rw [hsession] at hkept
  rw [response_fetch, hkept]
  cases (x₀.made deliver (before ++ [.fetch generate])).getLast? with
  | none => rfl
  | some store => rfl

/-- A call of a run that makes the stylesheet gives that of the present store, or changes nothing. -/
theorem outcome_of_run {before rest : List (Call κ)} {call : Call κ} {generate : Generator}
    (hcalls : calls = before ++ call :: rest)
    (hasks : (x₀.after deliver before).asks call = some (.stylesheet generate)) :
    let x := x₀.after deliver before
    (∀ text, (x.session.stylesheet generate).value.1 = .ok text →
      text = Session.pageOf css x₀.session.config.annotateSources x.session.store ∧
      x₀.made deliver (before ++ [call]) = x₀.made deliver before ++ [x.session.store]) ∧
    ∀ failure, (x.session.stylesheet generate).value.1 = .error failure →
      (x.perform deliver call).session = x.session ∧ x.session.isStale = true ∧
      x₀.made deliver (before ++ [call]) = x₀.made deliver before := by
  intro x
  have hsingle : x.made deliver [call] =
      (Session.Turn.made? ⟨x.session, .stylesheet generate⟩).toList := by
    rw [made, asked, asked, hasks, List.append_nil, Option.toList_some, Session.made_singleton]
  have hmade := (made_append deliver x₀ before [call]).trans (congrArg _ hsingle)
  have hnext : (x.perform deliver call).session = (x.session.stylesheet generate).value.2 := by
    rw [session_perform, hasks]
    rfl
  have hmem : .stylesheet generate ∈ x₀.asked deliver calls := by
    rw [hcalls, asked_append, asked, hasks]
    exact List.mem_append_right _ List.mem_cons_self
  have hgenerate := hgenerators generate hmem
  obtain ⟨hgenerators, hlt⟩ := asked_prefix hgenerators hlt hcalls
  have hfaithful := Session.faithful_after h₀ hgenerators
  rw [← session_after] at hfaithful
  rcases Session.stylesheet_cases x.session generate with
    ⟨failure, hvalue, hstale⟩ | ⟨text, sheets, hvalue, -⟩
  · rw [hmade, hnext, hvalue]
    refine ⟨fun text hok => ?_, fun _ _ => ⟨rfl, hstale, ?_⟩⟩
    · cases hok
    · simp only [Session.Turn.made?, hvalue, Except.toOption, Option.map_none, Option.toList_none,
        List.append_nil]
  · rw [hmade, hvalue]
    refine ⟨fun text' hok => ?_, fun failure herror => ?_⟩
    · cases hok
      refine ⟨hfaithful.stylesheet_eq_pageOf hlt hgenerate (congrArg Prod.fst hvalue), ?_⟩
      simp only [Session.Turn.made?, hvalue, Except.toOption, Option.map_some, Option.toList_some]
    · cases herror

/-- Once a run has had a success, the last one is never of an older revision. -/
theorem revision_of_run {before more rest : List (Call κ)} {store : RuleStore}
    (hcalls : calls = before ++ more ++ rest)
    (hstore : (x₀.made deliver before).getLast? = some store) :
    ∃ later, (x₀.made deliver (before ++ more)).getLast? = some later ∧
      store.revision ≤ later.revision := by
  obtain ⟨hgenerators, hlt⟩ := asked_prefix hgenerators hlt hcalls
  obtain ⟨hordered, -⟩ := Session.made_ordered h₀ hgenerators hlt
  change (x₀.made deliver (before ++ more)).Pairwise _ at hordered
  rw [made_append] at hordered ⊢
  obtain ⟨-, -, hle⟩ := List.pairwise_append.mp hordered
  cases hlast : ((x₀.after deliver before).made deliver more).getLast? with
  | none =>
    rw [List.getLast?_eq_none_iff.mp hlast, List.append_nil]
    exact ⟨store, hstore, UInt64.le_refl _⟩
  | some later =>
    refine ⟨later, ?_, hle store (List.mem_of_getLast? hstore) later (List.mem_of_getLast? hlast)⟩
    rw [List.getLast?_append, hlast, Option.some_or]

end Runs

/-- **What the live endpoint serves.**  In every run of a host whose generators may fail at any time, a
fetch serves the complete stylesheet of the store at the last success, its own if it is one, and the
status 503 without a body if there has been none.  Whatever call makes the stylesheet: if it succeeds
it gives the complete stylesheet of the present store; if it fails it changes nothing and what is kept
is stale.  And the revisions of the stores that are served do not go back. -/
theorem fetch_serves_last_success {deliver : κ → Nat → ω → Traced (Delivery × ω)} {x₀ : Host κ ω}
    {lifecycle : Lifecycle} (h₀ : x₀.session.Starts lifecycle) {css : List String → String}
    {calls : List (Call κ)}
    (hgenerators : ∀ generate, .stylesheet generate ∈ x₀.asked deliver calls → generate.Agrees css)
    (hlt : Session.mutations (x₀.session.history (x₀.asked deliver calls)) < UInt64.size) :
    (∀ before generate rest, calls = before ++ .fetch generate :: rest →
      (Endpoint.fetch (x₀.after deliver before).session generate).value.1 =
        match (x₀.made deliver (before ++ [.fetch generate])).getLast? with
        | some store => .css 200 (Session.pageOf css x₀.session.config.annotateSources store)
        | none => .css 503 "") ∧
    (∀ before call rest generate, calls = before ++ call :: rest →
      (x₀.after deliver before).asks call = some (.stylesheet generate) →
      let x := x₀.after deliver before
      (∀ text, (x.session.stylesheet generate).value.1 = .ok text →
        text = Session.pageOf css x₀.session.config.annotateSources x.session.store ∧
        x₀.made deliver (before ++ [call]) = x₀.made deliver before ++ [x.session.store]) ∧
      ∀ failure, (x.session.stylesheet generate).value.1 = .error failure →
        (x.perform deliver call).session = x.session ∧ x.session.isStale = true ∧
        x₀.made deliver (before ++ [call]) = x₀.made deliver before) ∧
    ∀ before more rest store, calls = before ++ more ++ rest →
      (x₀.made deliver before).getLast? = some store →
      ∃ later, (x₀.made deliver (before ++ more)).getLast? = some later ∧
        store.revision ≤ later.revision := by
  refine ⟨?_, ?_, ?_⟩
  · intro before generate rest hcalls
    exact response_of_run h₀ hgenerators hlt hcalls
  · intro before call rest generate hcalls hasks
    exact outcome_of_run h₀ hgenerators hlt hcalls hasks
  · intro before more rest store hcalls hstore
    exact revision_of_run h₀ hgenerators hlt hcalls hstore

/-- A fetch before the first success, and one after a flush that has failed on a newer store. -/
theorem fetch_serves_last_success_failing :
    let deliver : Unit → Nat → Unit → Traced (Delivery × Unit) := fun _ _ _ => pure (.done, ())
    let broken : Generator := fun _ => .error (.ofText "no css")
    let x₀ : Host Unit Unit := ⟨.ofSession (Session.blank .watch), .new 0, ()⟩
    let first : List (Call Unit) := [.session (.process ⟨⟨"a.ts"⟩, "strata", Session.oneRule⟩)]
    let second : List (Call Unit) := [.fetch broken, .fetch joinedRules,
      .session (.process ⟨⟨"b.ts"⟩, "strata", Session.oneRule⟩), .notify 0, .poll broken 0]
    (Endpoint.fetch (x₀.after deliver first).session broken).value.1 = .css 503 "" ∧
    (Endpoint.fetch (x₀.after deliver (first ++ second)).session broken).value.1 =
      .css 200 ".a\x7b\x7d" ∧
    (x₀.after deliver (first ++ second)).session.isStale = true := by
  intro deliver broken x₀ first second
  let calls := first ++ second ++ [.fetch broken]
  have hasked : x₀.asked deliver calls =
      [.process ⟨⟨"a.ts"⟩, "strata", Session.oneRule⟩, .stylesheet broken, .stylesheet joinedRules,
        .process ⟨⟨"b.ts"⟩, "strata", Session.oneRule⟩, .stylesheet broken, .stylesheet broken] := by
    rfl
  have hgenerators : ∀ generate, .stylesheet generate ∈ x₀.asked deliver calls →
      generate.Agrees "\n\n".intercalate := by
    intro generate hmem rules text hok
    simp only [hasked, List.mem_cons, List.not_mem_nil, or_false, reduceCtorEq, false_or,
      Session.Call.stylesheet.injEq] at hmem
    rcases hmem with rfl | rfl | rfl | rfl
    · cases hok
    · cases hok
      rfl
    · cases hok
    · cases hok
  have hlt : Session.mutations (x₀.session.history (x₀.asked deliver calls)) < UInt64.size := by
    decide +kernel
  obtain ⟨hserved, houtcome, -⟩ :=
    fetch_serves_last_success (Session.starts_blank .watch) hgenerators hlt
  have hnone : (x₀.made deliver (first ++ [.fetch broken])).getLast? = none := by decide +kernel
  have hsome : (x₀.made deliver (first ++ second ++ [.fetch broken])).getLast? =
      some (x₀.after deliver first).session.store := by decide +kernel
  have hfails : ((x₀.after deliver (first ++ second)).session.stylesheet broken).value.1 =
      .error (.ofText "no css") := by decide +kernel
  refine ⟨?_, ?_, ?_⟩
  · rw [hserved first broken _ rfl, hnone]
  · rw [hserved (first ++ second) broken [] rfl, hsome]
    decide +kernel
  · obtain ⟨-, hfailed⟩ := houtcome (first ++ second) (.fetch broken) [] broken rfl rfl
    exact (hfailed _ hfails).2.1

end Host

end LayeredCss

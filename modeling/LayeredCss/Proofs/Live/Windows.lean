import Mathlib.Data.List.DropRight
import LayeredCss.Proofs.Live.Serving

/-!
# The changes that a flush takes

All that the debouncer keeps of the past is one deadline and one number.  Behind them stands a
history: changes that put the flush off, polls that come too early or long after the time, flushes
that fail and flushes that are called off.  A poll that is due and a cancel both start it anew.

The history of a host is told with a clock that moves only when it is moved.

* `Deed`, `clock`, `stamped`: what is done with a host and its clock, as calls with their times;
* `notes`: the times of the changes since the last poll that was due and the last cancel;
* `debouncer_after`: what is pending is what the notes say;
* `isDue_after`, `answer_ne_idle`: a poll acts if the delay has gone by since the last note;
* `Flushed`, `polled_of_due`: what it does then;
* `poll_of_deeds`: all of this for every history.
-/

namespace LayeredCss.Host

variable {κ ω : Type}

/-! ## A clock that moves when it is moved -/

/-- What is done with a host, or with its clock. -/
inductive Deed (κ : Type)
  | advance (duration : Nat)
  | session (call : Session.Call)
  | notify
  | cancel
  | subscribe (subscriber : κ)
  | unsubscribe (id : Nat)
  | poll (generate : Generator)

namespace Deed

/-- How far the clock moves. -/
def elapsed : Deed κ → Nat
  | .advance duration => duration
  | _ => 0

/-- The call that the host gets at the time. -/
def call? (now : Nat) : Deed κ → Option (Call κ)
  | .advance _ => none
  | .session call => some (.session call)
  | .notify => some (.notify now)
  | .cancel => some .cancel
  | .subscribe subscriber => some (.subscribe subscriber)
  | .unsubscribe id => some (.unsubscribe id)
  | .poll generate => some (.poll generate now)

/-- The generator that makes a stylesheet, if one is made. -/
def generator? : Deed κ → Option Generator
  | .session (.stylesheet generate) => some generate
  | .poll generate => some generate
  | _ => none

end Deed

/-- The time after deeds. -/
def clock (start : Nat) : List (Deed κ) → Nat
  | [] => start
  | deed :: rest => clock (start + deed.elapsed) rest

/-- The calls of a host that is used in this way, with their times. -/
def stamped (start : Nat) : List (Deed κ) → List (Call κ)
  | [] => []
  | deed :: rest => (deed.call? start).toList ++ stamped (start + deed.elapsed) rest

/-- The time of a call that tells of a change. -/
def Call.noted? : Call κ → Option Nat
  | .notify now => some now
  | _ => none

theorem le_clock (start : Nat) (deeds : List (Deed κ)) : start ≤ clock start deeds := by
  induction deeds generalizing start with
  | nil => exact Nat.le_refl start
  | cons deed rest ih => exact Nat.le_trans (Nat.le_add_right _ _) (ih (start + deed.elapsed))

/-- The changes that a host is told of come in the order of their times. -/
theorem noted_stamped (start : Nat) (deeds : List (Deed κ)) :
    ((stamped start deeds).filterMap Call.noted?).Pairwise (· ≤ ·) ∧
      ∀ time ∈ (stamped start deeds).filterMap Call.noted?,
        start ≤ time ∧ time ≤ clock start deeds := by
  induction deeds generalizing start with
  | nil => simp [stamped]
  | cons deed rest ih =>
    obtain ⟨hordered, hlater⟩ := ih (start + deed.elapsed)
    have hclock : clock start (deed :: rest) = clock (start + deed.elapsed) rest := rfl
    have hle := le_clock start (deed :: rest)
    have hfirst : (deed.call? start).toList.filterMap Call.noted? = [] ∨
        (deed.call? start).toList.filterMap Call.noted? = [start] := by
      cases deed <;> simp [Deed.call?, Call.noted?, List.filterMap_cons]
    have hrest : ∀ time ∈ (stamped (start + deed.elapsed) rest).filterMap Call.noted?,
        start ≤ time ∧ time ≤ clock start (deed :: rest) := by
      intro time htime
      have := hlater time htime
      omega
    rw [stamped, List.filterMap_append]
    rcases hfirst with hnone | hnoted
    · rw [hnone]
      exact ⟨hordered, hrest⟩
    · rw [hnoted, List.singleton_append, List.pairwise_cons, List.forall_mem_cons]
      exact ⟨⟨fun time htime => (hrest time htime).1, hordered⟩, ⟨le_rfl, hle⟩, hrest⟩

/-! ## The changes that wait -/

/-- A call of a host, with the host before it. -/
structure Turn (κ ω : Type) where
  before : Host κ ω
  call : Call κ

variable (deliver : κ → Nat → ω → Traced (Delivery × ω))

/-- The turns of a host that gets calls in this order. -/
def turns (x : Host κ ω) : List (Call κ) → List (Turn κ ω)
  | [] => []
  | call :: rest => ⟨x, call⟩ :: (x.perform deliver call).turns rest

/-- A poll of the host, with the notices that it leaves. -/
def polled (x : Host κ ω) (generate : Generator) (now : Nat) : Traced (PollResult × Host κ ω) :=
  let poll := x.debouncer.poll deliver generate now x.session x.world
  ⟨(poll.value.1, x.perform deliver (.poll generate now)), poll.trail⟩

/-- How a poll of the host ends. -/
def answer (x : Host κ ω) (generate : Generator) (now : Nat) : PollResult :=
  (x.polled deliver generate now).value.1

/-- Whether a turn starts the history anew: a poll that was due, or a cancel. -/
def Turn.resets (t : Turn κ ω) : Bool :=
  match t.call with
  | .cancel => true
  | .poll generate now => t.before.answer deliver generate now ≠ .idle
  | _ => false

/-- The times of the changes that a host has been told of since the history started anew. -/
def notes (x : Host κ ω) (calls : List (Call κ)) : List Nat :=
  ((x.turns deliver calls).rtakeWhile fun t => !t.resets deliver).filterMap (·.call.noted?)

/-! ### Histories with more calls -/

theorem turns_append (x : Host κ ω) (calls more : List (Call κ)) :
    x.turns deliver (calls ++ more) =
      x.turns deliver calls ++ (x.after deliver calls).turns deliver more := by
  induction calls generalizing x with
  | nil => rfl
  | cons call rest ih =>
    rw [List.cons_append, turns, turns, ih, List.cons_append, after]

theorem after_concat (x : Host κ ω) (calls : List (Call κ)) (call : Call κ) :
    x.after deliver (calls ++ [call]) = (x.after deliver calls).perform deliver call := by
  rw [after_append, after, after]

/-- What one more call adds to the notes, unless it starts them anew. -/
theorem notes_concat (x : Host κ ω) (calls : List (Call κ)) (call : Call κ) :
    x.notes deliver (calls ++ [call]) =
      if Turn.resets deliver ⟨x.after deliver calls, call⟩ then []
      else x.notes deliver calls ++ call.noted?.toList := by
  simp only [notes, turns_append, turns, List.rtakeWhile_concat]
  cases Turn.resets deliver ⟨x.after deliver calls, call⟩ with
  | true => simp
  | false => cases hnoted : call.noted? <;> simp [hnoted]

theorem generator_of_asks {x : Host κ ω} {now : Nat} {deed : Deed κ} {call : Call κ}
    {generate : Generator} (hcall : deed.call? now = some call)
    (h : x.asks call = some (.stylesheet generate)) : deed.generator? = some generate := by
  cases deed with
  | session asked =>
    cases hcall
    cases h
    rfl
  | poll generate' =>
    cases hcall
    simp only [asks] at h
    split at h <;> cases h
    rfl
  | _ => cases hcall <;> cases h

/-- The stylesheets of a history are made by the generators of its deeds. -/
theorem generator_of_asked {x : Host κ ω} {start : Nat} {deeds : List (Deed κ)}
    {generate : Generator} (h : .stylesheet generate ∈ x.asked deliver (stamped start deeds)) :
    ∃ deed ∈ deeds, deed.generator? = some generate := by
  induction deeds generalizing x start with
  | nil => cases h
  | cons deed rest ih =>
    rw [stamped, asked_append, List.mem_append] at h
    rcases h with hfirst | hrest
    · refine ⟨deed, List.mem_cons_self, ?_⟩
      cases hcall : deed.call? start with
      | none =>
        rw [hcall] at hfirst
        cases hfirst
      | some call =>
        rw [hcall, Option.toList_some, asked, asked, List.append_nil, Option.mem_toList] at hfirst
        exact generator_of_asks hcall hfirst
    · obtain ⟨later, hmem, hlater⟩ := ih hrest
      exact ⟨later, List.mem_cons_of_mem _ hmem, hlater⟩

/-! ## What a poll does -/

/-- What a poll does to a host if it makes the stylesheet: one flush of so many changes, of which each
subscriber is told. -/
structure Flushed (x : Host κ ω) (generate : Generator) (now count : Nat) (text : String)
    (y : Host κ ω) : Prop where
  answer : x.answer deliver generate now = .flushed (x.debouncer.flushes + 1) ∨
    ∃ message, x.answer deliver generate now = .crashed message
  trail :
    let generation := x.debouncer.flushes + 1
    let size := text.utf8ByteSize
    (x.polled deliver generate now).trail = (x.session.stylesheet generate).trail ++
      .log .info s!"[strata] flush #{generation}: {size} bytes from {count} mutation(s)" ::
        (Debouncer.tellAll deliver generation x.debouncer.subscribers x.world).trail
  debouncer : y.debouncer =
    { x.debouncer with pending := none, flushes := x.debouncer.flushes + 1 }
  world : y.world = (Debouncer.tellAll deliver (x.debouncer.flushes + 1) x.debouncer.subscribers
    x.world).value.2
  store : y.session.store = x.session.store
  fresh : y.session.isStale = false
  kept : y.session.lastGood? = some text

section Polls

variable {x : Host κ ω} (generate : Generator) {now : Nat}

/-- **A poll that is not due does nothing.** -/
theorem polled_of_not_due (h : x.debouncer.isDue now = false) :
    x.polled deliver generate now = pure (.idle, x) := by
  simp only [polled, perform, Debouncer.poll_of_not_due h]
  rfl

theorem perform_of_not_due (h : x.debouncer.isDue now = false) :
    x.perform deliver (.poll generate now) = x :=
  congrArg (·.value.2) (polled_of_not_due deliver generate h)

/-- **A poll that is due ends the wait**, and makes the stylesheet or leaves all else as it was. -/
theorem polled_of_due (h : x.debouncer.isDue now = true) :
    (∃ failure, (x.session.stylesheet generate).value.1 = .error failure ∧
      x.polled deliver generate now =
        ⟨(.failed failure, { x with debouncer := { x.debouncer with pending := none } }),
          (x.session.stylesheet generate).trail⟩) ∨
    ∃ text, (x.session.stylesheet generate).value.1 = .ok text ∧
      Flushed deliver x generate now x.debouncer.coalesced text
        (x.perform deliver (.poll generate now)) := by
  rcases x.debouncer.poll_cases deliver generate x.session x.world h with
    ⟨failure, next, hsheet, hpoll⟩ | ⟨text, next, result, hsheet, hresult, hpoll⟩
  · have hfailed := congrArg Prod.fst hsheet
    have hsame : next = x.session := by
      rw [← Session.stylesheet_of_error hfailed, hsheet]
    refine Or.inl ⟨failure, hfailed, ?_⟩
    simp only [polled, perform, hpoll, hsame]
    rfl
  · have hmade := congrArg Prod.fst hsheet
    obtain ⟨hstore, hkept, hfresh⟩ := Session.stylesheet_of_ok hmade
    rw [hsheet] at hstore hkept hfresh
    have hnext : x.perform deliver (.poll generate now) =
        { x.withSession next with
          debouncer := { x.debouncer with pending := none, flushes := x.debouncer.flushes + 1 }
          world := (Debouncer.tellAll deliver (x.debouncer.flushes + 1) x.debouncer.subscribers
            x.world).value.2 } := by
      simp only [perform, hpoll]
    have hanswer : x.answer deliver generate now = result := by
      simp only [answer, polled, hpoll]
    refine Or.inr ⟨text, hmade, ?_⟩
    rw [hnext]
    exact {
      answer := by rw [hanswer]; exact hresult
      trail := by simp only [polled, hpoll]
      debouncer := rfl
      world := rfl
      store := hstore
      fresh := hfresh
      kept := hkept }

/-- A poll acts if it is due. -/
theorem answer_ne_idle : x.answer deliver generate now ≠ .idle ↔ x.debouncer.isDue now = true := by
  cases hdue : x.debouncer.isDue now with
  | false => simp [answer, polled_of_not_due deliver generate hdue]
  | true =>
    refine iff_of_true ?_ rfl
    rcases polled_of_due deliver generate hdue with
      ⟨failure, -, hfailed⟩ | ⟨text, -, hflushed⟩
    · simp [answer, hfailed]
    · rcases hflushed.answer with hanswer | ⟨message, hanswer⟩ <;> simp [hanswer]

end Polls

/-- What a poll does to the debouncer. -/
theorem debouncer_poll (x : Host κ ω) (generate : Generator) (now : Nat) :
    ∃ flushes, (x.perform deliver (.poll generate now)).debouncer = { x.debouncer with
      pending := if x.debouncer.isDue now then none else x.debouncer.pending
      flushes } := by
  cases hdue : x.debouncer.isDue now with
  | false =>
    rw [perform_of_not_due deliver generate hdue]
    exact ⟨_, rfl⟩
  | true =>
    rcases polled_of_due deliver generate hdue with ⟨failure, -, hpolled⟩ | ⟨text, -, hflushed⟩
    · have hnext : x.perform deliver (.poll generate now) =
          { x with debouncer := { x.debouncer with pending := none } } :=
        congrArg (·.value.2) hpolled
      rw [hnext]
      exact ⟨_, rfl⟩
    · exact ⟨_, hflushed.debouncer⟩

/-! ## What is pending -/

theorem resets_poll (x : Host κ ω) (generate : Generator) (now : Nat) :
    Turn.resets deliver ⟨x, .poll generate now⟩ = x.debouncer.isDue now := by
  have hacts : x.answer deliver generate now ≠ .idle ↔ x.debouncer.isDue now = true :=
    answer_ne_idle deliver generate
  simp only [Turn.resets, decide_not]
  cases hdue : x.debouncer.isDue now <;> simp_all

/-- **What a call does to the pending flush**: it is gone, or there is one more change for it, or it
stays as it is. -/
theorem debouncer_perform (x : Host κ ω) (call : Call κ) :
    (x.perform deliver call).debouncer.delay = x.debouncer.delay ∧
    (x.perform deliver call).debouncer.pending =
      if Turn.resets deliver ⟨x, call⟩ then none
      else match call.noted? with
        | some now => some ⟨now + x.debouncer.delay, x.debouncer.coalesced + 1⟩
        | none => x.debouncer.pending := by
  cases call with
  | poll generate now =>
    obtain ⟨flushes, hpoll⟩ := debouncer_poll deliver x generate now
    rw [resets_poll, hpoll]
    exact ⟨rfl, rfl⟩
  | cancel => simp [perform, Turn.resets]
  | _ => exact ⟨rfl, rfl⟩

theorem coalesced_of_pending {d : Debouncer κ} {notes : List Nat} {delay : Nat}
    (h : d.pending = notes.getLast?.map fun last => ⟨last + delay, notes.length⟩) :
    d.coalesced = notes.length := by
  rw [Debouncer.coalesced, h]
  cases notes using List.reverseRecOn <;> simp

/-- **What is pending is what the notes say**: their number, and the last of them and the delay. -/
theorem debouncer_after {x₀ : Host κ ω} {delay : Nat} (hnew : x₀.debouncer = .new delay)
    (calls : List (Call κ)) :
    (x₀.after deliver calls).debouncer.delay = delay ∧
    (x₀.after deliver calls).debouncer.pending = (x₀.notes deliver calls).getLast?.map fun last =>
      ⟨last + delay, (x₀.notes deliver calls).length⟩ := by
  induction calls using List.reverseRecOn with
  | nil =>
    rw [after, hnew]
    exact ⟨rfl, rfl⟩
  | append_singleton calls call ih =>
    obtain ⟨hdelay, hpending⟩ := ih
    obtain ⟨hkept, hnext⟩ := debouncer_perform deliver (x₀.after deliver calls) call
    have hcoalesced : (x₀.after deliver calls).debouncer.coalesced =
        (x₀.notes deliver calls).length := coalesced_of_pending hpending
    rw [after_concat, notes_concat]
    refine ⟨hkept.trans hdelay, hnext.trans ?_⟩
    cases Turn.resets deliver ⟨x₀.after deliver calls, call⟩ with
    | true => rfl
    | false =>
      cases hnoted : call.noted? with
      | none => simpa using hpending
      | some now => simp [hdelay, hcoalesced]

/-- The notes are among the changes that the host has been told of. -/
theorem notes_sublist (x : Host κ ω) (calls : List (Call κ)) :
    (x.notes deliver calls).Sublist (calls.filterMap Call.noted?) := by
  have hcalls : (x.turns deliver calls).map (·.call) = calls := by
    induction calls generalizing x with
    | nil => rfl
    | cons call rest ih => rw [turns, List.map_cons, ih]
  have hnoted : (x.turns deliver calls).filterMap (·.call.noted?) = calls.filterMap Call.noted? := by
    conv_rhs => rw [← hcalls, List.filterMap_map]
    rfl
  rw [← hnoted]
  exact (List.rtakeWhile_suffix _ _).sublist.filterMap _

theorem isDue_after {x₀ : Host κ ω} {delay : Nat} (hnew : x₀.debouncer = .new delay)
    (calls : List (Call κ)) :
    (x₀.after deliver calls).debouncer.isDue now = true ↔
      ∃ last, (x₀.notes deliver calls).getLast? = some last ∧ last + delay ≤ now := by
  obtain ⟨-, hpending⟩ := debouncer_after deliver hnew calls
  rw [Debouncer.isDue, hpending]
  cases (x₀.notes deliver calls).getLast? <;> simp

theorem coalesced_after {x₀ : Host κ ω} {delay : Nat} (hnew : x₀.debouncer = .new delay)
    (calls : List (Call κ)) :
    (x₀.after deliver calls).debouncer.coalesced = (x₀.notes deliver calls).length := by
  exact coalesced_of_pending (debouncer_after deliver hnew calls).2

/-- **What a poll does after any history.**  With whatever delay, and whatever has been done with a
host and its clock, a poll acts if there has been a change since the last poll that was due and the
last cancel, and the delay has gone by since the last such change; otherwise it does nothing at all.
If it acts nothing is pending afterwards.  Then either the stylesheet can be made: there is one flush,
of all those changes, and the complete stylesheet of the present store is kept; or it cannot, and all
but what was pending is as it was. -/
theorem poll_of_deeds (deliver : κ → Nat → ω → Traced (Delivery × ω)) {x₀ : Host κ ω}
    {lifecycle : Lifecycle} (h₀ : x₀.session.Starts lifecycle) {delay : Nat}
    (hnew : x₀.debouncer = .new delay) (start : Nat) (deeds : List (Deed κ))
    (generate : Generator) :
    let calls := stamped start deeds
    let now := clock start deeds
    let notes := x₀.notes deliver calls
    let x := x₀.after deliver calls
    let y := x.perform deliver (.poll generate now)
    (notes.Pairwise (· ≤ ·) ∧ ∀ time ∈ notes, time ≤ now) ∧
    (x.answer deliver generate now ≠ .idle ↔
      ∃ last, notes.getLast? = some last ∧ last + delay ≤ now) ∧
    (x.answer deliver generate now = .idle → x.polled deliver generate now = pure (.idle, x)) ∧
    (x.answer deliver generate now ≠ .idle → y.debouncer.pending = none ∧
      (∀ text, (x.session.stylesheet generate).value.1 = .ok text →
        Flushed deliver x generate now notes.length text y ∧
        ∀ css : List String → String,
          (∀ deed ∈ deeds, ∀ generate ∈ deed.generator?, generate.Agrees css) →
          generate.Agrees css →
          Session.mutations (x₀.session.history (x₀.asked deliver calls)) < UInt64.size →
          text = Session.pageOf css x₀.session.config.annotateSources x.session.store) ∧
      ∀ failure, (x.session.stylesheet generate).value.1 = .error failure →
        x.answer deliver generate now = .failed failure ∧
        y = { x with debouncer := { x.debouncer with pending := none } }) := by
  intro calls now notes x y
  have hdue : x.debouncer.isDue now = true ↔
      ∃ last, notes.getLast? = some last ∧ last + delay ≤ now := isDue_after deliver hnew calls
  have hcount : x.debouncer.coalesced = notes.length := coalesced_after deliver hnew calls
  have hnoted : notes.Sublist (calls.filterMap Call.noted?) := notes_sublist deliver x₀ calls
  obtain ⟨hordered, hpast⟩ := noted_stamped start deeds
  refine ⟨⟨hordered.sublist hnoted, ?_⟩, (answer_ne_idle deliver generate).trans hdue, ?_, ?_⟩
  · exact fun time htime => (hpast time (hnoted.subset htime)).2
  · intro hidle
    refine polled_of_not_due deliver generate (Bool.eq_false_iff.mpr fun h => ?_)
    exact (answer_ne_idle deliver generate).mpr h hidle
  · intro hacts
    rcases polled_of_due deliver generate ((answer_ne_idle deliver generate).mp hacts) with
      ⟨failure, hfailed, hpolled⟩ | ⟨text, hmade, hflushed⟩
    · have hnext : y = { x with debouncer := { x.debouncer with pending := none } } :=
        congrArg (·.value.2) hpolled
      have hanswer : x.answer deliver generate now = .failed failure := congrArg (·.value.1) hpolled
      refine ⟨?_, ?_, ?_⟩
      · rw [hnext]
      · intro text hmade
        rw [hfailed] at hmade
        cases hmade
      · intro failure' hfailed'
        rw [hfailed] at hfailed'
        cases hfailed'
        exact ⟨hanswer, hnext⟩
    · refine ⟨?_, ?_, ?_⟩
      · rw [hflushed.debouncer]
      · intro text' hmade'
        rw [hmade] at hmade'
        cases hmade'
        refine ⟨hcount ▸ hflushed, fun css hgenerators hgenerate hlt => ?_⟩
        have hasked : ∀ generate, .stylesheet generate ∈ x₀.asked deliver calls →
            generate.Agrees css := by
          intro generate' hmem
          obtain ⟨deed, hdeed, hgenerator⟩ := generator_of_asked deliver hmem
          exact hgenerators deed hdeed generate' hgenerator
        have hfaithful := Session.faithful_after h₀ hasked
        rw [← session_after] at hfaithful
        exact hfaithful.stylesheet_eq_pageOf hlt hgenerate hmade
      · intro failure hfailed
        rw [hmade] at hfailed
        cases hfailed

/-- A flush that fails, one that is called off, a poll that comes too early, and one that comes when
two changes have waited for twice the delay. -/
theorem poll_of_deeds_late :
    let deliver : Unit → Nat → Unit → Traced (Delivery × Unit) := fun _ _ _ => pure (.done, ())
    let broken : Generator := fun _ => .error (.ofText "no css")
    let x₀ : Host Unit Unit := ⟨.ofSession (Session.blank .watch), .new 5, ()⟩
    let deeds : List (Deed Unit) := [.session (.process ⟨⟨"a.ts"⟩, "strata", Session.oneRule⟩),
      .notify, .advance 9, .poll broken, .notify, .advance 3, .cancel, .notify, .advance 4,
      .poll joinedRules, .notify, .advance 10]
    let x := x₀.after deliver (stamped 0 deeds)
    x₀.notes deliver (stamped 0 deeds) = [12, 16] ∧
      Flushed deliver x joinedRules 26 2 ".a\x7b\x7d" (x.perform deliver (.poll joinedRules 26)) ∧
      Session.pageOf "\n\n".intercalate false x.session.store = ".a\x7b\x7d" := by
  intro deliver broken x₀ deeds x
  have hbroken : broken.Agrees "\n\n".intercalate := fun _ _ hok => by cases hok
  have hjoined : Generator.Agrees joinedRules "\n\n".intercalate := by
    intro rules text hok
    cases hok
    rfl
  have hgenerators : ∀ deed ∈ deeds, ∀ generate ∈ deed.generator?,
      generate.Agrees "\n\n".intercalate := by
    simp [deeds, Deed.generator?, hbroken, hjoined]
  have hlt : Session.mutations (x₀.session.history (x₀.asked deliver (stamped 0 deeds))) <
      UInt64.size := by
    decide +kernel
  have hnotes : x₀.notes deliver (stamped 0 deeds) = [12, 16] := by decide +kernel
  have hnew : x₀.debouncer = .new 5 := rfl
  obtain ⟨-, hacts, -, hdone⟩ :=
    poll_of_deeds deliver (Session.starts_blank .watch) hnew 0 deeds joinedRules
  obtain ⟨-, hmade, -⟩ := hdone (hacts.mpr ⟨16, by rw [hnotes]; rfl, by decide⟩)
  obtain ⟨hflushed, htext⟩ := hmade ".a\x7b\x7d" (by decide +kernel)
  have hclock : clock 0 deeds = 26 := rfl
  rw [hnotes, hclock] at hflushed
  have hpage := htext _ hgenerators hjoined hlt
  have hplain : x₀.session.config.annotateSources = false := rfl
  rw [hplain] at hpage
  refine ⟨hnotes, hflushed, ?_⟩
  rw [hpage]

end LayeredCss.Host

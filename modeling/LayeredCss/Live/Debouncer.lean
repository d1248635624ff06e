import LayeredCss.Session

/-!
# Debounced flushes

A change of the rule store arms a timer, and each further change arms it again.  When it has run out
the stylesheet is made once, and the subscribers are told in the order in which they came.  Time is
given from outside, in microseconds.

* `Debouncer.notify`: a change;
* `Debouncer.poll`: the flush, if it is due;
* `Debouncer.subscribe`, `Debouncer.unsubscribe`, `Debouncer.cancel`.
-/

namespace LayeredCss

/-- A flush that is waiting for its time. -/
structure PendingFlush where
  deadline : Nat
  /-- The number of changes that wait for it. -/
  coalesced : Nat
  deriving DecidableEq, Repr

/-- How a subscriber takes the news of a flush. -/
inductive Delivery
  | done
  | failed (failure : Failure)
  /-- The subscriber broke off, and with it the flush. -/
  | crashed (message : String)
  deriving DecidableEq, Repr

/-- How a poll ends. -/
inductive PollResult
  /-- Nothing was due. -/
  | idle
  | flushed (generation : Nat)
  /-- The stylesheet could not be made, and nobody was told. -/
  | failed (failure : Failure)
  /-- A subscriber broke off. -/
  | crashed (message : String)
  deriving DecidableEq, Repr

-- The flushes, the subscribers and the waiting changes are counted one by one, and never set to anything
-- else.  The counts are natural numbers instead of words of 64 bits, which no run lasts long enough to
-- fill.
structure Debouncer (κ : Type) where
  /-- How long a flush waits after the last change. -/
  delay : Nat
  pending : Option PendingFlush
  /-- The subscribers with their numbers, in the order in which they came. -/
  subscribers : List (Nat × κ)
  /-- The number of the next subscriber. -/
  nextSubscriber : Nat
  /-- The number of flushes so far. -/
  flushes : Nat

namespace Debouncer

variable {κ ω : Type}

/-- A debouncer without subscribers. -/
def new (delay : Nat) : Debouncer κ := ⟨delay, none, [], 0, 0⟩

/-- When the pending flush is due. -/
def deadline? (s : Debouncer κ) : Option Nat := s.pending.map (·.deadline)

/-- Whether a flush is pending whose time has come. -/
def isDue (s : Debouncer κ) (now : Nat) : Bool :=
  match s.pending with
  | none => false
  | some flush => flush.deadline ≤ now

theorem isDue_eq_false_iff {s : Debouncer κ} {now : Nat} :
    s.isDue now = false ↔ ∀ deadline, s.deadline? = some deadline → now < deadline := by
  unfold isDue deadline?
  cases s.pending with
  | none => simp
  | some flush => simp

/-- The number of changes that wait for the pending flush. -/
def coalesced (s : Debouncer κ) : Nat := (s.pending.map (·.coalesced)).getD 0

/-- The debouncer after a change at the given time. -/
def arm (s : Debouncer κ) (now : Nat) : Debouncer κ :=
  { s with pending := some ⟨now + s.delay, s.coalesced + 1⟩ }

/-- Records a change, which puts the flush off by the whole delay. -/
def notify (s : Debouncer κ) (now : Nat) : Traced (Debouncer κ) := do
  let count := s.coalesced + 1
  Traced.debug s!"[strata] flush re-armed; {count} mutation(s) pending"
  return s.arm now

/-- Drops the pending flush, and tells whether there was one. -/
def cancel (s : Debouncer κ) : Traced (Bool × Debouncer κ) := do
  if s.pending.isSome then Traced.debug "[strata] pending flush cancelled"
  return (s.pending.isSome, { s with pending := none })

@[simp] theorem value_notify (s : Debouncer κ) (now : Nat) : (s.notify now).value = s.arm now :=
  rfl

@[simp] theorem value_cancel (s : Debouncer κ) :
    s.cancel.value = (s.pending.isSome, { s with pending := none }) := by
  unfold cancel
  split <;> rfl

/-- Adds a subscriber, which comes last, and gives it a number of its own. -/
def subscribe (s : Debouncer κ) (subscriber : κ) : Nat × Debouncer κ :=
  (s.nextSubscriber,
    { s with
      subscribers := s.subscribers ++ [(s.nextSubscriber, subscriber)]
      nextSubscriber := s.nextSubscriber + 1 })

/-- Removes a subscriber, and tells whether it was there. -/
def unsubscribe (s : Debouncer κ) (id : Nat) : Bool × Debouncer κ :=
  (s.subscribers.any (·.1 = id),
    { s with subscribers := s.subscribers.filter (·.1 ≠ id) })

/-- Tells subscribers of a flush, one after the other.  One that fails is logged and the next is
told; one that breaks off ends it all, with its message. -/
def tellAll (deliver : κ → Nat → ω → Traced (Delivery × ω)) (generation : Nat) :
    List (Nat × κ) → ω → Traced (Option String × ω)
  | [], world => return (none, world)
  | (id, subscriber) :: rest, world => do
    match ← deliver subscriber generation world with
    | (.done, world) => tellAll deliver generation rest world
    | (.failed failure, world) =>
      let text := failure.text
      Traced.error s!"[strata] flush subscriber SubscriberId({id}) failed: {text}"
      tellAll deliver generation rest world
    | (.crashed message, world) => return (some message, world)

/-- Makes the stylesheet and tells the subscribers, if the time of the pending flush has come.
Nothing is pending afterwards, also when the stylesheet could not be made. -/
def poll (s : Debouncer κ) (deliver : κ → Nat → ω → Traced (Delivery × ω)) (generate : Generator)
    (now : Nat) (session : Session) (world : ω) :
    Traced (PollResult × Debouncer κ × Session × ω) := do
  if !s.isDue now then return (.idle, s, session, world)
  let count := s.coalesced
  let s := { s with pending := none }
  match ← session.stylesheet generate with
  | (.error failure, session) => return (.failed failure, s, session, world)
  | (.ok css, session) =>
    let generation := s.flushes + 1
    let s := { s with flushes := generation }
    let size := css.utf8ByteSize
    Traced.info s!"[strata] flush #{generation}: {size} bytes from {count} mutation(s)"
    match ← tellAll deliver generation s.subscribers world with
    | (none, world) => return (.flushed generation, s, session, world)
    | (some message, world) => return (.crashed message, s, session, world)

/-- The world after subscribers have been told of a flush. -/
def told (deliver : κ → Nat → ω → Traced (Delivery × ω)) (generation : Nat)
    (subscribers : List (Nat × κ)) (world : ω) : ω :=
  subscribers.foldl (fun world s => (deliver s.2 generation world).value.2) world

variable {deliver : κ → Nat → ω → Traced (Delivery × ω)}

/-- If no subscriber breaks off all are told. -/
theorem value_tellAll
    (hcalm : ∀ subscriber generation world message,
      (deliver subscriber generation world).value.1 ≠ .crashed message)
    (generation : Nat) (subscribers : List (Nat × κ)) (world : ω) :
    (tellAll deliver generation subscribers world).value =
      (none, told deliver generation subscribers world) := by
  induction subscribers generalizing world with
  | nil => rfl
  | cons first rest ih =>
    obtain ⟨id, subscriber⟩ := first
    have hfirst := hcalm subscriber generation world
    simp only [tellAll, told, List.foldl_cons, Traced.value_bind]
    cases hvalue : (deliver subscriber generation world).value with
    | mk delivery next =>
      rw [hvalue] at hfirst
      cases delivery with
      | done => exact ih next
      | failed failure => exact ih next
      | crashed message => exact absurd rfl (hfirst message)

variable {s : Debouncer κ} {generate : Generator} {now : Nat} {session next : Session} {world : ω}

theorem value_poll_of_failed {failure : Failure} (hdue : s.isDue now = true)
    (hsheet : (session.stylesheet generate).value = (.error failure, next)) :
    (s.poll deliver generate now session world).value =
      (.failed failure, { s with pending := none }, next, world) := by
  simp only [poll, hdue, Bool.not_true, Bool.false_eq_true, if_false, Traced.value_bind, hsheet,
    Traced.value_pure]

theorem value_poll_of_made {text : String} (hdue : s.isDue now = true)
    (hcalm : ∀ subscriber generation world message,
      (deliver subscriber generation world).value.1 ≠ .crashed message)
    (hsheet : (session.stylesheet generate).value = (.ok text, next)) :
    (s.poll deliver generate now session world).value =
      (.flushed (s.flushes + 1), { s with pending := none, flushes := s.flushes + 1 }, next,
        told deliver (s.flushes + 1) s.subscribers world) := by
  simp only [poll, hdue, Bool.not_true, Bool.false_eq_true, if_false, Traced.value_bind, hsheet,
    Traced.value_pure, value_tellAll hcalm]

theorem poll_of_not_due (hdue : s.isDue now = false) :
    s.poll deliver generate now session world = pure (.idle, s, session, world) := by
  simp only [poll, hdue, Bool.not_false, if_true]

/-- **What a poll does that is due**, with the notices that it leaves: the stylesheet fails and nothing
else happens, or there is one flush, of all the changes that waited, and the subscribers are told. -/
theorem poll_cases (deliver : κ → Nat → ω → Traced (Delivery × ω)) (generate : Generator)
    (session : Session) (world : ω) (hdue : s.isDue now = true) :
    (∃ failure next, (session.stylesheet generate).value = (.error failure, next) ∧
      s.poll deliver generate now session world =
        ⟨(.failed failure, { s with pending := none }, next, world),
          (session.stylesheet generate).trail⟩) ∨
    ∃ text next result, (session.stylesheet generate).value = (.ok text, next) ∧
      (result = .flushed (s.flushes + 1) ∨ ∃ message, result = .crashed message) ∧
      let generation := s.flushes + 1
      let size := text.utf8ByteSize
      let count := s.coalesced
      let telling := tellAll deliver generation s.subscribers world
      s.poll deliver generate now session world =
        ⟨(result, { s with pending := none, flushes := generation }, next, telling.value.2),
          (session.stylesheet generate).trail ++
            .log .info s!"[strata] flush #{generation}: {size} bytes from {count} mutation(s)" ::
              telling.trail⟩ := by
  rcases hsheet : session.stylesheet generate with ⟨⟨failure | text, next⟩, trail⟩
  · refine Or.inl ⟨failure, next, rfl, ?_⟩
    simp only [poll, hdue, hsheet, Bool.not_true, Bool.false_eq_true, if_false]
    rw [Traced.mk_bind, Traced.trail_pure, List.append_nil]
    rfl
  · rcases htold : tellAll deliver (s.flushes + 1) s.subscribers world with ⟨⟨_ | message, told⟩, trail'⟩
    · refine Or.inr ⟨text, next, .flushed (s.flushes + 1), rfl, Or.inl rfl, ?_⟩
      simp only [poll, hdue, hsheet, htold, Bool.not_true, Bool.false_eq_true, if_false]
      simp only [Traced.mk_bind, Traced.value_bind, Traced.trail_bind, Traced.info, Traced.trail_log,
        Traced.value_pure, Traced.trail_pure, List.append_nil, List.singleton_append]
    · refine Or.inr ⟨text, next, .crashed message, rfl, Or.inr ⟨message, rfl⟩, ?_⟩
      simp only [poll, hdue, hsheet, htold, Bool.not_true, Bool.false_eq_true, if_false]
      simp only [Traced.mk_bind, Traced.value_bind, Traced.trail_bind, Traced.info, Traced.trail_log,
        Traced.value_pure, Traced.trail_pure, List.append_nil, List.singleton_append]

/-- Nothing is pending after a poll that was due, however it ends. -/
theorem pending_poll (hdue : s.isDue now = true) :
    (s.poll deliver generate now session world).value.2.1.pending = none := by
  simp only [poll, hdue, Bool.not_true, Bool.false_eq_true, if_false, Traced.value_bind]
  rcases (session.stylesheet generate).value with ⟨failure | css, next⟩
  · rfl
  · simp only [Traced.value_bind]
    split <;> rfl

end Debouncer

end LayeredCss

import LayeredCss.Live.Hub

/-!
# The flush task

Beside the hooks of a development server runs one task.  It takes what the hooks have told it, in
order, and flushes when the time has come.  Whenever it can do several things, the signal to stop
comes first, then the next command, then the flush.

* `FlushTask.step`: the one thing the task does next;
* `FlushTask.settle`: all that the task can do before time moves on.
-/

namespace LayeredCss

/-- A subscriber of the task: the hub of the server, or a listener from outside. -/
inductive Sink (κ : Type)
  | hub
  | listener (l : κ)
  deriving DecidableEq, Repr

/-- No listener breaks off. -/
def Calm {κ : Type} (tell : κ → Nat → Traced Delivery) : Prop :=
  ∀ l generation message, (tell l generation).value ≠ .crashed message

/-- Tells a subscriber of a flush. -/
def Sink.deliver {κ : Type} (tell : κ → Nat → Traced Delivery) (sink : Sink κ) (generation : Nat)
    (hub : Hub) : Traced (Delivery × Hub) := do
  match sink with
  | .hub => return (.done, ← hub.announce generation)
  | .listener l => return (← tell l generation, hub)

section Sink

variable {κ : Type} {tell : κ → Nat → Traced Delivery}

theorem Sink.value_deliver_hub (generation : Nat) (hub : Hub) :
    (Sink.deliver tell .hub generation hub).value =
      (.done, { hub with channel := hub.channel.send generation }) := by
  simp only [deliver, Traced.value_bind, Traced.value_pure, Hub.value_announce]

/-- Sinks break off only where listeners do. -/
theorem Sink.deliver_calm (hcalm : Calm tell) (sink : Sink κ) (generation : Nat) (hub : Hub)
    (message : String) :
    (Sink.deliver tell sink generation hub).value.1 ≠ .crashed message := by
  cases sink with
  | hub =>
    rw [value_deliver_hub]
    exact Delivery.noConfusion
  | listener l => exact hcalm l generation message

end Sink

/-- What the hooks tell the task. -/
inductive Command (κ : Type)
  /-- The rule store has changed. -/
  | mutation
  | subscribe (listener : κ)
  deriving DecidableEq, Repr

inductive TaskStatus
  | running
  | stopped
  /-- A listener broke off and took the task with it. -/
  | crashed
  deriving DecidableEq, Repr

structure FlushTask (κ : Type) where
  debouncer : Debouncer (Sink κ)
  /-- What the task has yet to take, the oldest first. -/
  commands : List (Command κ)
  /-- Whether the task has been told to stop. -/
  stopping : Bool
  status : TaskStatus

namespace FlushTask

variable {κ : Type}

/-- A task that flushes to the hub of its server. -/
def new (delay : Nat) : FlushTask κ :=
  ⟨((Debouncer.new delay).subscribe .hub).2, [], false, .running⟩

/-- What a task works on: itself, the session and the hub. -/
structure Site (κ : Type) where
  task : FlushTask κ
  session : Session
  hub : Hub

/-- Ends the task; a flush that is pending is dropped. -/
def stop (task : FlushTask κ) : Traced (FlushTask κ) := do
  let (dropped, debouncer) ← task.debouncer.cancel
  if dropped then Traced.info "[strata] dropped pending flush on shutdown"
  return { task with debouncer, commands := [], status := .stopped }

/-- The task once it has stopped. -/
def ended (task : FlushTask κ) : FlushTask κ :=
  { task with
    debouncer := { task.debouncer with pending := none }
    commands := []
    status := .stopped }

/-- What is logged when the task stops. -/
def parting (task : FlushTask κ) : List Notice :=
  if task.debouncer.pending.isSome then
    [.log .debug "[strata] pending flush cancelled",
      .log .info "[strata] dropped pending flush on shutdown"]
  else []

theorem stop_eq (task : FlushTask κ) : task.stop = ⟨task.ended, task.parting⟩ := by
  unfold stop parting Debouncer.cancel
  rcases task.debouncer.pending with _ | flush <;> rfl

/-- Takes one command. -/
def take (task : FlushTask κ) (now : Nat) (command : Command κ) (rest : List (Command κ)) :
    Traced (FlushTask κ) := do
  match command with
  | .mutation =>
    let debouncer ← task.debouncer.notify now
    return { task with debouncer, commands := rest }
  | .subscribe l =>
    let (_, debouncer) := task.debouncer.subscribe (.listener l)
    return { task with debouncer, commands := rest }

/-- Flushes, and logs why if the stylesheet cannot be made. -/
def flush (tell : κ → Nat → Traced Delivery) (generate : Generator) (now : Nat) (site : Site κ) :
    Traced (Site κ) := do
  let (result, debouncer, session, hub) ←
    site.task.debouncer.poll (Sink.deliver tell) generate now site.session site.hub
  let task := { site.task with debouncer }
  match result with
  | .failed failure =>
    let text := failure.text
    Traced.error s!"[strata] flush failed, keeping previous stylesheet: {text}"
    return ⟨task, session, hub⟩
  | .crashed _ => return ⟨{ task with commands := [], status := .crashed }, session, hub⟩
  | _ => return ⟨task, session, hub⟩

section Values

variable {tell : κ → Nat → Traced Delivery} {generate : Generator} {now : Nat} {site : Site κ}
  {next : Session}

theorem value_flush_of_failed {failure : Failure}
    (hdue : site.task.debouncer.isDue now = true)
    (hsheet : (site.session.stylesheet generate).value = (.error failure, next)) :
    (flush tell generate now site).value =
      { site with
        task := { site.task with debouncer := { site.task.debouncer with pending := none } }
        session := next } := by
  simp only [flush, Traced.value_bind, Debouncer.value_poll_of_failed hdue hsheet,
    Traced.value_pure]

theorem value_flush_of_made {text : String} (hdue : site.task.debouncer.isDue now = true)
    (hcalm : Calm tell) (hsheet : (site.session.stylesheet generate).value = (.ok text, next)) :
    (flush tell generate now site).value =
      ⟨{ site.task with
          debouncer := { site.task.debouncer with
            pending := none
            flushes := site.task.debouncer.flushes + 1 } },
        next,
        Debouncer.told (Sink.deliver tell) (site.task.debouncer.flushes + 1)
          site.task.debouncer.subscribers site.hub⟩ := by
  simp only [flush, Traced.value_bind,
    Debouncer.value_poll_of_made hdue (Sink.deliver_calm hcalm) hsheet, Traced.value_pure]

end Values

/-- The next thing that the task does at the given time; `none` if it waits or has ended. -/
def step (tell : κ → Nat → Traced Delivery) (generate : Generator) (now : Nat) (site : Site κ) :
    Traced (Option (Site κ)) := do
  if site.task.status ≠ .running then return none
  if site.task.stopping then return some { site with task := ← site.task.stop }
  match site.task.commands with
  | command :: rest => return some { site with task := ← site.task.take now command rest }
  | [] =>
    if site.task.debouncer.isDue now then return some (← flush tell generate now site)
    else return none

section Steps

variable {tell : κ → Nat → Traced Delivery} {generate : Generator} {now : Nat} {site : Site κ}

theorem step_of_ended (h : site.task.status ≠ .running) :
    step tell generate now site = pure none := by
  simp only [step, h, ne_eq, not_false_eq_true, if_true]

theorem value_step_of_ended (h : site.task.status ≠ .running) :
    (step tell generate now site).value = none := by
  rw [step_of_ended h, Traced.value_pure]

variable (hrunning : site.task.status = .running)
include hrunning

/-- **A task that has been told to stop** stops, and looks neither at its queue nor at the time nor at
what it works on. -/
theorem step_of_stopping (hstopping : site.task.stopping = true) :
    step tell generate now site =
      ⟨some { site with task := site.task.ended }, site.task.parting⟩ := by
  have hstep : step tell generate now site =
      site.task.stop >>= fun task => pure (some { site with task }) := by
    simp only [step, hrunning, hstopping, ne_eq, not_true_eq_false, if_false, if_true]
  rw [hstep, stop_eq]
  change (⟨_, site.task.parting ++ []⟩ : Traced _) = _
  rw [List.append_nil]
  rfl

variable (hstopping : site.task.stopping = false)
include hstopping

theorem value_step_of_command {command : Command κ} {rest : List (Command κ)}
    (h : site.task.commands = command :: rest) :
    (step tell generate now site).value =
      some { site with task := (site.task.take now command rest).value } := by
  simp only [step, hrunning, hstopping, h, ne_eq, not_true_eq_false, if_false,
    Bool.false_eq_true, Traced.value_bind, Traced.value_pure]

theorem value_step_of_due (h : site.task.commands = [])
    (hdue : site.task.debouncer.isDue now = true) :
    (step tell generate now site).value = some (flush tell generate now site).value := by
  simp only [step, hrunning, hstopping, h, hdue, ne_eq, not_true_eq_false, if_false, if_true,
    Bool.false_eq_true, Traced.value_bind, Traced.value_pure]

theorem value_step_of_waiting (h : site.task.commands = [])
    (hdue : site.task.debouncer.isDue now = false) :
    (step tell generate now site).value = none := by
  simp only [step, hrunning, hstopping, h, hdue, ne_eq, not_true_eq_false, if_false,
    Bool.false_eq_true, Traced.value_pure]

end Steps

/-- At most `fuel` steps of the task. -/
def steps (tell : κ → Nat → Traced Delivery) (generate : Generator) (now : Nat) :
    (fuel : Nat) → Site κ → Traced (Site κ)
  | 0, site => return site
  | fuel + 1, site => do
    match ← step tell generate now site with
    | none => return site
    | some site => steps tell generate now fuel site

/-- All that the task can do at the given time: each command, and one flush or the end. -/
def settle (tell : κ → Nat → Traced Delivery) (generate : Generator) (now : Nat) (site : Site κ) :
    Traced (Site κ) :=
  steps tell generate now (site.task.commands.length + 1) site

end FlushTask

end LayeredCss

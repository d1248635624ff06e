import LayeredCss.Live.Endpoint
import LayeredCss.Live.FlushTask

/-!
# The development server

A server wraps the plugin of a watching session.  Its hooks pass changes on to the flush task, which
runs while the server sleeps; the news of a flush reaches the clients of the hub and all listeners.

* `LiveServer.start`: a server with its task;
* `LiveServer.transform`, `LiveServer.removeFile`, `LiveServer.notify`: the hooks;
* `LiveServer.sleep`: time goes by, and the task runs;
* `LiveServer.shutdown`, `LiveServer.drop`: the end of the server, and of its task.
-/

namespace LayeredCss

structure LiveServer (κ : Type) where
  plugin : Plugin
  hub : Hub
  task : FlushTask κ
  /-- The time, in microseconds. -/
  now : Nat
  /-- Whether the server is still held by its host. -/
  held : Bool

namespace LiveServer

variable {κ : Type}

/-- The number of events that the hub keeps for its clients. -/
def notificationCapacity : Nat := 16

/-- Starts a server for a plugin.  There has to be a runtime for the task. -/
def start (plugin : Plugin) (hasRuntime : Bool) : Traced (Except Failure (LiveServer κ)) := do
  let lifecycle := plugin.session.lifecycle
  if lifecycle ≠ .watch then
    let name := lifecycle.name
    return .error (.ofText s!"the dev server needs a watch session, got {name}")
  if !hasRuntime then
    return .error ⟨["the dev server needs a tokio runtime"], .message "no runtime is running"⟩
  let config := plugin.session.config
  let path := config.endpointPath
  let delay := config.debounceMs.toNat
  Traced.info s!"[strata] dev server started; CSS at {path}, {delay}ms debounce"
  return .ok
    { plugin
      hub := .new config.eventName notificationCapacity
      task := .new (delay * 1000)
      now := 0
      held := true }

/-! ## Hooks -/

/-- Tells the task something; a task that has ended does not hear it. -/
def send (s : LiveServer κ) (command : Command κ) : Traced (LiveServer κ) := do
  if s.task.status = .running then
    return { s with task := { s.task with commands := s.task.commands ++ [command] } }
  else
    Traced.warn "[strata] flush task is gone; dropping notification"
    return s

theorem value_send_of_running {s : LiveServer κ} (h : s.task.status = .running)
    (command : Command κ) :
    (s.send command).value =
      { s with task := { s.task with commands := s.task.commands ++ [command] } } := by
  simp only [send, h, if_true, Traced.value_pure]

theorem value_send_of_ended {s : LiveServer κ} (h : s.task.status ≠ .running)
    (command : Command κ) : (s.send command).value = s := by
  simp only [send, h, if_false, Traced.value_bind, Traced.value_pure]

/-- A command only joins the queue, if that. -/
theorem send_fields (s : LiveServer κ) (command : Command κ) :
    (s.send command).value.task.status = s.task.status ∧
      (s.send command).value.task.stopping = s.task.stopping ∧
      (s.send command).value.task.debouncer = s.task.debouncer ∧
      (s.send command).value.hub = s.hub := by
  by_cases h : s.task.status = .running
  · rw [value_send_of_running h]
    exact ⟨rfl, rfl, rfl, rfl⟩
  · rw [value_send_of_ended h]
    exact ⟨rfl, rfl, rfl, rfl⟩

/-- Tells the task of a change. -/
def notify (s : LiveServer κ) : Traced (LiveServer κ) := s.send .mutation

/-- Adds a listener. -/
def subscribe (s : LiveServer κ) (listener : κ) : Traced (LiveServer κ) := s.send (.subscribe listener)

/-- Transforms a module, and tells the task if the stylesheet has changed. -/
def transform (s : LiveServer κ) (transformer : Transform) (moduleId code : String) :
    Traced (Option ModuleSource × LiveServer κ) := do
  let (output, plugin) ← s.plugin.transform transformer moduleId code
  let s := { s with plugin }
  if output.any (·.mutated) then return (output, ← s.notify)
  else return (output, s)

/-- Forgets a module, and tells the task if there was a record of it. -/
def removeFile (s : LiveServer κ) (moduleId : String) : Traced (Bool × LiveServer κ) := do
  let (removed, plugin) := s.plugin.remove moduleId
  let s := { s with plugin }
  if removed then return (true, ← s.notify)
  else return (false, s)

/-! ## Clients of the hub -/

/-- A new client of the hub and its number. -/
def join (s : LiveServer κ) : Nat × LiveServer κ :=
  let (client, hub) := s.hub.join
  (client, { s with hub })

/-- Whether nobody is left who could announce a flush. -/
def hubEnded (s : LiveServer κ) : Bool := !s.held && s.task.status ≠ .running

/-- Takes the next event of a client of the hub. -/
def receive (s : LiveServer κ) (client : Nat) : Received Nat × LiveServer κ :=
  let (received, hub) := s.hub.receive s.hubEnded client
  (received, { s with hub })

/-! ## Time -/

/-- The task does all that it can do now. -/
def settle (s : LiveServer κ) (tell : κ → Nat → Traced Delivery) (generate : Generator) :
    Traced (LiveServer κ) := do
  let site ← FlushTask.settle tell generate s.now ⟨s.task, s.plugin.session, s.hub⟩
  return { s with
    task := site.task
    plugin := { s.plugin with session := site.session }
    hub := site.hub }

/-- Lets time go by.  What the task has been told it takes at once; a flush that becomes due on the
way happens at its time. -/
def sleep (s : LiveServer κ) (tell : κ → Nat → Traced Delivery) (generate : Generator)
    (duration : Nat) : Traced (LiveServer κ) := do
  let wake := s.now + duration
  let s ← s.settle tell generate
  let s ← match s.task.debouncer.deadline? with
    | none => pure s
    | some deadline =>
      if s.task.status = .running ∧ deadline ≤ wake then
        settle { s with now := deadline } tell generate
      else pure s
  return { s with now := wake }

/-! ## The end -/

/-- Gives the server up; its task stops when it runs next. -/
def drop (s : LiveServer κ) : LiveServer κ :=
  { s with held := false, task := { s.task with stopping := true } }

/-- Ends the server and waits for its task.  This fails if the task has crashed. -/
def shutdown (s : LiveServer κ) (tell : κ → Nat → Traced Delivery) (generate : Generator) :
    Traced (Except Failure Unit × LiveServer κ) := do
  if s.task.status ≠ .running then Traced.debug "[strata] flush task already stopped"
  let s ← s.drop.settle tell generate
  match s.task.status with
  | .crashed => return (.error ⟨["flush task failed"], .message "a listener crashed"⟩, s)
  | _ =>
    Traced.info "[strata] dev server stopped"
    return (.ok (), s)

end LiveServer

end LayeredCss

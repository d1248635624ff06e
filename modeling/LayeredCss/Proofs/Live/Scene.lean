import Mathlib.Logic.Function.Basic
import Mathlib.Logic.Relation
import LayeredCss.Live.Server
import LayeredCss.Proofs.Live.Receivers
import LayeredCss.Proofs.Plugin.Calls

/-!
# A development server among its users

Hooks, the flush task and the clients of the hub run beside each other.  A scene is a server with
what they have in hand, and a step is what one of them does while it holds the plugin, the queue of
commands or the buffer of the hub, so that nobody else comes between.  In particular a hook changes
the plugin in one step and tells the task in another, and a client hears of a flush in one step and
fetches the stylesheet in another; between the two anything may happen.  The server is neither dropped
nor shut down.

Three fields of a scene are history, which no step reads: the revision that was flushed last, whether
the last flush failed, and what the session has been called for.

* `Scene.Step`: what can happen next;
* `flush_cases`: what a flush does;
* `accounted_of_reachable`: the session is the one after the calls that it has had.
-/

namespace LayeredCss

/-- A client of the hub. -/
inductive Client
  /-- It has joined, or has heard of a flush, and has yet to fetch the stylesheet. -/
  | behind
  /-- It shows what it has fetched, and has heard nothing since. -/
  | showing (body : String)
  deriving DecidableEq, Repr

structure Scene (κ : Type) where
  server : LiveServer κ
  /-- The number of hooks that have changed the rule store and have yet to tell the task. -/
  unsent : Nat
  /-- The clients, under their numbers at the hub. -/
  clients : Nat → Option Client
  /-- The revision of the store at the last flush that succeeded; before the first, at the start. -/
  flushed : UInt64
  /-- Whether the last flush failed and the task has taken no change since. -/
  failing : Bool
  calls : List Session.Call

/-- The server that is started for the plugin of a watching session. -/
def LiveServer.started {κ : Type} (p : Plugin) : LiveServer κ where
  plugin := p
  hub := .new p.session.config.eventName notificationCapacity
  task := .new (p.session.config.debounceMs.toNat * 1000)
  now := 0
  held := true

theorem LiveServer.value_start {κ : Type} {p : Plugin} (h : p.session.lifecycle = .watch) :
    (start p true : Traced (Except Failure (LiveServer κ))).value = .ok (started p) := by
  simp only [start, h, ne_eq, not_true_eq_false, if_false, Bool.not_true, Bool.false_eq_true,
    Traced.value_bind, Traced.value_pure]
  rfl

theorem LiveServer.eq_started {κ : Type} {p : Plugin} {server : LiveServer κ}
    (h : (start p true).value = .ok server) : server = started p := by
  by_cases hwatch : p.session.lifecycle = .watch
  · rw [value_start hwatch] at h
    cases h
    rfl
  · simp only [start, hwatch, ne_eq, not_false_eq_true, if_true, Traced.value_pure,
      reduceCtorEq] at h

/-- The server after something has been done to its session. -/
def LiveServer.withSession {κ : Type} (s : LiveServer κ) (session : Session) : LiveServer κ :=
  { s with plugin := { s.plugin with session } }

namespace Scene

variable {κ : Type}

/-- A server that has just started. -/
def opening (server : LiveServer κ) : Scene κ :=
  ⟨server, 0, fun _ => none, server.plugin.session.store.revision, false, []⟩

abbrev session (x : Scene κ) : Session := x.server.plugin.session

abbrev channel (x : Scene κ) : Broadcast Nat := x.server.hub.channel

abbrev debouncer (x : Scene κ) : Debouncer (Sink κ) := x.server.task.debouncer

/-! ## Hooks -/

/-- A hook works on the plugin. -/
def hook (x : Scene κ) (transformer : Transform) (call : ModuleCall) : Scene κ :=
  let (answer, plugin) := x.server.plugin.answer transformer call
  { x with
    server := { x.server with plugin }
    unsent := if answer.mutated then x.unsent + 1 else x.unsent
    calls := x.calls ++ [call.onSession transformer] }

/-- Somebody tells the task something. -/
def send (x : Scene κ) (command : Command κ) : Scene κ :=
  { x with server := (x.server.send command).value }

/-- A hook that has changed the rule store tells the task. -/
def report (x : Scene κ) : Scene κ := { x.send .mutation with unsent := x.unsent - 1 }

/-! ## The task -/

/-- The task takes a command. -/
def take (x : Scene κ) (command : Command κ) (rest : List (Command κ)) : Scene κ :=
  { x with
    server := { x.server with task := (x.server.task.take x.server.now command rest).value }
    failing := match command with
      | .mutation => false
      | .subscribe _ => x.failing }

/-- The task flushes. -/
def flush (x : Scene κ) (tell : κ → Nat → Traced Delivery) (generate : Generator) : Scene κ :=
  let result := (x.debouncer.poll (Sink.deliver tell) generate x.server.now x.session
    x.server.hub).value.1
  let site := (FlushTask.flush tell generate x.server.now
    ⟨x.server.task, x.session, x.server.hub⟩).value
  { x with
    server := { x.server.withSession site.session with task := site.task, hub := site.hub }
    flushed := match result with
      | .flushed _ => site.session.store.revision
      | _ => x.flushed
    failing := match result with
      | .flushed _ => false
      | .failed _ => true
      | _ => x.failing
    calls := x.calls ++ [.stylesheet generate] }

/-- Time goes by. -/
def wait (x : Scene κ) (duration : Nat) : Scene κ :=
  { x with server := { x.server with now := x.server.now + duration } }

/-! ## Clients -/

/-- Sets what is known of a client. -/
def setClient (x : Scene κ) (i : Nat) (client : Option Client) : Scene κ :=
  { x with clients := Function.update x.clients i client }

theorem clients_setClient (x : Scene κ) (i : Nat) (client : Option Client) (j : Nat) :
    (x.setClient i client).clients j = if j = i then client else x.clients j :=
  Function.update_apply ..

/-- A new client joins the hub. -/
def join (x : Scene κ) : Scene κ :=
  let (i, server) := x.server.join
  setClient { x with server } i (some .behind)

/-- A client looks for news. -/
def receive (x : Scene κ) (i : Nat) : Scene κ :=
  let (received, server) := x.server.receive i
  match received with
  | .event _ | .lagged _ => setClient { x with server } i (some .behind)
  | .empty | .closed => { x with server }

/-- Somebody has the stylesheet made. -/
def serve (x : Scene κ) (generate : Generator) : Scene κ :=
  { x with
    server := x.server.withSession (x.session.stylesheet generate).value.2
    calls := x.calls ++ [.stylesheet generate] }

/-- A client fetches the stylesheet. -/
def fetch (x : Scene κ) (generate : Generator) (i : Nat) : Scene κ :=
  let (response, session) := (Endpoint.fetch x.session generate).value
  setClient
    { x with
      server := x.server.withSession session
      calls := x.calls ++ [.stylesheet generate] }
    i (some (.showing response.body))

/-- A client leaves the hub. -/
def leave (x : Scene κ) (i : Nat) : Scene κ :=
  setClient { x with server := { x.server with hub := x.server.hub.leave i } } i none

/-- **What can happen next**, with listeners that answer `tell` and generators of the kind `G`. -/
inductive Step (tell : κ → Nat → Traced Delivery) (G : Generator → Prop) :
    Scene κ → Scene κ → Prop
  | hook (x : Scene κ) (transformer : Transform) (call : ModuleCall) :
    Step tell G x (x.hook transformer call)
  | report (x : Scene κ) (h : 0 < x.unsent) : Step tell G x x.report
  /-- A listener is added, or somebody from outside tells the task of a change. -/
  | send (x : Scene κ) (command : Command κ) : Step tell G x (x.send command)
  | take (x : Scene κ) (command : Command κ) (rest : List (Command κ))
    (h : x.server.task.commands = command :: rest) : Step tell G x (x.take command rest)
  /-- A flush that is due need not wait for the commands in the queue. -/
  | flush (x : Scene κ) (generate : Generator) (h : x.debouncer.isDue x.server.now = true)
    (hG : G generate) : Step tell G x (x.flush tell generate)
  | wait (x : Scene κ) (duration : Nat) : Step tell G x (x.wait duration)
  | serve (x : Scene κ) (generate : Generator) (hG : G generate) : Step tell G x (x.serve generate)
  | join (x : Scene κ) : Step tell G x x.join
  | receive (x : Scene κ) (i : Nat) (c : Client) (h : x.clients i = some c) :
    Step tell G x (x.receive i)
  | fetch (x : Scene κ) (generate : Generator) (i : Nat) (c : Client) (h : x.clients i = some c)
    (hG : G generate) : Step tell G x (x.fetch generate i)
  | leave (x : Scene κ) (i : Nat) (c : Client) (h : x.clients i = some c) :
    Step tell G x (x.leave i)

abbrev Steps (tell : κ → Nat → Traced Delivery) (G : Generator → Prop) :
    Scene κ → Scene κ → Prop :=
  Relation.ReflTransGen (Step tell G)

/-- The scenes of a server that was started for a plugin. -/
def Reachable (tell : κ → Nat → Traced Delivery) (G : Generator → Prop) (p : Plugin)
    (x : Scene κ) : Prop :=
  ∃ server, (LiveServer.start p true).value = .ok server ∧ Steps tell G (opening server) x

variable {tell : κ → Nat → Traced Delivery} {G : Generator → Prop} {p : Plugin} {x y : Scene κ}

/-- **What holds at the start and is kept by each step** holds of all scenes. -/
theorem Reachable.induct {I : Scene κ → Prop} (hx : Reachable tell G p x)
    (start : I (opening (.started p)))
    (step : ∀ x y, Reachable tell G p x → I x → Step tell G x y → I y) : I x := by
  obtain ⟨server, hserver, hsteps⟩ := hx
  induction hsteps with
  | refl => exact LiveServer.eq_started hserver ▸ start
  | tail hsteps h ih => exact step _ _ ⟨server, hserver, hsteps⟩ ih h

/-! ## What steps do -/

/-- **What a hook does**: it leaves the store as it is, or is one more that has to tell the task. -/
theorem hook_cases (x : Scene κ) (transformer : Transform) (call : ModuleCall) :
    ∃ next, next = (x.session.perform (call.onSession transformer)).2 ∧
      next.sheets = x.session.sheets ∧
      ((next.store = x.session.store ∧
        x.hook transformer call =
          { x with
            server := x.server.withSession next
            calls := x.calls ++ [call.onSession transformer] }) ∨
      x.hook transformer call =
        { x with
          server := x.server.withSession next
          unsent := x.unsent + 1
          calls := x.calls ++ [call.onSession transformer] }) := by
  have hplugin := Plugin.session_answer transformer x.server.plugin call
  have hsheets := Plugin.sheets_answer transformer x.server.plugin call
  have hstore : (x.server.plugin.answer transformer call).1.mutated = false → _ :=
    Plugin.store_of_not_mutated
  refine ⟨_, rfl, ?_⟩
  rcases hvalue : x.server.plugin.answer transformer call with ⟨answer, plugin⟩
  rw [hvalue] at hplugin hsheets hstore
  simp only at hplugin hsheets hstore
  subst hplugin
  refine ⟨hsheets, ?_⟩
  cases hmutated : answer.mutated with
  | false =>
    refine Or.inl ⟨hstore hmutated, ?_⟩
    simp only [hook, hvalue, hmutated, Bool.false_eq_true, if_false]
    rfl
  | true =>
    refine Or.inr ?_
    simp only [hook, hvalue, hmutated, if_true]
    rfl

/-- A client that looks for news finds some, or nothing changes but the buffer. -/
theorem receive_eq (x : Scene κ) (i : Nat) :
    x.receive i =
      if (x.server.receive i).1 = .empty ∨ (x.server.receive i).1 = .closed then
        { x with server := (x.server.receive i).2 }
      else setClient { x with server := (x.server.receive i).2 } i (some .behind) := by
  unfold receive
  rcases x.server.receive i with ⟨_ | _ | _ | _, server⟩ <;> simp

/-- A client that fetches has the stylesheet made. -/
theorem fetch_eq (x : Scene κ) (generate : Generator) (i : Nat) :
    x.fetch generate i = setClient (x.serve generate) i
      (some (.showing (Endpoint.fetch x.session generate).value.1.body)) := by
  simp only [fetch, serve, ← Endpoint.session_fetch]

theorem session_send (x : Scene κ) (command : Command κ) :
    (x.send command).session = x.session := by
  unfold send LiveServer.send
  simp only
  split <;> rfl

theorem send_of_running (h : x.server.task.status = .running) (command : Command κ) :
    x.send command =
      { x with server := { x.server with task := { x.server.task with
        commands := x.server.task.commands ++ [command] } } } := by
  rw [send, LiveServer.value_send_of_running h]

/-- **What a flush does**: it makes the stylesheet and tells all subscribers, or the stylesheet cannot
be made and nobody hears of it.  Nothing is pending afterwards. -/
theorem flush_cases (hcalm : Calm tell) (hdue : x.debouncer.isDue x.server.now = true)
    (generate : Generator) :
    (∃ failure next, (x.session.stylesheet generate).value = (.error failure, next) ∧
      x.flush tell generate =
        { x with
          server := { x.server.withSession next with
            task := { x.server.task with debouncer := { x.debouncer with pending := none } } }
          failing := true
          calls := x.calls ++ [.stylesheet generate] }) ∨
    (∃ text next, (x.session.stylesheet generate).value = (.ok text, next) ∧
      x.flush tell generate =
        { x with
          server := { x.server.withSession next with
            task := { x.server.task with
              debouncer := { x.debouncer with
                pending := none
                flushes := x.debouncer.flushes + 1 } }
            hub := x.server.hub.told tell (x.debouncer.flushes + 1) x.debouncer.subscribers }
          flushed := next.store.revision
          failing := false
          calls := x.calls ++ [.stylesheet generate] }) := by
  have hcalm' := Sink.deliver_calm hcalm
  rcases hsheet : (x.session.stylesheet generate).value with ⟨failure | text, next⟩
  · refine Or.inl ⟨failure, next, rfl, ?_⟩
    have hflush : (FlushTask.flush tell generate x.server.now
        ⟨x.server.task, x.session, x.server.hub⟩).value = _ :=
      FlushTask.value_flush_of_failed hdue hsheet
    simp only [flush, Debouncer.value_poll_of_failed hdue hsheet, hflush]
    rfl
  · refine Or.inr ⟨text, next, rfl, ?_⟩
    have hflush : (FlushTask.flush tell generate x.server.now
        ⟨x.server.task, x.session, x.server.hub⟩).value = _ :=
      FlushTask.value_flush_of_made hdue hcalm hsheet
    simp only [flush, Debouncer.value_poll_of_made hdue hcalm' hsheet, hflush]

/-- The task goes on. -/
theorem running_of_reachable (hcalm : Calm tell) (hx : Reachable tell G p x) :
    x.server.task.status = .running := by
  refine hx.induct (I := fun x => x.server.task.status = .running) rfl fun x y _ hx h => ?_
  rcases h with ⟨transformer, call⟩ | - | command | ⟨command, rest, -⟩ | ⟨generate, hdue, -⟩ |
    duration | generate | _ | ⟨i, c, -⟩ | ⟨generate, i, c, -, -⟩ | ⟨i, c, -⟩
  · exact hx
  · rw [report, send_of_running hx]
    exact hx
  · rw [send_of_running hx]
    exact hx
  · cases command <;> exact hx
  · rcases flush_cases hcalm hdue generate with ⟨_, _, -, hflush⟩ | ⟨_, _, -, hflush⟩ <;>
      rw [hflush] <;> exact hx
  · exact hx
  · exact hx
  · exact hx
  · rw [receive_eq]
    split <;> exact hx
  · exact hx
  · exact hx

/-! ## The calls of the session -/

/-- The session is the one after the calls that it has had, with generators of the kind `G`. -/
structure Accounted (G : Generator → Prop) (p : Plugin) (x : Scene κ) : Prop where
  session : x.session = p.session.after x.calls
  generators : ∀ generate, .stylesheet generate ∈ x.calls → G generate

theorem Accounted.idle (hx : x.Accounted G p) (hsession : y.session = x.session)
    (hcalls : y.calls = x.calls) : y.Accounted G p :=
  ⟨by rw [hsession, hcalls]; exact hx.session, hcalls ▸ hx.generators⟩

theorem Accounted.call (hx : x.Accounted G p) {call : Session.Call}
    (hsession : y.session = (x.session.perform call).2) (hcalls : y.calls = x.calls ++ [call])
    (hG : ∀ generate, call = .stylesheet generate → G generate) : y.Accounted G p := by
  refine ⟨?_, fun generate hmem => ?_⟩
  · rw [hsession, hcalls, Session.after_append, ← hx.session]
    rfl
  · rw [hcalls, List.mem_append, List.mem_singleton] at hmem
    exact hmem.elim (hx.generators generate) fun heq => hG generate heq.symm

theorem Accounted.step (hcalm : Calm tell) (hx : x.Accounted G p) (h : Step tell G x y) :
    y.Accounted G p := by
  have hone : ∀ generate, G generate →
      ∀ other, Session.Call.stylesheet generate = .stylesheet other → G other :=
    fun generate hgenerate other heq => by cases heq; exact hgenerate
  rcases h with ⟨transformer, call⟩ | - | command | ⟨command, rest, -⟩ |
    ⟨generate, hdue, hgenerate⟩ | duration | ⟨generate, hgenerate⟩ | _ | ⟨i, c, -⟩ |
    ⟨generate, i, c, -, hgenerate⟩ | ⟨i, c, -⟩
  · have hnone : ∀ generate, call.onSession transformer = .stylesheet generate → G generate :=
      fun generate heq => by cases call <;> cases heq
    obtain ⟨next, hnext, -, ⟨-, hhook⟩ | hhook⟩ := x.hook_cases transformer call <;> rw [hhook]
    · exact hx.call hnext rfl hnone
    · exact hx.call hnext rfl hnone
  · exact hx.idle (session_send x .mutation) rfl
  · exact hx.idle (session_send x command) rfl
  · exact hx.idle rfl rfl
  · have hvalue : (x.session.perform (.stylesheet generate)).2 =
        (x.session.stylesheet generate).value.2 := rfl
    rcases flush_cases hcalm hdue generate with
      ⟨failure, next, hsheet, hflush⟩ | ⟨text, next, hsheet, hflush⟩ <;>
      rw [hflush] <;> rw [hsheet] at hvalue
    · exact hx.call hvalue.symm rfl (hone generate hgenerate)
    · exact hx.call hvalue.symm rfl (hone generate hgenerate)
  · exact hx.idle rfl rfl
  · exact hx.call rfl rfl (hone generate hgenerate)
  · exact hx.idle rfl rfl
  · rw [receive_eq]
    split <;> exact hx.idle rfl rfl
  · rw [fetch_eq]
    exact hx.call rfl rfl (hone generate hgenerate)
  · exact hx.idle rfl rfl

/-- **The session of a scene is the one after the calls that it has had.** -/
theorem accounted_of_reachable (hcalm : Calm tell) (hx : Reachable tell G p x) : x.Accounted G p :=
  hx.induct ⟨rfl, fun _ hmem => absurd hmem List.not_mem_nil⟩ fun _ _ _ hx h => hx.step hcalm h

end Scene

end LayeredCss

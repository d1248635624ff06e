import LayeredCss.Proofs.Live.Scene

/-!
# A server that does one thing after the other

Where nothing runs beside them, the hooks of a server do their two steps in a row, and the task does
all that it can do whenever time stops.  These are runs like any other, so what holds of all scenes
holds of a server that is used in this way.

* `value_transform`, `value_removeFile`, `steps_hook`: a hook as two steps;
* `step_settle`, `lt_deadline_of_settle`: the task stops only when nothing is left to do, and what it
  has pending then is still to come;
* `steps_settle`, `steps_sleep`: the task as steps.
-/

namespace LayeredCss

variable {κ : Type} {tell : κ → Nat → Traced Delivery} {G : Generator → Prop}
  {generate : Generator}

namespace FlushTask

variable {now : Nat} {site next : Site κ}

/-- **What the task does next**, unless it has been told to stop. -/
theorem step_cases (site : Site κ) (tell : κ → Nat → Traced Delivery) (generate : Generator)
    (now : Nat) (hstopping : site.task.stopping = false) :
    (∃ command rest, site.task.commands = command :: rest ∧
      (step tell generate now site).value =
        some { site with task := (site.task.take now command rest).value }) ∨
    (site.task.commands = [] ∧ site.task.debouncer.isDue now = true ∧
      (step tell generate now site).value = some (flush tell generate now site).value) ∨
    (step tell generate now site).value = none ∧ (site.task.status = .running →
      site.task.commands = [] ∧ site.task.debouncer.isDue now = false) := by
  by_cases hrunning : site.task.status = .running
  · rcases hcommands : site.task.commands with _ | ⟨command, rest⟩
    · rcases hdue : site.task.debouncer.isDue now with _ | _
      · exact Or.inr (Or.inr ⟨value_step_of_waiting hrunning hstopping hcommands hdue,
          fun _ => ⟨rfl, rfl⟩⟩)
      · exact Or.inr (Or.inl ⟨rfl, rfl, value_step_of_due hrunning hstopping hcommands hdue⟩)
    · exact Or.inl ⟨command, rest, rfl, value_step_of_command hrunning hstopping hcommands⟩
  · exact Or.inr (Or.inr ⟨value_step_of_ended hrunning, fun h => absurd h hrunning⟩)

/-- Taking a command leaves the rest of the queue, and does not stop the task. -/
theorem take_fields (task : FlushTask κ) (now : Nat) (command : Command κ)
    (rest : List (Command κ)) :
    (task.take now command rest).value.commands = rest ∧
      (task.take now command rest).value.stopping = task.stopping := by
  cases command <;> exact ⟨rfl, rfl⟩

/-- **After a flush nothing is pending**, and the task goes on unless a listener broke off. -/
theorem flush_fields (tell : κ → Nat → Traced Delivery) (generate : Generator)
    (hdue : site.task.debouncer.isDue now = true) :
    (flush tell generate now site).value.task.stopping = site.task.stopping ∧
      (flush tell generate now site).value.task.debouncer.pending = none ∧
      ((flush tell generate now site).value.task.status = .running →
        (flush tell generate now site).value.task.commands = site.task.commands) := by
  have hpending : (site.task.debouncer.poll (Sink.deliver tell) generate now site.session
    site.hub).value.2.1.pending = none := Debouncer.pending_poll hdue
  unfold flush
  rw [Traced.value_bind]
  rcases hvalue : (site.task.debouncer.poll (Sink.deliver tell) generate now site.session
    site.hub).value with ⟨_ | _ | _ | _, debouncer, session, hub⟩ <;> rw [hvalue] at hpending
  · exact ⟨rfl, hpending, fun _ => rfl⟩
  · exact ⟨rfl, hpending, fun _ => rfl⟩
  · exact ⟨rfl, hpending, fun _ => rfl⟩
  · exact ⟨rfl, hpending, fun h => by cases h⟩

theorem value_steps_of_some {fuel : Nat} (h : (step tell generate now site).value = some next) :
    (steps tell generate now (fuel + 1) site).value = (steps tell generate now fuel next).value := by
  simp only [steps, Traced.value_bind, h]

theorem value_steps_of_none {fuel : Nat} (h : (step tell generate now site).value = none) :
    (steps tell generate now fuel site).value = site := by
  cases fuel with
  | zero => rfl
  | succ fuel => simp only [steps, Traced.value_bind, h, Traced.value_pure]

/-- A task that has been told to stop does so before time moves on. -/
theorem value_settle_of_stopping (hrunning : site.task.status = .running)
    (hstopping : site.task.stopping = true) :
    (settle tell generate now site).value = { site with task := site.task.ended } := by
  have hstep : (step tell generate now site).value = some { site with task := site.task.ended } := by
    rw [step_of_stopping hrunning hstopping]
  unfold settle
  rw [value_steps_of_some hstep]
  exact value_steps_of_none (value_step_of_ended TaskStatus.noConfusion)

theorem step_settle_of_going_on (site : Site κ) (hstopping : site.task.stopping = false) :
    (step tell generate now (settle tell generate now site).value).value = none := by
  unfold settle
  generalize hcommands : site.task.commands = commands
  induction commands generalizing site with
  | nil =>
    rcases step_cases site tell generate now hstopping with
      ⟨command, rest, hsome, -⟩ | ⟨-, hdue, hstep⟩ | ⟨hstep, -⟩
    · rw [hcommands] at hsome
      cases hsome
    · rw [value_steps_of_some hstep]
      show (step tell generate now (flush tell generate now site).value).value = none
      obtain ⟨hstop, hpending, hrest⟩ := flush_fields tell generate hdue
      rw [hcommands] at hrest
      by_cases hrunning : (flush tell generate now site).value.task.status = .running
      · refine value_step_of_waiting hrunning (hstop.trans hstopping) (hrest hrunning) ?_
        rw [Debouncer.isDue, hpending]
      · exact value_step_of_ended hrunning
    · rw [value_steps_of_none hstep]
      exact hstep
  | cons command rest ih =>
    rcases step_cases site tell generate now hstopping with
      ⟨command', rest', hsome, hstep⟩ | ⟨hnone, -⟩ | ⟨hstep, -⟩
    · rw [hcommands] at hsome
      cases hsome
      obtain ⟨hrest, hstop⟩ := take_fields site.task now command rest
      rw [value_steps_of_some hstep]
      exact ih _ (hstop.trans hstopping) hrest
    · rw [hcommands] at hnone
      cases hnone
    · rw [value_steps_of_none hstep]
      exact hstep

/-- **The task stops only when nothing is left to do.** -/
theorem step_settle (site : Site κ) :
    (step tell generate now (settle tell generate now site).value).value = none := by
  cases hstopping : site.task.stopping with
  | false => exact step_settle_of_going_on site hstopping
  | true =>
    by_cases hrunning : site.task.status = .running
    · rw [value_settle_of_stopping hrunning hstopping]
      exact value_step_of_ended TaskStatus.noConfusion
    · have hnone : (step tell generate now site).value = none := value_step_of_ended hrunning
      unfold settle
      rw [value_steps_of_none hnone]
      exact hnone

/-- A flush that is pending when nothing is left to do is still to come. -/
theorem lt_deadline_of_settle (hrunning : (settle tell generate now site).value.task.status = .running)
    {deadline : Nat}
    (h : (settle tell generate now site).value.task.debouncer.deadline? = some deadline) :
    now < deadline := by
  have hnone : (step tell generate now (settle tell generate now site).value).value = none :=
    step_settle site
  generalize (settle tell generate now site).value = settled at hrunning h hnone
  cases hstopping : settled.task.stopping with
  | true =>
    rw [step_of_stopping hrunning hstopping] at hnone
    cases hnone
  | false =>
    rcases step_cases settled tell generate now hstopping with
      ⟨command, rest, -, hsome⟩ | ⟨-, -, hsome⟩ | ⟨-, hidle⟩
    · rw [hsome] at hnone
      cases hnone
    · rw [hsome] at hnone
      cases hnone
    · exact Debouncer.isDue_eq_false_iff.mp (hidle hrunning).2 deadline h

end FlushTask

namespace LiveServer

/-- What the task works on. -/
def site (s : LiveServer κ) : FlushTask.Site κ := ⟨s.task, s.plugin.session, s.hub⟩

/-- The server after its task has worked. -/
def withSite (s : LiveServer κ) (site : FlushTask.Site κ) : LiveServer κ :=
  { s.withSession site.session with task := site.task, hub := site.hub }

theorem value_settle (s : LiveServer κ) (tell : κ → Nat → Traced Delivery) (generate : Generator) :
    (s.settle tell generate).value =
      s.withSite (FlushTask.settle tell generate s.now s.site).value := rfl

/-- The server after a hook that nobody interrupts. -/
def hooked (s : LiveServer κ) (transformer : Transform) (call : ModuleCall) : LiveServer κ :=
  let (answer, plugin) := s.plugin.answer transformer call
  if answer.mutated then ({ s with plugin }.send .mutation).value else { s with plugin }

/-- The hooks of a server tell the task of exactly the answers that the plugin has marked. -/
theorem value_transform (s : LiveServer κ) (transformer : Transform) (moduleId code : String) :
    (s.transform transformer moduleId code).value.2 =
      s.hooked transformer (.transform moduleId code) := by
  rcases hvalue : (s.plugin.transform transformer moduleId code).value with ⟨output, plugin⟩
  simp only [transform, hooked, Plugin.answer, ModuleAnswer.mutated, notify, Traced.value_bind,
    hvalue]
  split <;> rfl

theorem value_removeFile (s : LiveServer κ) (transformer : Transform) (moduleId : String) :
    (s.removeFile moduleId).value.2 = s.hooked transformer (.remove moduleId) := by
  rcases hvalue : s.plugin.remove moduleId with ⟨removed, plugin⟩
  simp only [removeFile, hooked, Plugin.answer, ModuleAnswer.mutated, notify, hvalue]
  split <;> rfl

end LiveServer

namespace Scene

variable {x : Scene κ}

/-- **A hook that nobody interrupts** is two steps, and leaves nothing to tell. -/
theorem steps_hook (x : Scene κ) (transformer : Transform) (call : ModuleCall) :
    ∃ y, Steps tell G x y ∧ y.unsent = x.unsent ∧ y.clients = x.clients ∧
      y.server = x.server.hooked transformer call := by
  rcases hvalue : x.server.plugin.answer transformer call with ⟨answer, plugin⟩
  have hfirst : Step tell G x (x.hook transformer call) := .hook x transformer call
  simp only [hook, LiveServer.hooked, hvalue] at hfirst ⊢
  cases hmutated : answer.mutated with
  | false =>
    simp only [hmutated, Bool.false_eq_true, if_false] at hfirst ⊢
    exact ⟨_, .single hfirst, rfl, rfl, rfl⟩
  | true =>
    simp only [hmutated, if_true] at hfirst ⊢
    exact ⟨_, .tail (.single hfirst) (.report _ (Nat.succ_pos _)), rfl, rfl, rfl⟩

/-- **The task does steps**, as many as it may. -/
theorem steps_steps (tell : κ → Nat → Traced Delivery) (hG : G generate) (fuel : Nat)
    (hstopping : x.server.task.stopping = false) :
    ∃ y, Steps tell G x y ∧ y.unsent = x.unsent ∧ y.clients = x.clients ∧
      y.server.task.stopping = false ∧ y.server = x.server.withSite
        (FlushTask.steps tell generate x.server.now fuel x.server.site).value := by
  induction fuel generalizing x with
  | zero => exact ⟨x, .refl, rfl, rfl, hstopping, rfl⟩
  | succ fuel ih =>
    rcases FlushTask.step_cases x.server.site tell generate x.server.now hstopping with
      ⟨command, rest, hcommands, hstep⟩ | ⟨-, hdue, hstep⟩ | ⟨hstep, -⟩
    · have hstop := (FlushTask.take_fields x.server.task x.server.now command rest).2
      obtain ⟨y, hsteps, hunsent, hclients, hy, hserver⟩ :=
        ih (x := x.take command rest) (hstop.trans hstopping)
      rw [FlushTask.value_steps_of_some hstep]
      exact ⟨y, .head (.take x command rest hcommands) hsteps, hunsent, hclients, hy, hserver⟩
    · have hstop := (FlushTask.flush_fields tell generate hdue).1
      obtain ⟨y, hsteps, hunsent, hclients, hy, hserver⟩ :=
        ih (x := x.flush tell generate) (hstop.trans hstopping)
      rw [FlushTask.value_steps_of_some hstep]
      exact ⟨y, .head (.flush x generate hdue hG) hsteps, hunsent, hclients, hy, hserver⟩
    · rw [FlushTask.value_steps_of_none hstep]
      exact ⟨x, .refl, rfl, rfl, hstopping, rfl⟩

/-- A server whose task settles does steps. -/
theorem steps_settle (tell : κ → Nat → Traced Delivery) (hG : G generate)
    (hstopping : x.server.task.stopping = false) :
    ∃ y, Steps tell G x y ∧ y.unsent = x.unsent ∧ y.clients = x.clients ∧
      y.server.task.stopping = false ∧ y.server = (x.server.settle tell generate).value := by
  rw [LiveServer.value_settle]
  exact steps_steps tell hG _ hstopping

/-- **A server that sleeps does steps**: what can be done at once, the flush when its time comes, and
waiting. -/
theorem steps_sleep (hG : G generate) (hstopping : x.server.task.stopping = false)
    (duration : Nat) :
    ∃ y, Steps tell G x y ∧ y.unsent = x.unsent ∧ y.clients = x.clients ∧
      y.server = (x.server.sleep tell generate duration).value := by
  obtain ⟨y, hy, hunsent, hclients, hstop, hserver⟩ := steps_settle tell hG hstopping
  have hnow : y.server.now = x.server.now := by
    rw [hserver]
    rfl
  unfold LiveServer.sleep
  simp only [Traced.value_bind, ← hserver]
  rcases hdeadline : y.server.task.debouncer.deadline? with _ | deadline
  · refine ⟨y.wait duration, .tail hy (.wait y duration), hunsent, hclients, ?_⟩
    simp only [wait, hnow]
    rfl
  · simp only
    split
    · next hdue =>
      obtain ⟨hrunning, hwake⟩ := hdue
      -- what was due has been flushed, so the deadline is still to come
      have hlt : y.server.now < deadline := by
        rw [hserver, LiveServer.value_settle] at hrunning hdeadline
        rw [hnow]
        exact FlushTask.lt_deadline_of_settle hrunning hdeadline
      have hthen : (y.wait (deadline - y.server.now)).server =
          { y.server with now := deadline } := by
        rw [wait, Nat.add_sub_of_le (Nat.le_of_lt hlt)]
      obtain ⟨z, hz, hunsent', hclients', -, hserver'⟩ :=
        steps_settle (x := y.wait (deadline - y.server.now)) tell hG hstop
      rw [hthen] at hserver'
      have hnow' : z.server.now = deadline := by
        rw [hserver']
        rfl
      refine ⟨z.wait (x.server.now + duration - deadline),
        (hy.tail (.wait y _)).trans (hz.tail (.wait z _)), hunsent'.trans hunsent,
        hclients'.trans hclients, ?_⟩
      rw [wait, hnow', Nat.add_sub_of_le hwake, hserver']
      rfl
    · refine ⟨y.wait duration, .tail hy (.wait y duration), hunsent, hclients, ?_⟩
      simp only [wait, hnow]
      rfl

end Scene

end LayeredCss

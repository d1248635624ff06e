import LayeredCss.Proofs.Live.Turns

/-!
# The end of a development server

A server is ended by a signal to its task, or by giving it up, which the task takes for the signal.
Before that and after it those who hold the plugin work with it, the task is sent commands, time goes by,
and clients of the hub come, look for news and go, in any order.  The task does one thing at a time.  Once
it has been told to stop it has one thing left to do, whatever is in its queue and however late it is: it
drops the flush that is pending, and ends.

* `LiveServer.Step`: what can happen next to a server that may be ended;
* `quiet_of_ended`: after the end nothing is flushed and nobody is told;
* `steps_sleep`, `steps_shutdown` and the like: the operations of a server are such steps.
-/

namespace LayeredCss

variable {κ : Type} {tell : κ → Nat → Traced Delivery} {generate : Generator}

namespace FlushTask

variable {now : Nat} {site next : Site κ}

/-- A task that ends by what it does has nothing pending. -/
theorem pending_of_step (hstep : (step tell generate now site).value = some next)
    (hnext : next.task.status ≠ .running) : next.task.debouncer.pending = none := by
  have hrunning : site.task.status = .running := by
    by_contra hended
    rw [step_of_ended hended] at hstep
    cases hstep
  cases hstopping : site.task.stopping with
  | true =>
    rw [step_of_stopping hrunning hstopping] at hstep
    cases hstep
    rfl
  | false =>
    rcases step_cases site tell generate now hstopping with
      ⟨command, rest, -, htake⟩ | ⟨-, hdue, hflush⟩ | ⟨hnone, -⟩
    · rw [htake] at hstep
      cases hstep
      cases command <;> exact absurd hrunning hnext
    · rw [hflush] at hstep
      cases hstep
      exact (flush_fields tell generate hdue).2.1
    · rw [hnone] at hstep
      cases hstep

end FlushTask

namespace LiveServer

/-- The task is told to stop, and the host waits for it. -/
def signal (s : LiveServer κ) : LiveServer κ := { s with task := { s.task with stopping := true } }

/-- **What can happen next** to a server that may be ended.  After the end as well nothing is ruled out
that somebody might still try. -/
inductive Step : LiveServer κ → LiveServer κ → Prop
  /-- The plugin is shared, and whoever holds it may do anything with it: a hook, a fetch, the host. -/
  | work (s : LiveServer κ) (plugin : Plugin) : Step s { s with plugin }
  | send (s : LiveServer κ) (command : Command κ) : Step s (s.send command).value
  /-- The task does the next thing, with the listeners and the generator that it finds. -/
  | task (s : LiveServer κ) (tell : κ → Nat → Traced Delivery) (generate : Generator)
    (site : FlushTask.Site κ) (h : (FlushTask.step tell generate s.now s.site).value = some site) :
    Step s (s.withSite site)
  | wait (s : LiveServer κ) (duration : Nat) : Step s { s with now := s.now + duration }
  | join (s : LiveServer κ) : Step s s.join.2
  | receive (s : LiveServer κ) (client : Nat) : Step s (s.receive client).2
  | leave (s : LiveServer κ) (client : Nat) : Step s { s with hub := s.hub.leave client }
  | signal (s : LiveServer κ) : Step s s.signal
  | drop (s : LiveServer κ) : Step s s.drop

abbrev Steps : LiveServer κ → LiveServer κ → Prop := Relation.ReflTransGen Step

/-- What a server can come to that was started for a plugin. -/
def Reachable (p : Plugin) (s : LiveServer κ) : Prop :=
  ∃ server, (start p true).value = .ok server ∧ Steps server s

/-- **What each step keeps** a run keeps. -/
theorem Steps.keeps {I : LiveServer κ → Prop} (hI : ∀ s t, I s → Step s t → I t)
    {s t : LiveServer κ} (hs : I s) (h : Steps s t) : I t := by
  induction h with
  | refl => exact hs
  | tail _ hstep ih => exact hI _ _ ih hstep

/-- **The task is quiet**: it has ended, or the next thing it does is to end, with two records in the
log if it drops a flush.  No listener is asked, no stylesheet is made, and neither the plugin nor the hub
changes. -/
def Quiet (s : LiveServer κ) : Prop :=
  ∀ tell generate, FlushTask.step tell generate s.now s.site =
    if s.task.status = .running then
      ⟨some { s.site with task := s.task.ended }, s.task.parting⟩
    else pure none

theorem quiet_of_stopping {s : LiveServer κ} (h : s.task.stopping = true) : s.Quiet := by
  intro tell generate
  split
  · next hrunning => exact FlushTask.step_of_stopping hrunning h
  · next hended => exact FlushTask.step_of_ended hended

/-- What has been announced and flushed from a time on at which the task was told to stop. -/
structure Silent (s t : LiveServer κ) : Prop where
  stopping : t.task.stopping = true
  flushes : t.task.debouncer.flushes = s.task.debouncer.flushes
  sent : t.hub.channel.sent = s.hub.channel.sent
  kept : t.hub.channel.kept = s.hub.channel.kept

variable {p : Plugin} {s t u : LiveServer κ}

/-- **No step breaks the silence.** -/
theorem Silent.step (hs : Silent s t) (h : Step t u) : Silent s u := by
  rcases h with plugin | command | ⟨tell, generate, site, hsite⟩ | duration | _ | client | client | _ | _
  · exact ⟨hs.stopping, hs.flushes, hs.sent, hs.kept⟩
  · obtain ⟨-, hstopping, hdebouncer, hhub⟩ := t.send_fields command
    constructor
    · exact hstopping.trans hs.stopping
    · rw [hdebouncer, hs.flushes]
    · rw [hhub, hs.sent]
    · rw [hhub, hs.kept]
  · rw [quiet_of_stopping hs.stopping tell generate] at hsite
    split at hsite
    · cases hsite
      exact ⟨hs.stopping, hs.flushes, hs.sent, hs.kept⟩
    · cases hsite
  · exact ⟨hs.stopping, hs.flushes, hs.sent, hs.kept⟩
  · exact ⟨hs.stopping, hs.flushes, hs.sent, hs.kept⟩
  · obtain ⟨hkept, hsent⟩ := t.hub.channel.receive_fields t.hubEnded client
    exact ⟨hs.stopping, hs.flushes, hsent.trans hs.sent, hkept.trans hs.kept⟩
  · exact ⟨hs.stopping, hs.flushes, hs.sent, hs.kept⟩
  · exact ⟨rfl, hs.flushes, hs.sent, hs.kept⟩
  · exact ⟨rfl, hs.flushes, hs.sent, hs.kept⟩

/-- A task that has ended, also by a listener that broke off, has nothing pending. -/
def Settled (s : LiveServer κ) : Prop :=
  s.task.status ≠ .running → s.task.debouncer.pending = none

theorem Settled.step (hs : s.Settled) (h : Step s t) : t.Settled := by
  rcases h with plugin | command | ⟨tell, generate, site, hsite⟩ | duration | _ | client | client | _ | _
  · exact hs
  · obtain ⟨hstatus, -, hdebouncer, -⟩ := s.send_fields command
    intro hended
    rw [hdebouncer]
    exact hs (hstatus ▸ hended)
  · exact fun hended => FlushTask.pending_of_step hsite hended
  all_goals exact hs

theorem settled_of_reachable (hs : Reachable p s) : s.Settled := by
  obtain ⟨server, hserver, hsteps⟩ := hs
  have hstart : server.Settled := by
    rw [eq_started hserver]
    exact fun hended => absurd rfl hended
  exact hsteps.keeps (fun _ _ => Settled.step) hstart

/-- **Nothing is flushed after the end.**  From the moment on that the task of a server is told to stop
or the server is given up, whatever is in the queue and however late the task is, and in whatever order
things happen then: the task is quiet, no flush is counted and nothing sent to the hub; and once the task
has ended nothing is pending. -/
theorem quiet_of_ended {e : LiveServer κ} (hs : Reachable p s) (he : e = s.signal ∨ e = s.drop)
    (ht : Steps e t) :
    t.Quiet ∧ t.task.debouncer.flushes = s.task.debouncer.flushes ∧
      t.hub.channel.sent = s.hub.channel.sent ∧ t.hub.channel.kept = s.hub.channel.kept ∧
      (t.task.status ≠ .running → t.task.debouncer.pending = none) := by
  have hend : Silent s e := by
    rcases he with rfl | rfl <;> exact ⟨rfl, rfl, rfl, rfl⟩
  have hsilent : Silent s t := ht.keeps (fun _ _ => Silent.step) hend
  have hsettled : t.Settled := by
    have hsettled := settled_of_reachable hs
    refine ht.keeps (fun _ _ => Settled.step) ?_
    rcases he with rfl | rfl
    · exact hsettled.step (.signal s)
    · exact hsettled.step (.drop s)
  exact ⟨quiet_of_stopping hsilent.stopping, hsilent.flushes, hsilent.sent, hsilent.kept, hsettled⟩

/-- A flush is due and two more commands wait when the signal comes; the server is used on, and then
dropped. -/
theorem quiet_of_ended_due :
    let tell : Unit → Nat → Traced Delivery := fun _ _ => pure .done
    ∃ s t : LiveServer Unit, Reachable (Plugin.ofSession (Session.blank .watch)) s ∧
      s.task.debouncer.isDue s.now = true ∧ s.task.commands = [.mutation, .subscribe ()] ∧
      Steps s.signal t ∧ t.task.status = .running ∧ t.task.debouncer.flushes = 0 ∧
      (FlushTask.step tell joinedRules t.now t.site).value =
        some { t.site with task := t.task.ended } := by
  intro tell
  let p := Plugin.ofSession (Session.blank .watch)
  let first : LiveServer Unit := ((started p).send .mutation).value
  let taken := first.withSite
    { first.site with task := (first.task.take first.now .mutation []).value }
  let late := { taken with now := taken.now + 100000 }
  let s := ((late.send .mutation).value.send (.subscribe ())).value
  let t := ((s.signal.send .mutation).value.join.2).drop
  have hs : Reachable p s := by
    refine ⟨started p, value_start rfl, ?_⟩
    exact .head (.send _ .mutation) <|
      .head (.task first tell joinedRules _ rfl) <|
      .head (.wait taken 100000) <|
      .head (.send late .mutation) <|
      .single (.send _ (.subscribe ()))
  have ht : Steps s.signal t :=
    .head (.send _ .mutation) <| .head (.join _) <| .single (.drop _)
  obtain ⟨hquiet, hflushes, -⟩ := quiet_of_ended hs (Or.inl rfl) ht
  have hrunning : t.task.status = .running := rfl
  refine ⟨s, t, hs, by decide +kernel, rfl, ht, hrunning, hflushes, ?_⟩
  rw [hquiet, if_pos hrunning]

/-! ## The operations of a server -/

/-- The task does steps, as many as it may. -/
theorem steps_steps (s : LiveServer κ) (fuel : Nat) :
    Steps s (s.withSite (FlushTask.steps tell generate s.now fuel s.site).value) := by
  induction fuel generalizing s with
  | zero => exact .refl
  | succ fuel ih =>
    cases hstep : (FlushTask.step tell generate s.now s.site).value with
    | none =>
      rw [FlushTask.value_steps_of_none hstep]
      exact .refl
    | some site =>
      rw [FlushTask.value_steps_of_some hstep]
      exact .head (.task s tell generate site hstep) (ih (s.withSite site))

theorem steps_settle (s : LiveServer κ) (tell : κ → Nat → Traced Delivery) (generate : Generator) :
    Steps s (s.settle tell generate).value := s.steps_steps _

theorem steps_until (s : LiveServer κ) {time : Nat} (h : s.now ≤ time) :
    Steps s { s with now := time } := by
  have hwait := Step.wait s (time - s.now)
  rw [Nat.add_sub_of_le h] at hwait
  exact .single hwait

/-- **A server that sleeps does steps.** -/
theorem steps_sleep (s : LiveServer κ) (tell : κ → Nat → Traced Delivery) (generate : Generator)
    (duration : Nat) : Steps s (s.sleep tell generate duration).value := by
  have hfirst := s.steps_settle tell generate
  unfold sleep
  simp only [Traced.value_bind]
  generalize hsettled : (s.settle tell generate).value = settled at hfirst
  have hnow : settled.now = s.now := by
    rw [← hsettled]
    rfl
  rcases hdeadline : settled.task.debouncer.deadline? with _ | deadline
  · refine hfirst.trans (settled.steps_until ?_)
    omega
  · simp only
    split
    · next hdue =>
      obtain ⟨hrunning, hwake⟩ := hdue
      have hlt : settled.now < deadline := by
        rw [← hsettled, value_settle] at hrunning hdeadline
        rw [hnow]
        exact FlushTask.lt_deadline_of_settle hrunning hdeadline
      have hthen := steps_settle { settled with now := deadline } tell generate
      exact ((hfirst.trans (settled.steps_until (Nat.le_of_lt hlt))).trans hthen).trans
        (steps_until _ hwake)
    · refine hfirst.trans (settled.steps_until ?_)
      omega

/-- **A hook that nobody interrupts** is two steps. -/
theorem steps_hooked (s : LiveServer κ) (transformer : Transform) (call : ModuleCall) :
    Steps s (s.hooked transformer call) := by
  unfold hooked
  simp only
  split
  · exact .head (.work s _) (.single (.send _ .mutation))
  · exact .single (.work s _)

/-- **Ending a server** is giving it up and letting the task run, which has ended then. -/
theorem steps_shutdown (s : LiveServer κ) (tell : κ → Nat → Traced Delivery)
    (generate : Generator) :
    Steps s.drop (s.shutdown tell generate).value.2 ∧
      (s.shutdown tell generate).value.2.task.status ≠ .running := by
  have hvalue : (s.shutdown tell generate).value.2 = (s.drop.settle tell generate).value := by
    unfold shutdown
    split
    · simp only [Traced.value_bind]
      split <;> rfl
    · simp only [Traced.value_bind]
      split <;> rfl
  rw [hvalue]
  refine ⟨s.drop.steps_settle tell generate, ?_⟩
  rw [value_settle]
  by_cases hrunning : s.drop.site.task.status = .running
  · rw [FlushTask.value_settle_of_stopping hrunning rfl]
    exact TaskStatus.noConfusion
  · unfold FlushTask.settle
    rw [FlushTask.value_steps_of_none (FlushTask.value_step_of_ended hrunning)]
    exact hrunning

end LiveServer

end LayeredCss

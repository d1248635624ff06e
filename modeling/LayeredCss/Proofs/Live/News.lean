import LayeredCss.Proofs.Live.Scene

/-!
# No change is lost

A change of the rule store is followed from the hook that made it to the flush that brings it to the
clients: the hook has yet to tell the task, or its command is in the queue, or a flush is pending.  A
flush may come at any of these moments and take the change with it; what it must not do is leave
behind a change that nobody will flush.

* `Scene.Stirred`: a change is on its way to a flush;
* `Tracked.step`: what each step keeps;
* `stirred_of_revision_ne`: a store that has changed since the last flush is going to be flushed,
  unless the last flush failed.
-/

namespace LayeredCss.Scene

variable {κ : Type} {tell : κ → Nat → Traced Delivery} {G : Generator → Prop} {p : Plugin}
  {x y : Scene κ}

/-- A change is on its way to a flush. -/
def Stirred (x : Scene κ) : Prop :=
  0 < x.unsent ∨ .mutation ∈ x.server.task.commands ∨ x.debouncer.pending.isSome = true

/-- A command that is told comes into the queue, and what was on its way still is. -/
theorem Stirred.send (hx : x.Stirred) (h : x.server.task.status = .running)
    (command : Command κ) : (x.send command).Stirred := by
  rw [send_of_running h]
  rcases hx with hunsent | hmem | hpending
  · exact Or.inl hunsent
  · exact Or.inr (Or.inl (List.mem_append_left _ hmem))
  · exact Or.inr (Or.inr hpending)

/-- The change that a hook tells the task of stays on its way. -/
theorem stirred_report (h : x.server.task.status = .running) : x.report.Stirred := by
  rw [report, send_of_running h]
  exact Or.inr (Or.inl (List.mem_append_right _ List.mem_cons_self))

/-- A command that the task takes arms the timer, or does not concern the changes under way. -/
theorem stirred_take {command : Command κ} {rest : List (Command κ)}
    (h : x.server.task.commands = command :: rest) :
    (command = .mutation ∧ (x.take command rest).Stirred) ∨
      ((x.Stirred → (x.take command rest).Stirred) ∧
        (x.take command rest).failing = x.failing) := by
  rcases command with _ | l
  · exact Or.inl ⟨rfl, Or.inr (Or.inr rfl)⟩
  · refine Or.inr ⟨?_, rfl⟩
    rintro (hunsent | hmem | hpending)
    · exact Or.inl hunsent
    · rw [h] at hmem
      exact Or.inr (Or.inl ((List.mem_cons.mp hmem).resolve_left fun heq => by cases heq))
    · exact Or.inr (Or.inr hpending)

/-- **A change since the last flush is on its way**, unless that flush failed. -/
def Tracked (x : Scene κ) : Prop :=
  x.session.store.revision ≠ x.flushed → x.Stirred ∨ x.failing = true

/-- **Each step keeps changes tracked.** -/
theorem Tracked.step (hcalm : Calm tell) (hrunning : x.server.task.status = .running)
    (hx : x.Tracked) (h : Step tell G x y) : y.Tracked := by
  intro hne
  rcases h with ⟨transformer, call⟩ | - | command | ⟨command, rest, hcommands⟩ |
    ⟨generate, hdue, -⟩ | duration | generate | _ | ⟨i, c, -⟩ | ⟨generate, i, c, -, -⟩ | ⟨i, c, -⟩
  · obtain ⟨next, -, -, ⟨hstore, hhook⟩ | hhook⟩ := x.hook_cases transformer call
    · rw [hhook] at hne ⊢
      refine hx ?_
      rw [← hstore]
      exact hne
    · rw [hhook]
      exact Or.inl (Or.inl (Nat.succ_pos _))
  · exact Or.inl (stirred_report hrunning)
  · rw [session_send] at hne
    exact (hx hne).imp_left fun hstirred => hstirred.send hrunning command
  · rcases stirred_take hcommands with ⟨-, hstirred⟩ | ⟨hstirred, hfailing⟩
    · exact Or.inl hstirred
    · rw [hfailing]
      exact (hx hne).imp_left hstirred
  · rcases flush_cases hcalm hdue generate with ⟨failure, next, -, hflush⟩ | ⟨text, next, -, hflush⟩
    · rw [hflush]
      exact Or.inr rfl
    · rw [hflush] at hne
      exact absurd rfl hne
  -- time, clients and those who look at the stylesheet leave changes where they are
  · exact hx hne
  · exact hx hne
  · exact hx hne
  · rw [receive_eq] at hne ⊢
    split at hne <;> split <;> exact hx hne
  · rw [fetch_eq] at hne ⊢
    exact hx hne
  · exact hx hne

/-- **No change is lost.**  In every scene of a server whose listeners do not break off, a store that
is not at the revision of the last flush has a hook that has yet to tell the task of it, or a command
for it in the queue, or a flush that is pending, unless the last flush failed and the task has taken no
change since. -/
theorem stirred_of_revision_ne (hcalm : Calm tell) (hx : Reachable tell G p x)
    (hne : x.session.store.revision ≠ x.flushed) :
    0 < x.unsent ∨ .mutation ∈ x.server.task.commands ∨ x.debouncer.pending.isSome = true ∨
      x.failing = true := by
  have htracked : x.Tracked :=
    hx.induct (fun hne => absurd rfl hne) fun _ _ hx h hstep =>
      h.step hcalm (running_of_reachable hcalm hx) hstep
  rcases htracked hne with (hunsent | hcommand | hpending) | hfailing
  · exact Or.inl hunsent
  · exact Or.inr (Or.inl hcommand)
  · exact Or.inr (Or.inr (Or.inl hpending))
  · exact Or.inr (Or.inr (Or.inr hfailing))

/-- After a flush that failed nothing is on its way any more. -/
theorem stirred_of_revision_ne_failed :
    let p := Plugin.ofSession (Session.blank .watch)
    let tell : Unit → Nat → Traced Delivery := fun _ _ => pure .done
    ∃ x, Reachable tell (fun _ => True) p x ∧ x.session.store.revision ≠ x.flushed ∧
      x.unsent = 0 ∧ x.server.task.commands = [] ∧ x.debouncer.pending = none ∧
      x.failing = true := by
  intro p tell
  let generate : Generator := fun _ => .error (.ofText "no css")
  let x := ((((opening (.started p)).hook Session.oneRule (.transform "a.ts" "strata")).report.take
    .mutation []).wait 100000).flush tell generate
  have hsteps : Steps tell (fun _ => True) (opening (.started p)) x :=
    .head (.hook _ Session.oneRule (.transform "a.ts" "strata")) <|
    .head (.report _ (by decide +kernel)) <|
    .head (.take _ .mutation [] (by decide +kernel)) <|
    .head (.wait _ 100000) <|
    .head (.flush _ generate (by decide +kernel) trivial) .refl
  have hx : Reachable tell (fun _ => True) p x := ⟨.started p, LiveServer.value_start rfl, hsteps⟩
  have hne : x.session.store.revision ≠ x.flushed := by decide +kernel
  have hunsent : x.unsent = 0 := by decide +kernel
  have hcommands : x.server.task.commands = [] := by decide +kernel
  have hidle : x.debouncer.pending = none := by decide +kernel
  refine ⟨x, hx, hne, hunsent, hcommands, hidle, ?_⟩
  have hcalm : Calm tell := fun _ _ _ h => by cases h
  rcases stirred_of_revision_ne hcalm hx hne with h | h | h | h
  · omega
  · rw [hcommands] at h
    cases h
  · rw [hidle] at h
    cases h
  · exact h

end LayeredCss.Scene

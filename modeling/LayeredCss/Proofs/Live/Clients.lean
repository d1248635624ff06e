import LayeredCss.Proofs.Live.News
import LayeredCss.Proofs.Session.Contents

/-!
# Clients end up current

A client fetches the stylesheet when it has joined the hub, and again whenever it hears of a flush, in
its own time; the buffer of the hub may drop events that it has not seen.  What it shows may be
out of date, but then something is still to come that will make it fetch again: a fetch that it owes,
an event that it is behind, or a change that is on its way to a flush.

* `Scene.Attended`: one of these holds of each client, or it shows the current stylesheet;
* `Attended.step`: what each step keeps;
* `showing_eq_stylesheet`: once all is quiet, each client shows the current stylesheet.
-/

namespace LayeredCss.Scene

variable {κ : Type} {tell : κ → Nat → Traced Delivery} {G : Generator → Prop} {p : Plugin}
  {x y : Scene κ}

/-- A client shows the stylesheet that is kept, which was made from the present store. -/
def Shows (x : Scene κ) (c : Client) : Prop :=
  ∃ body, c = .showing body ∧ x.session.sheets.lastGood = some ⟨body, x.session.store.revision⟩

/-- A client is current, or something is to come that will make it fetch. -/
def Cared (x : Scene κ) (c : Client) (next : Nat) : Prop :=
  c = .behind ∨ next < x.channel.sent ∨ x.Stirred ∨ x.Shows c

/-- **Each client is current, or something is to come that will make it fetch.** -/
structure Attended (x : Scene κ) : Prop where
  hub : ∃ id, (id, Sink.hub) ∈ x.debouncer.subscribers
  sound : x.channel.Sound
  client : ∀ i c, x.clients i = some c → ∃ next, x.channel.At i next ∧ x.Cared c next

theorem attended_opening (p : Plugin) : (opening (.started p) : Scene κ).Attended where
  hub := ⟨0, List.mem_cons_self⟩
  sound := Broadcast.sound_new _
  client i c hc := by cases hc

/-- Clients stay attended while hub and task are left alone and what they show stays what it is. -/
theorem Attended.keep (hx : x.Attended) (hhub : y.server.hub = x.server.hub)
    (hsubscribers : ∀ s ∈ x.debouncer.subscribers, s ∈ y.debouncer.subscribers)
    (hclients : y.clients = x.clients) (hstirred : x.Stirred → y.Stirred)
    (hshows : ∀ c, x.Shows c → y.Stirred ∨ y.Shows c) : y.Attended := by
  obtain ⟨id, hmem⟩ := hx.hub
  refine ⟨⟨id, hsubscribers _ hmem⟩, ?_, fun i c hc => ?_⟩
  · rw [channel, hhub]
    exact hx.sound
  · rw [hclients] at hc
    obtain ⟨next, hat, hcared⟩ := hx.client i c hc
    refine ⟨next, ?_, ?_⟩
    · rw [channel, hhub]
      exact hat
    · rcases hcared with hbehind | hlt | h | h
      · exact Or.inl hbehind
      · refine Or.inr (Or.inl ?_)
        rw [channel, hhub]
        exact hlt
      · exact Or.inr (Or.inr (Or.inl (hstirred h)))
      · exact Or.inr (Or.inr (hshows c h))

/-- Clients stay attended when the hub moves on, if only those that are behind are moved. -/
theorem Attended.move (hx : x.Attended) (hub : Hub) (hsound : hub.channel.Sound)
    (hsent : x.channel.sent ≤ hub.channel.sent)
    (hat : ∀ i c next, x.clients i = some c → x.channel.At i next →
      hub.channel.At i next ∨ c = .behind ∧ ∃ after, hub.channel.At i after) :
    Attended { x with server := { x.server with hub } } := by
  refine ⟨hx.hub, hsound, fun i c hc => ?_⟩
  obtain ⟨next, hnext, hcared⟩ := hx.client i c hc
  rcases hat i c next hc hnext with hsame | ⟨hbehind, after, hafter⟩
  · refine ⟨next, hsame, hcared.imp_right ?_⟩
    rintro (hlt | h | h)
    · exact Or.inl (Nat.lt_of_lt_of_le hlt hsent)
    · exact Or.inr (Or.inl h)
    · exact Or.inr (Or.inr h)
  · exact ⟨after, hafter, Or.inl hbehind⟩

theorem Attended.setClient (hx : x.Attended) {i : Nat} {client : Option Client}
    (h : ∀ c, client = some c → ∃ next, x.channel.At i next ∧ x.Cared c next) :
    (x.setClient i client).Attended := by
  refine ⟨hx.hub, hx.sound, fun j c hc => ?_⟩
  rw [clients_setClient] at hc
  split at hc
  · next heq => exact heq ▸ h c hc
  · exact hx.client j c hc

/-! ## The stylesheet -/

/-- Making the stylesheet keeps what clients show. -/
theorem Shows.serve {c : Client} (h : x.Shows c) (generate : Generator) :
    (x.serve generate).Shows c := by
  obtain ⟨body, hc, hlast⟩ := h
  refine ⟨body, hc, ?_⟩
  have hvalue := SheetCache.refresh_of_lastGood hlast generate
  change ((x.session.sheets.refresh generate x.session.store).value.2).lastGood = _
  rw [hvalue]
  exact hlast

/-- **A client that has just fetched shows the stylesheet that is kept.** -/
theorem shows_fetch {generate : Generator} (hG : generate.Total) (i : Nat) :
    (x.fetch generate i).Shows (.showing (Endpoint.fetch x.session generate).value.1.body) := by
  obtain ⟨text, next, hvalue⟩ := SheetCache.exists_refresh hG x.session.sheets x.session.store
  have hsheet : (x.session.stylesheet generate).value =
      (.ok text, { x.session with sheets := next }) := by
    simp only [Session.stylesheet, Traced.value_bind, hvalue, Traced.value_pure]
  rw [fetch_eq, Endpoint.value_fetch_of_ok hsheet]
  refine ⟨text, rfl, ?_⟩
  change ((x.session.stylesheet generate).value.2).sheets.lastGood = _
  rw [hsheet]
  exact SheetCache.lastGood_of_refresh hvalue

/-! ## Steps -/

theorem Attended.serve (hx : x.Attended) (generate : Generator) : (x.serve generate).Attended :=
  hx.keep rfl (fun _ h => h) rfl id fun _ h => Or.inr (h.serve generate)

theorem Attended.receive (hx : x.Attended) {i : Nat} {c : Client} (hc : x.clients i = some c) :
    (x.receive i).Attended := by
  obtain ⟨next, hat, -⟩ := hx.client i c hc
  have hsound := hx.sound.receive hat x.server.hubEnded
  obtain ⟨after, -, -, hsent, hmoved⟩ := Broadcast.receive_moves hx.sound hat x.server.hubEnded
  rw [receive_eq]
  split
  · next hnothing =>
    -- the buffer has not changed
    have hsame := Broadcast.receive_of_nothing hat x.server.hubEnded hnothing
    refine hx.move (x.server.hub.receive x.server.hubEnded i).2 hsound (Nat.le_of_eq hsent.symm)
      fun j d n _ hj => Or.inl ?_
    show (x.channel.receive x.server.hubEnded i).2.At j n
    rw [hsame]
    exact hj
  · have hbehind : (x.setClient i (some .behind)).Attended := hx.setClient fun d hd => by
      cases hd
      exact ⟨next, hat, Or.inl rfl⟩
    refine hbehind.move (x.server.hub.receive x.server.hubEnded i).2 hsound
      (Nat.le_of_eq hsent.symm) fun j d n hd hj => ?_
    by_cases heq : i = j
    · subst heq
      rw [clients_setClient, if_pos rfl] at hd
      cases hd
      exact Or.inr ⟨rfl, after, (hmoved i after).mpr (by rw [if_pos rfl])⟩
    · exact Or.inl ((hmoved j n).mpr (by rw [if_neg heq]; exact hj))

theorem Attended.join (hx : x.Attended) : x.join.Attended := by
  have hjoined := hx.move x.server.hub.join.2 hx.sound.join (Nat.le_refl _)
    fun _ _ _ _ hat => Or.inl hat.join
  exact hjoined.setClient fun c hc => by
    cases hc
    exact ⟨_, x.channel.at_join, Or.inl rfl⟩

theorem Attended.leave (hx : x.Attended) (i : Nat) : (x.leave i).Attended := by
  have hgone : (x.setClient i none).Attended := hx.setClient fun c hc => by cases hc
  refine hgone.move (x.server.hub.leave i) (hx.sound.leave i) (Nat.le_refl _)
    fun j c n hc hat => Or.inl ?_
  refine Broadcast.at_leave.mpr ⟨fun heq => ?_, hat⟩
  rw [clients_setClient, if_pos heq.symm] at hc
  cases hc

theorem Attended.fetch (hx : x.Attended) {generate : Generator} (hG : generate.Total) {i : Nat}
    {c : Client} (hc : x.clients i = some c) : (x.fetch generate i).Attended := by
  obtain ⟨next, hat, -⟩ := hx.client i c hc
  have hshows := shows_fetch hG i (x := x)
  rw [fetch_eq] at hshows ⊢
  exact (hx.serve generate).setClient fun d hd => by
    cases hd
    exact ⟨next, hat, Or.inr (Or.inr (Or.inr hshows))⟩

/-- **A flush puts each client behind.** -/
theorem Attended.flush (hcalm : Calm tell) (hx : x.Attended) {generate : Generator}
    (hG : generate.Total) (hdue : x.debouncer.isDue x.server.now = true) :
    (x.flush tell generate).Attended := by
  obtain ⟨id, hmem⟩ := hx.hub
  rcases flush_cases hcalm hdue generate with ⟨failure, next, hsheet, -⟩ | ⟨text, next, -, hflush⟩
  · obtain ⟨text, sheets, hvalue⟩ := SheetCache.exists_refresh hG x.session.sheets x.session.store
    simp only [Session.stylesheet, Traced.value_bind, hvalue, Traced.value_pure] at hsheet
    cases hsheet
  · rw [hflush]
    refine ⟨⟨id, hmem⟩, Hub.sound_told hx.sound, fun i c hc => ?_⟩
    obtain ⟨n, hat, -⟩ := hx.client i c hc
    have hn := hx.sound.cursor i n hat
    have hlt : x.channel.sent < (x.server.hub.told tell (x.debouncer.flushes + 1)
        x.debouncer.subscribers).channel.sent := Hub.lt_sent_told hmem hat.receivers_ne_zero
    refine ⟨n, ?_, Or.inr (Or.inl (Nat.lt_of_le_of_lt hn hlt))⟩
    show (Hub.told ..).channel.cursors[i]? = some (some n)
    rw [Hub.cursors_told]
    exact hat

/-- **Each step keeps clients attended.** -/
theorem Attended.step (hcalm : Calm tell) (hG : ∀ generate, G generate → generate.Total)
    (hrunning : x.server.task.status = .running) (hx : x.Attended) (h : Step tell G x y) :
    y.Attended := by
  rcases h with ⟨transformer, call⟩ | - | command | ⟨command, rest, hcommands⟩ |
    ⟨generate, hdue, hgenerate⟩ | duration | generate | _ | ⟨i, c, hc⟩ |
    ⟨generate, i, c, hc, hgenerate⟩ | ⟨i, c, -⟩
  · obtain ⟨next, -, hsheets, ⟨hstore, hhook⟩ | hhook⟩ := x.hook_cases transformer call <;>
      rw [hhook]
    · refine hx.keep rfl (fun _ h => h) rfl id fun c hshows => Or.inr ?_
      obtain ⟨body, hbody, hlast⟩ := hshows
      refine ⟨body, hbody, ?_⟩
      show next.sheets.lastGood = some ⟨body, next.store.revision⟩
      rw [hsheets, hstore]
      exact hlast
    · have hstirred : Stirred { x with
          server := x.server.withSession next
          unsent := x.unsent + 1
          calls := x.calls ++ [call.onSession transformer] } := Or.inl (Nat.succ_pos _)
      exact hx.keep rfl (fun _ h => h) rfl (fun _ => hstirred) fun _ _ => Or.inl hstirred
  · have hstirred := stirred_report hrunning
    rw [report, send_of_running hrunning] at hstirred ⊢
    exact hx.keep rfl (fun _ h => h) rfl (fun _ => hstirred) fun _ _ => Or.inl hstirred
  · have hstirred : x.Stirred → _ := fun h => h.send hrunning command
    rw [send_of_running hrunning] at hstirred ⊢
    exact hx.keep rfl (fun _ h => h) rfl hstirred fun _ hshows => Or.inr hshows
  · have hstirred : x.Stirred → (x.take command rest).Stirred := fun h =>
      (stirred_take hcommands).elim (fun h' => h'.2) fun h' => h'.1 h
    rcases command with _ | l
    · exact hx.keep rfl (fun _ h => h) rfl hstirred fun _ hshows => Or.inr hshows
    · exact hx.keep rfl (fun _ h => List.mem_append_left _ h) rfl hstirred
        fun _ hshows => Or.inr hshows
  · exact hx.flush hcalm (hG generate hgenerate) hdue
  · exact hx.keep rfl (fun _ h => h) rfl id fun _ hshows => Or.inr hshows
  · exact hx.serve generate
  · exact hx.join
  · exact hx.receive hc
  · exact hx.fetch (hG generate hgenerate) hc
  · exact hx.leave i

/-- **Once all is quiet each client shows the current stylesheet.**  In every scene of a server whose
listeners do not break off and whose generators do not fail, if all hooks have told the task what they
changed, the queue is empty and no flush is pending, then a client that has fetched whenever it heard
something, and now finds nothing, shows what the session gives for its stylesheet; and that is the page
of the contents that all calls of the session have left. -/
theorem showing_eq_stylesheet (hcalm : Calm tell)
    (hnever : ∀ generate, G generate → generate.Total)
    (hx : Reachable tell G p x) (hunsent : x.unsent = 0) (hcommands : x.server.task.commands = [])
    (hidle : x.debouncer.pending = none) {i : Nat} {body : String}
    (hclient : x.clients i = some (.showing body)) (hempty : (x.server.receive i).1 = .empty) :
    (∀ generate, (x.session.stylesheet generate).value.1 = .ok body) ∧
    ∀ css s₀ earlier, s₀.Starts .watch → p.session = s₀.after earlier →
      (∀ generate, .stylesheet generate ∈ earlier ++ x.calls → generate.Agrees css) →
      Session.mutations (s₀.history (earlier ++ x.calls)) < UInt64.size →
      body = Session.page css s₀.config.annotateSources
        (Session.contents s₀ (s₀.history (earlier ++ x.calls))) := by
  have hattended : x.Attended :=
    hx.induct (attended_opening p) fun _ _ hx h hstep =>
      h.step hcalm hnever (running_of_reachable hcalm hx) hstep
  obtain ⟨next, hat, hbehind | hlt | hstirred | ⟨body', hbody, hlast⟩⟩ :=
    hattended.client i _ hclient
  · cases hbehind
  · exact absurd hempty (Broadcast.receive_ne_empty hat hlt _)
  · rcases hstirred with h | h | h
    · omega
    · rw [hcommands] at h
      cases h
    · rw [hidle] at h
      cases h
  · cases hbody
    refine ⟨fun generate => ?_, fun css s₀ earlier h₀ hp hagrees hlt => ?_⟩
    · simp only [Session.stylesheet, Traced.value_bind, SheetCache.refresh_of_lastGood hlast,
        Traced.value_pure]
    · have hsession : x.session = s₀.after (earlier ++ x.calls) := by
        rw [Session.after_append, ← hp]
        exact (accounted_of_reachable hcalm hx).session
      have hfaithful := Session.faithful_after h₀ hagrees
      rw [← hsession] at hfaithful
      exact hfaithful.kept.current hfaithful.recorded hlt
        (SheetCache.current?_eq_some.mpr ⟨hlast, rfl⟩)

/-- A module that changes while a client is about to fetch, and is flushed once more. -/
theorem showing_eq_stylesheet_crossing :
    let s₀ := Session.blank .watch
    let tell : Unit → Nat → Traced Delivery := fun _ _ => pure .done
    ∃ x, Reachable tell (· = joinedRules) (.ofSession s₀) x ∧
      x.clients 0 = some (.showing ".a\x7b\x7d\n\n.a\x7b\x7d") ∧
      (∀ generate, (x.session.stylesheet generate).value.1 = .ok ".a\x7b\x7d\n\n.a\x7b\x7d") ∧
      ".a\x7b\x7d\n\n.a\x7b\x7d" =
        Session.page "\n\n".intercalate s₀.config.annotateSources
          (Session.contents s₀ (s₀.history x.calls)) := by
  intro s₀ tell
  let p := Plugin.ofSession s₀
  let early := ((((opening (.started p)).join.hook Session.oneRule
    (.transform "a.ts" "strata")).report.take .mutation []).wait 100000).flush tell joinedRules
  let late := ((early.hook Session.oneRule (.transform "b.ts" "strata")).receive 0).fetch
    joinedRules 0
  let x := ((((late.report.take .mutation []).wait 100000).flush tell joinedRules).receive 0).fetch
    joinedRules 0
  have hearly : Steps tell (· = joinedRules) (opening (.started p)) early :=
    .head (.join _) <|
    .head (.hook _ Session.oneRule (.transform "a.ts" "strata")) <|
    .head (.report _ (by decide +kernel)) <|
    .head (.take _ .mutation [] (by decide +kernel)) <|
    .head (.wait _ 100000) <|
    .head (.flush _ joinedRules (by decide +kernel) rfl) .refl
  have hlate : Steps tell (· = joinedRules) early late :=
    .head (.hook _ Session.oneRule (.transform "b.ts" "strata")) <|
    .head (.receive _ 0 .behind (by decide +kernel)) <|
    .head (.fetch _ joinedRules 0 .behind (by decide +kernel) rfl) .refl
  have hlast : Steps tell (· = joinedRules) late x :=
    .head (.report _ (by decide +kernel)) <|
    .head (.take _ .mutation [] (by decide +kernel)) <|
    .head (.wait _ 100000) <|
    .head (.flush _ joinedRules (by decide +kernel) rfl) <|
    .head (.receive _ 0 (.showing ".a\x7b\x7d\n\n.a\x7b\x7d") (by decide +kernel)) <|
    .head (.fetch _ joinedRules 0 .behind (by decide +kernel) rfl) .refl
  have hx : Reachable tell (· = joinedRules) p x :=
    ⟨.started p, LiveServer.value_start rfl, (hearly.trans hlate).trans hlast⟩
  have hcalm : Calm tell := fun _ _ _ h => by cases h
  have hclient : x.clients 0 = some (.showing ".a\x7b\x7d\n\n.a\x7b\x7d") := by decide +kernel
  have hnever : ∀ generate, generate = joinedRules → generate.Total := by
    rintro generate rfl rules
    exact ⟨_, rfl⟩
  obtain ⟨hsheet, hpage⟩ := showing_eq_stylesheet hcalm hnever hx (by decide +kernel)
    (by decide +kernel) (by decide +kernel) hclient (by decide +kernel)
  have hagrees : ∀ generate, .stylesheet generate ∈ x.calls →
      generate.Agrees "\n\n".intercalate := fun generate hmem rules text h => by
    have heq : generate = joinedRules := (accounted_of_reachable hcalm hx).generators generate hmem
    rw [heq] at h
    cases h
    rfl
  have hlt : Session.mutations (s₀.history x.calls) < UInt64.size := by decide +kernel
  have hpage := hpage "\n\n".intercalate s₀ [] (Session.starts_blank .watch) rfl
  rw [List.nil_append] at hpage
  exact ⟨x, hx, hclient, hsheet, hpage hagrees hlt⟩

end LayeredCss.Scene

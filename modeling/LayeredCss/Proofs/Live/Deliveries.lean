import LayeredCss.Proofs.Live.Windows

/-!
# What subscribers are told

Subscribers come and go between flushes.  Some fail when they are told, some flushes fail before
anybody is told, and none of this may cost another subscriber a flush.  To see what reaches whom, the
subscribers of a run are labelled in the order in which they come, and whatever they are told is
written into a *book* beside the world that they act on.

* `numbered`, `journaling`: labels for the subscribers, and the book of what they are told;
* `generations_after`: the flushes of a run have the generations 1, 2, 3 and so on;
* `Enrolled`: subscribers are in the order in which they came, and their numbers are their labels;
* `received_step`, `received_while_present`, `received_once_gone`: what is added to the book for one
  subscriber;
* `mem_ids_iff`: those present are those who came and have not gone since;
* `deliveries_of_run`: all of this for every run.
-/

namespace LayeredCss.Host

variable {κ ω : Type}

/-! ## Labels and the book -/

namespace Call

/-- The number of subscribers that a call brings. -/
def joins : Call κ → Nat
  | .subscribe _ => 1
  | _ => 0

/-- The call with a label for the subscriber that it brings. -/
def labelled (label : Nat) : Call κ → Call (Nat × κ)
  | .session call => .session call
  | .load generate moduleId => .load generate moduleId
  | .notify now => .notify now
  | .cancel => .cancel
  | .subscribe subscriber => .subscribe (label, subscriber)
  | .unsubscribe id => .unsubscribe id
  | .poll generate now => .poll generate now
  | .fetch generate => .fetch generate

end Call

/-- The number of subscribers that have come. -/
def arrivals : List (Call κ) → Nat
  | [] => 0
  | call :: rest => call.joins + arrivals rest

/-- The calls with labels for the subscribers, in the order in which they come. -/
def numbered (label : Nat) : List (Call κ) → List (Call (Nat × κ))
  | [] => []
  | call :: rest => call.labelled label :: numbered (label + call.joins) rest

/-- Who was told of which generation. -/
abbrev Book := List (Nat × Nat)

/-- Tells a subscriber, and writes it into the book. -/
def journaling (deliver : κ → Nat → ω → Traced (Delivery × ω)) (subscriber : Nat × κ)
    (generation : Nat) (world : ω × Book) : Traced (Delivery × (ω × Book)) := do
  let (delivery, next) ← deliver subscriber.2 generation world.1
  return (delivery, (next, world.2 ++ [(subscriber.1, generation)]))

/-- The generations that a subscriber has been told of. -/
def received (label : Nat) (book : Book) : List Nat := (book.filter (·.1 = label)).map (·.2)

theorem numbered_append (label : Nat) (calls more : List (Call κ)) :
    numbered label (calls ++ more) =
      numbered label calls ++ numbered (label + arrivals calls) more := by
  induction calls generalizing label with
  | nil => rfl
  | cons call rest ih =>
    rw [List.cons_append, numbered, numbered, ih, arrivals, Nat.add_assoc, List.cons_append]

theorem received_append (label : Nat) (book more : Book) :
    received label (book ++ more) = received label book ++ received label more := by
  simp [received]

theorem received_eq_nil {label : Nat} {book : Book} (h : ∀ entry ∈ book, entry.1 < label) :
    received label book = [] := by
  have hnone : book.filter (·.1 = label) = [] := by
    refine List.filter_eq_nil_iff.mpr fun entry hentry => ?_
    simpa using Nat.ne_of_lt (h entry hentry)
  rw [received, hnone, List.map_nil]

/-- Those of a list are told once for each time that they stand in it. -/
theorem received_map (label generation : Nat) (ids : List Nat) :
    received label (ids.map (·, generation)) = List.replicate (ids.count label) generation := by
  induction ids with
  | nil => rfl
  | cons id rest ih =>
    have hcons : received label ((id :: rest).map (·, generation)) =
        received label [(id, generation)] ++ received label (rest.map (·, generation)) :=
      received_append label [(id, generation)] _
    rw [hcons, ih]
    by_cases hid : id = label
    · simp [received, hid, List.replicate_succ]
    · simp [received, hid]

theorem told_journaling (deliver : κ → Nat → ω → Traced (Delivery × ω)) (generation : Nat)
    (subscribers : List (Nat × (Nat × κ))) (world : ω × Book) :
    (Debouncer.told (journaling deliver) generation subscribers world).2 =
      world.2 ++ subscribers.map fun s => (s.2.1, generation) := by
  induction subscribers generalizing world with
  | nil => simp [Debouncer.told]
  | cons s rest ih =>
    have hcons := ih (journaling deliver s.2 generation world).value.2
    simp only [Debouncer.told] at hcons
    simp only [Debouncer.told, List.foldl_cons, hcons]
    simp [journaling]

/-! ## Flushes -/

variable (deliver : κ → Nat → ω → Traced (Delivery × ω))

/-- The generation of the flush that a turn has made, if any. -/
def Turn.generation? (t : Turn κ ω) : Option Nat :=
  match t.call with
  | .poll generate now =>
    match t.before.answer deliver generate now with
    | .flushed generation => some generation
    | _ => none
  | _ => none

/-- The generations of the flushes of a run. -/
def generations (x : Host κ ω) (calls : List (Call κ)) : List Nat :=
  (x.turns deliver calls).filterMap (Turn.generation? deliver)

/-- The number that a turn has given to a subscriber, if any. -/
def Turn.issued? (t : Turn κ ω) : Option Nat :=
  match t.call with
  | .subscribe subscriber => some (t.before.debouncer.subscribe subscriber).1
  | _ => none

/-- The numbers that a run has given to subscribers. -/
def issued (x : Host κ ω) (calls : List (Call κ)) : List Nat :=
  (x.turns deliver calls).filterMap Turn.issued?

/-- The numbers of the subscribers that are present. -/
def ids (x : Host κ ω) : List Nat := x.debouncer.subscribers.map (·.1)

theorem generations_append (x : Host κ ω) (calls more : List (Call κ)) :
    x.generations deliver (calls ++ more) =
      x.generations deliver calls ++ (x.after deliver calls).generations deliver more := by
  rw [generations, turns_append, List.filterMap_append]
  rfl

theorem generations_cons (x : Host κ ω) (call : Call κ) (rest : List (Call κ)) :
    x.generations deliver (call :: rest) = (Turn.generation? deliver ⟨x, call⟩).toList ++
      (x.perform deliver call).generations deliver rest := by
  rw [generations, turns, List.filterMap_cons]
  cases Turn.generation? deliver ⟨x, call⟩ <;> rfl

/-- **What a call does to the subscribers**: one more comes last, or one goes. -/
theorem subscribers_perform (x : Host κ ω) (call : Call κ) :
    (x.perform deliver call).debouncer.nextSubscriber =
      x.debouncer.nextSubscriber + call.joins ∧
    (x.perform deliver call).debouncer.subscribers =
      match call with
      | .subscribe subscriber =>
        x.debouncer.subscribers ++ [(x.debouncer.nextSubscriber, subscriber)]
      | .unsubscribe id => x.debouncer.subscribers.filter (·.1 ≠ id)
      | _ => x.debouncer.subscribers := by
  cases call with
  | poll generate now =>
    obtain ⟨flushes, hpoll⟩ := debouncer_poll deliver x generate now
    rw [hpoll]
    exact ⟨rfl, rfl⟩
  | cancel => simp [perform, Call.joins]
  | _ => exact ⟨rfl, rfl⟩

/-- **Numbers are given out one after the other.** -/
theorem issued_after (x : Host κ ω) (calls : List (Call κ)) :
    x.issued deliver calls = List.range' x.debouncer.nextSubscriber (arrivals calls) := by
  induction calls generalizing x with
  | nil => rfl
  | cons call rest ih =>
    have hrest : (x.perform deliver call).issued deliver rest =
        List.range' (x.debouncer.nextSubscriber + call.joins) (arrivals rest) := by
      rw [ih, (subscribers_perform deliver x call).1]
    have hcons : x.issued deliver (call :: rest) =
        (Turn.issued? ⟨x, call⟩).toList ++ (x.perform deliver call).issued deliver rest := by
      rw [issued, turns, List.filterMap_cons]
      cases Turn.issued? ⟨x, call⟩ <;> rfl
    rw [hcons, hrest, arrivals]
    cases call with
    | subscribe subscriber => rw [Call.joins, Nat.add_comm 1]; rfl
    | _ => simp [Call.joins, Turn.issued?]

section Calm

variable {deliver} (hcalm : ∀ subscriber generation world message,
  (deliver subscriber generation world).value.1 ≠ .crashed message)
include hcalm

theorem journaling_calm (subscriber : Nat × κ) (generation : Nat) (world : ω × Book)
    (message : String) :
    (journaling deliver subscriber generation world).value.1 ≠ .crashed message :=
  hcalm subscriber.2 generation world.1 message

/-- **What a call does to the world**: there is a flush of the next generation, of which all those
present are told, or nobody is told of anything. -/
theorem generation_cases (x : Host κ ω) (call : Call κ) :
    (Turn.generation? deliver ⟨x, call⟩ = none ∧
      (x.perform deliver call).debouncer.flushes = x.debouncer.flushes ∧
      (x.perform deliver call).world = x.world) ∨
    Turn.generation? deliver ⟨x, call⟩ = some (x.debouncer.flushes + 1) ∧
      (x.perform deliver call).debouncer.flushes = x.debouncer.flushes + 1 ∧
      (x.perform deliver call).world =
        Debouncer.told deliver (x.debouncer.flushes + 1) x.debouncer.subscribers x.world := by
  cases call with
  | poll generate now =>
    cases hdue : x.debouncer.isDue now with
    | false =>
      have hpolled := polled_of_not_due deliver generate hdue
      rw [perform_of_not_due deliver generate hdue]
      refine Or.inl ⟨?_, rfl, rfl⟩
      simp only [Turn.generation?, answer, hpolled, Traced.value_pure]
    | true =>
      rcases hsheet : (x.session.stylesheet generate).value with ⟨failure | text, next⟩
      · have hpoll : (x.debouncer.poll deliver generate now x.session x.world).value = _ :=
          Debouncer.value_poll_of_failed hdue hsheet
        refine Or.inl ⟨?_, ?_, ?_⟩
        · simp only [Turn.generation?, answer, polled, hpoll]
        · simp only [perform, hpoll]
        · simp only [perform, hpoll]
      · have hpoll : (x.debouncer.poll deliver generate now x.session x.world).value = _ :=
          Debouncer.value_poll_of_made hdue hcalm hsheet
        refine Or.inr ⟨?_, ?_, ?_⟩
        · simp only [Turn.generation?, answer, polled, hpoll]
        · simp only [perform, hpoll]
        · simp only [perform, hpoll]
  | cancel => exact Or.inl ⟨rfl, by simp [perform], rfl⟩
  | _ => exact Or.inl ⟨rfl, rfl, rfl⟩

/-- **The flushes of a run have the next generations**, one after the other. -/
theorem generations_after (x : Host κ ω) (calls : List (Call κ)) :
    ∃ count, (x.after deliver calls).debouncer.flushes = x.debouncer.flushes + count ∧
      x.generations deliver calls = List.range' (x.debouncer.flushes + 1) count := by
  induction calls generalizing x with
  | nil => exact ⟨0, rfl, rfl⟩
  | cons call rest ih =>
    obtain ⟨count, hflushes, hgenerations⟩ := ih (x.perform deliver call)
    rw [after, generations_cons, hgenerations, hflushes]
    rcases generation_cases hcalm x call with ⟨hnone, hsame, -⟩ | ⟨hsome, hnext, -⟩
    · rw [hnone, hsame]
      exact ⟨count, rfl, rfl⟩
    · rw [hsome, hnext]
      exact ⟨count + 1, by omega, rfl⟩

end Calm

/-! ## Who is there -/

/-- The subscribers are there in the order in which they came, and their numbers are their labels. -/
structure Enrolled (x : Host (Nat × κ) (ω × Book)) (count : Nat) : Prop where
  next : x.debouncer.nextSubscriber = count
  ordered : x.ids.Pairwise (· < ·)
  known : ∀ s ∈ x.debouncer.subscribers, s.1 < count ∧ s.2.1 = s.1
  book : ∀ entry ∈ x.world.2, entry.1 < count

section Enrolled

variable {deliver} {x : Host (Nat × κ) (ω × Book)} {count : Nat}

theorem Enrolled.lt_of_mem (hx : x.Enrolled count) {id : Nat} (h : id ∈ x.ids) : id < count := by
  obtain ⟨s, hs, rfl⟩ := List.mem_map.mp h
  exact (hx.known s hs).1

/-- The book says of a flush that those present were told, in the order in which they came. -/
theorem Enrolled.told (hx : x.Enrolled count) (generation : Nat) :
    (Debouncer.told (journaling deliver) generation x.debouncer.subscribers x.world).2 =
      x.world.2 ++ x.ids.map (·, generation) := by
  rw [told_journaling, ids, List.map_map]
  congr 1
  refine List.map_congr_left fun s hs => ?_
  rw [(hx.known s hs).2]
  rfl

/-- **Who is there after a call**: those who were, and the subscriber that it brings, but not the one
that it takes away. -/
theorem Enrolled.mem_ids_perform (deliver : κ → Nat → ω → Traced (Delivery × ω))
    (hx : x.Enrolled count) (call : Call κ) (id : Nat) :
    id ∈ (x.perform (journaling deliver) (call.labelled count)).ids ↔
      (call.joins = 1 ∧ id = count) ∨ (id ∈ x.ids ∧ call ≠ .unsubscribe id) := by
  obtain ⟨-, hsubscribers⟩ := subscribers_perform (journaling deliver) x (call.labelled count)
  rw [ids, hsubscribers]
  cases call with
  | subscribe subscriber => simp [Call.labelled, Call.joins, ids, hx.next, or_comm]
  | unsubscribe other => simp [Call.labelled, Call.joins, ids, @eq_comm _ other]
  | _ => simp [Call.labelled, Call.joins, ids]

theorem joins_labelled (call : Call κ) (label : Nat) : (call.labelled label).joins = call.joins := by
  cases call <;> rfl

section Calm

variable (hcalm : ∀ subscriber generation world message,
  (deliver subscriber generation world).value.1 ≠ .crashed message)
include hcalm

/-- **A call keeps the subscribers enrolled.** -/
theorem Enrolled.step (hx : x.Enrolled count) (call : Call κ) :
    (x.perform (journaling deliver) (call.labelled count)).Enrolled (count + call.joins) := by
  obtain ⟨hnext, hsubscribers⟩ := subscribers_perform (journaling deliver) x (call.labelled count)
  rw [hx.next, joins_labelled] at hnext
  rw [hx.next] at hsubscribers
  refine ⟨hnext, ?_, ?_, ?_⟩
  · rw [ids, hsubscribers]
    cases call with
    | subscribe subscriber =>
      simp only [Call.labelled, List.map_append, List.pairwise_append]
      refine ⟨hx.ordered, by simp, ?_⟩
      intro id hid later hlater
      rw [List.mem_singleton.mp hlater]
      exact hx.lt_of_mem hid
    | unsubscribe id => exact hx.ordered.sublist (List.filter_sublist.map _)
    | _ => exact hx.ordered
  · rw [hsubscribers]
    intro s hs
    cases call with
    | subscribe subscriber =>
      rcases List.mem_append.mp hs with hold | hnew
      · obtain ⟨hlt, hlabel⟩ := hx.known s hold
        exact ⟨Nat.lt_add_right _ hlt, hlabel⟩
      · rw [List.mem_singleton.mp hnew]
        exact ⟨Nat.lt_succ_self _, rfl⟩
    | unsubscribe id => exact hx.known s (List.mem_of_mem_filter hs)
    | _ => exact hx.known s hs
  · rcases generation_cases (journaling_calm hcalm) x (call.labelled count) with
      ⟨-, -, hworld⟩ | ⟨-, -, hworld⟩
    · rw [hworld]
      exact fun entry hentry => Nat.lt_add_right _ (hx.book entry hentry)
    · rw [hworld, hx.told]
      intro entry hentry
      rcases List.mem_append.mp hentry with hold | hnew
      · exact Nat.lt_add_right _ (hx.book entry hold)
      · obtain ⟨id, hid, rfl⟩ := List.mem_map.mp hnew
        exact Nat.lt_add_right _ (hx.lt_of_mem hid)

/-- **What a call adds for a subscriber**: the generation of the flush that it makes, if the
subscriber is there. -/
theorem Enrolled.received_step (hx : x.Enrolled count) (call : Call κ) (id : Nat) :
    received id (x.perform (journaling deliver) (call.labelled count)).world.2 =
      received id x.world.2 ++ if id ∈ x.ids then
        (Turn.generation? (journaling deliver) ⟨x, call.labelled count⟩).toList else [] := by
  rcases generation_cases (journaling_calm hcalm) x (call.labelled count) with
    ⟨hnone, -, hworld⟩ | ⟨hsome, -, hworld⟩
  · simp [hworld, hnone]
  · have hdistinct : x.ids.Nodup := hx.ordered.imp Nat.ne_of_lt
    have honce : x.ids.count id = if id ∈ x.ids then 1 else 0 := hdistinct.count
    rw [hworld, hx.told, received_append, received_map, honce, hsome]
    split <;> rfl

/-! ## Runs -/

theorem Enrolled.after (hx : x.Enrolled count) (calls : List (Call κ)) :
    (x.after (journaling deliver) (numbered count calls)).Enrolled (count + arrivals calls) := by
  induction calls generalizing x count with
  | nil => exact hx
  | cons call rest ih =>
    have hrest := ih (hx.step hcalm call)
    rw [Nat.add_assoc] at hrest
    exact hrest

/-- **While a subscriber stays** it is told of each flush. -/
theorem Enrolled.received_while_present (hx : x.Enrolled count) {id : Nat} (hid : id ∈ x.ids)
    {calls : List (Call κ)} (hstays : .unsubscribe id ∉ calls) :
    id ∈ (x.after (journaling deliver) (numbered count calls)).ids ∧
      received id (x.after (journaling deliver) (numbered count calls)).world.2 =
        received id x.world.2 ++ x.generations (journaling deliver) (numbered count calls) := by
  induction calls generalizing x count with
  | nil => exact ⟨hid, (List.append_nil _).symm⟩
  | cons call rest ih =>
    obtain ⟨hcall, hrest⟩ := not_or.mp (List.mem_cons.not.mp hstays)
    have hnext := (hx.mem_ids_perform deliver call id).mpr (Or.inr ⟨hid, Ne.symm hcall⟩)
    have hstep := hx.received_step hcalm call id
    obtain ⟨hlast, hreceived⟩ := ih (hx.step hcalm call) hnext hrest
    rw [if_pos hid] at hstep
    rw [numbered, Host.after, generations_cons, hreceived, hstep, List.append_assoc]
    exact ⟨hlast, rfl⟩

/-- **Once a subscriber has gone** it is told of nothing, and its number does not come back. -/
theorem Enrolled.received_once_gone (hx : x.Enrolled count) {id : Nat} (hid : id ∉ x.ids)
    (hlt : id < count) (calls : List (Call κ)) :
    received id (x.after (journaling deliver) (numbered count calls)).world.2 =
      received id x.world.2 := by
  induction calls generalizing x count with
  | nil => rfl
  | cons call rest ih =>
    have hnext : id ∉ (x.perform (journaling deliver) (call.labelled count)).ids := by
      rw [hx.mem_ids_perform deliver call id]
      rintro (⟨-, heq⟩ | ⟨hmem, -⟩)
      · omega
      · exact hid hmem
    have hstep := hx.received_step hcalm call id
    rw [if_neg hid, List.append_nil] at hstep
    rw [numbered, Host.after, ih (hx.step hcalm call) hnext (by omega), hstep]

theorem Enrolled.received_unsubscribe (hx : x.Enrolled count) {id : Nat} (hlt : id < count)
    (more : List (Call κ)) :
    received id (x.after (journaling deliver) (numbered count (.unsubscribe id :: more))).world.2 =
      received id x.world.2 := by
  have hgone : id ∉ (x.perform (journaling deliver) (.unsubscribe id)).ids := fun h => by
    rcases (hx.mem_ids_perform deliver (.unsubscribe id) id).mp h with ⟨hjoins, -⟩ | ⟨-, hne⟩
    · cases hjoins
    · exact hne rfl
  exact (hx.step hcalm (.unsubscribe id)).received_once_gone hcalm hgone hlt more

/-- **A subscriber is told of the flushes between its coming and its going**, and of no others. -/
theorem Enrolled.received_stay (hx : x.Enrolled count) (subscriber : κ) {since rest : List (Call κ)}
    (hstays : .unsubscribe count ∉ since)
    (hrest : rest = [] ∨ rest.head? = some (.unsubscribe count)) :
    received count (x.after (journaling deliver)
        (numbered count (.subscribe subscriber :: (since ++ rest)))).world.2 =
      x.generations (journaling deliver) (numbered count (.subscribe subscriber :: since)) := by
  have hpresent :=
    (hx.mem_ids_perform deliver (.subscribe subscriber) count).mpr (Or.inl ⟨rfl, rfl⟩)
  have hcame := hx.step hcalm (.subscribe subscriber)
  have hfinal := hcame.after hcalm since
  obtain ⟨-, hreceived⟩ := hcame.received_while_present hcalm hpresent hstays
  have hblank : received count (x.perform (journaling deliver)
      ((Call.subscribe subscriber).labelled count)).world.2 = [] := received_eq_nil hx.book
  rw [hblank, List.nil_append] at hreceived
  simp only [numbered, numbered_append, Host.after, after_append, generations_cons]
  refine Eq.trans ?_ hreceived
  rcases hrest with rfl | hhead
  · rfl
  · obtain ⟨more, rfl⟩ : ∃ more, rest = .unsubscribe count :: more := by
      cases rest with
      | nil => cases hhead
      | cons call more => exact ⟨more, by rw [Option.some.inj hhead]⟩
    exact hfinal.received_unsubscribe hcalm (by simp only [Call.joins]; omega) more

end Calm

end Enrolled

section Opening

variable {deliver : κ → Nat → ω → Traced (Delivery × ω)} {x₀ : Host (Nat × κ) (ω × Book)}
  {delay : Nat} (hnew : x₀.debouncer = .new delay) (hblank : x₀.world.2 = [])
include hnew hblank

theorem enrolled_opening : x₀.Enrolled 0 := by
  refine ⟨?_, ?_, ?_, ?_⟩ <;> simp [ids, hnew, hblank, Debouncer.new]

variable (hcalm : ∀ subscriber generation world message,
  (deliver subscriber generation world).value.1 ≠ .crashed message)
include hcalm

theorem enrolled_after (calls : List (Call κ)) :
    (x₀.after (journaling deliver) (numbered 0 calls)).Enrolled (arrivals calls) := by
  have h := (enrolled_opening hnew hblank).after hcalm calls
  rwa [Nat.zero_add] at h

omit hblank in
/-- The flushes of a run are numbered from 1. -/
theorem generations_run (calls : List (Call κ)) :
    x₀.generations (journaling deliver) (numbered 0 calls) =
      List.range' 1 (x₀.after (journaling deliver) (numbered 0 calls)).debouncer.flushes := by
  obtain ⟨count, hflushes, hgenerations⟩ :=
    generations_after (journaling_calm hcalm) x₀ (numbered 0 calls)
  have hzero : x₀.debouncer.flushes = 0 := by
    rw [hnew]
    rfl
  rw [hzero, Nat.zero_add] at hflushes hgenerations
  rw [hflushes, hgenerations]

/-- **Those present are those who came and have not gone since.** -/
theorem mem_ids_iff (calls : List (Call κ)) (id : Nat) :
    id ∈ (x₀.after (journaling deliver) (numbered 0 calls)).ids ↔
      ∃ before subscriber since, calls = before ++ .subscribe subscriber :: since ∧
        arrivals before = id ∧ .unsubscribe id ∉ since := by
  constructor
  · induction calls using List.reverseRecOn with
    | nil =>
      intro hid
      have := (enrolled_opening hnew hblank).lt_of_mem hid
      omega
    | append_singleton calls call ih =>
      intro hid
      have hcalls := enrolled_after hnew hblank hcalm calls
      rw [numbered_append, after_append, Nat.zero_add] at hid
      rcases (hcalls.mem_ids_perform deliver call id).mp hid with ⟨hjoins, heq⟩ | ⟨hmem, hstays⟩
      · cases call with
        | subscribe subscriber => exact ⟨calls, subscriber, [], rfl, heq.symm, List.not_mem_nil⟩
        | _ => cases hjoins
      · obtain ⟨before, subscriber, since, rfl, harrivals, hsince⟩ := ih hmem
        refine ⟨before, subscriber, since ++ [call], by simp, harrivals, ?_⟩
        simp [hsince, Ne.symm hstays]
  · rintro ⟨before, subscriber, since, rfl, rfl, hstays⟩
    have hbefore := enrolled_after hnew hblank hcalm before
    have hcame := (hbefore.mem_ids_perform deliver (.subscribe subscriber) (arrivals before)).mpr
      (Or.inl ⟨rfl, rfl⟩)
    have hlast := ((hbefore.step hcalm (.subscribe subscriber)).received_while_present hcalm hcame
      hstays).1
    rw [numbered_append, after_append, Nat.zero_add]
    exact hlast

end Opening

theorem generation?_of_flushed {x : Host κ ω} {generate : Generator} {now generation : Nat}
    (h : x.answer deliver generate now = .flushed generation) :
    Turn.generation? deliver ⟨x, .poll generate now⟩ = some generation := by
  simp only [Turn.generation?, h]

theorem arrivals_numbered (label : Nat) (calls : List (Call κ)) :
    arrivals (numbered label calls) = arrivals calls := by
  induction calls generalizing label with
  | nil => rfl
  | cons call rest ih =>
    rw [numbered, arrivals, arrivals, ih, joins_labelled]

/-- **Each subscriber is told of each flush once.**  Whatever calls a host gets and at whatever times,
with subscribers that may fail and flushes that may fail, but none that breaks off:

* the flushes that are made have the generations 1, 2, 3 and so on;
* subscribers are given the numbers 0, 1, 2 and so on;
* from its coming to its going, or to the end, a subscriber is told of exactly the flushes that are
  made, once each and in their order;
* those present are those who came and have not gone since, in the order in which they came;
* a flush is told to all those present, in that order, and a poll that makes no flush tells nobody;
* a subscriber that is taken away is the one with the number, if it is there. -/
theorem deliveries_of_run {deliver : κ → Nat → ω → Traced (Delivery × ω)}
    (hcalm : ∀ subscriber generation world message,
      (deliver subscriber generation world).value.1 ≠ .crashed message)
    {x₀ : Host (Nat × κ) (ω × Book)} {delay : Nat} (hnew : x₀.debouncer = .new delay)
    (hblank : x₀.world.2 = []) (calls : List (Call κ)) :
    let told := journaling deliver
    let run := fun calls : List (Call κ) => x₀.after told (numbered 0 calls)
    let generations := fun calls : List (Call κ) => x₀.generations told (numbered 0 calls)
    generations calls = List.range' 1 (run calls).debouncer.flushes ∧
    x₀.issued told (numbered 0 calls) = List.range (arrivals calls) ∧
    (∀ before subscriber since rest,
      calls = before ++ .subscribe subscriber :: (since ++ rest) →
      let id := arrivals before
      .unsubscribe id ∉ since → (rest = [] ∨ rest.head? = some (.unsubscribe id)) →
      ((run before).debouncer.subscribe (id, subscriber)).1 = id ∧
      generations before ++ received id (run calls).world.2 =
        generations (before ++ .subscribe subscriber :: since) ∧
      (received id (run calls).world.2).Pairwise (· < ·)) ∧
    ((run calls).ids.Pairwise (· < ·) ∧ ∀ id, id ∈ (run calls).ids ↔
      ∃ before subscriber since, calls = before ++ .subscribe subscriber :: since ∧
        arrivals before = id ∧ .unsubscribe id ∉ since) ∧
    (∀ generate now,
      let x := run calls
      let y := x.perform told (.poll generate now)
      (∀ generation, x.answer told generate now = .flushed generation →
        generation = x.debouncer.flushes + 1 ∧
        y.world.2 = x.world.2 ++ x.ids.map (·, generation)) ∧
      ((∀ generation, x.answer told generate now ≠ .flushed generation) →
        y.debouncer.flushes = x.debouncer.flushes ∧ y.world = x.world)) ∧
    ∀ id, (((run calls).debouncer.unsubscribe id).1 = true ↔ id ∈ (run calls).ids) ∧
      ((run calls).debouncer.unsubscribe id).2.subscribers.map (·.1) = (run calls).ids.erase id := by
  intro told run generations
  have hrun : ∀ calls, (run calls).Enrolled (arrivals calls) := enrolled_after hnew hblank hcalm
  refine ⟨?_, ?_, ?_, ⟨(hrun calls).ordered, mem_ids_iff hnew hblank hcalm calls⟩, ?_, ?_⟩
  · exact generations_run hnew hcalm calls
  · have hzero : x₀.debouncer.nextSubscriber = 0 := by rw [hnew]; rfl
    rw [issued_after, hzero, arrivals_numbered, List.range_eq_range']
  · intro before subscriber since rest hcalls id hstays hrest
    have hstay := (hrun before).received_stay hcalm subscriber hstays hrest
    have htold : generations before ++ received id (run calls).world.2 =
        generations (before ++ .subscribe subscriber :: since) := by
      simp only [run, generations, hcalls, numbered_append, after_append, generations_append,
        Nat.zero_add]
      rw [hstay]
    have hincreasing : (generations (before ++ .subscribe subscriber :: since)).Pairwise (· < ·) := by
      rw [show generations _ = _ from generations_run hnew hcalm _]
      exact List.pairwise_lt_range'
    rw [← htold] at hincreasing
    exact ⟨(hrun before).next, htold, (List.pairwise_append.mp hincreasing).2.1⟩
  · intro generate now x y
    have hcases := generation_cases (journaling_calm hcalm) x (.poll generate now)
    refine ⟨fun generation hanswer => ?_, fun hnever => ?_⟩
    · rw [generation?_of_flushed _ hanswer] at hcases
      rcases hcases with ⟨hnone, -⟩ | ⟨hsome, -, hworld⟩
      · cases hnone
      · have hgeneration := Option.some.inj hsome
        rw [hgeneration]
        exact ⟨rfl, (congrArg Prod.snd hworld).trans ((hrun calls).told _)⟩
    · rcases hcases with ⟨-, hflushes, hworld⟩ | ⟨hsome, -⟩
      · exact ⟨hflushes, hworld⟩
      · simp only [Turn.generation?] at hsome
        split at hsome
        · next generation hanswer => exact absurd hanswer (hnever generation)
        · cases hsome
  · intro id
    have hdistinct : (run calls).ids.Nodup := (hrun calls).ordered.imp Nat.ne_of_lt
    refine ⟨?_, ?_⟩
    · simp [Debouncer.unsubscribe, ids]
    · rw [hdistinct.erase_eq_filter, ids, List.filter_map]
      simp [Debouncer.unsubscribe, Function.comp_def, bne, beq_eq_decide]

/-- A subscriber that always fails and goes after a flush that has failed, one that stays, and one
that comes late. -/
theorem deliveries_of_run_changing :
    let deliver : Bool → Nat → Unit → Traced (Delivery × Unit) := fun fails _ _ =>
      pure (if fails then .failed (.ofText "no") else .done, ())
    let broken : Generator := fun _ => .error (.ofText "no css")
    let x₀ : Host (Nat × Bool) (Unit × Book) := ⟨.ofSession (Session.blank .watch), .new 0, ((), [])⟩
    let first : List (Call Bool) := [.subscribe false, .notify 0, .poll joinedRules 0,
      .session (.process ⟨⟨"a.ts"⟩, "strata", Session.oneRule⟩), .notify 1, .poll broken 1]
    let second : List (Call Bool) :=
      [.unsubscribe 0, .subscribe false, .notify 2, .poll joinedRules 2]
    let run := fun calls => x₀.after (journaling deliver) (numbered 0 calls)
    let book := (run (.subscribe true :: (first ++ second))).world.2
    received 0 book = [1] ∧ received 1 book = [1, 2] ∧ received 2 book = [2] ∧
      book = [(0, 1), (1, 1), (1, 2), (2, 2)] := by
  intro deliver broken x₀ first second run book
  have hcalm : ∀ subscriber generation world message,
      (deliver subscriber generation world).value.1 ≠ .crashed message := by
    intro subscriber generation world message
    cases subscriber <;> simp [deliver]
  have hbook : book = [(0, 1), (1, 1), (1, 2), (2, 2)] := by decide +kernel
  have hnew : x₀.debouncer = .new 0 := rfl
  have hblank : x₀.world.2 = [] := rfl
  obtain ⟨-, -, hstays, -⟩ := deliveries_of_run hcalm hnew hblank
    (.subscribe true :: (first ++ second))
  obtain ⟨-, hreceived, -⟩ := hstays [] true first second rfl (by simp [first, arrivals])
    (Or.inr rfl)
  have hgenerations : x₀.generations (journaling deliver) (numbered 0 (.subscribe true :: first)) =
      [1] := by decide +kernel
  have hnil : x₀.generations (journaling deliver) (numbered 0 []) = [] := rfl
  have hzero : arrivals ([] : List (Call Bool)) = 0 := rfl
  simp only [hnil, hzero, List.nil_append, hgenerations] at hreceived
  refine ⟨?_, ?_, ?_, hbook⟩
  · rw [← hreceived]
  · rw [hbook]
    rfl
  · rw [hbook]
    rfl

end LayeredCss.Host

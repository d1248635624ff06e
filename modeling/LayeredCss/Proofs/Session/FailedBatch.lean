import LayeredCss.Proofs.Session.StableBases
import LayeredCss.Proofs.Session.UpToBases

/-!
# A batch without a success

A batch takes slots for all its new files at once, from gaps and from the top, and files that come again
take them while others are being given back.  If no transform succeeds all slots are given back in the
end.  The order in which that happens has no part in it: the slots that are owned are those of the
history (`Pinned`), and they determine the others as long as slots are tidy.

One after the other the files leave as little behind, if they fail then too.  But they may be tried at
other bases: a new file behind one that fails gets the slot that this one gives back, and not the next
one, and at that base its transform may succeed.

* `process_cases_of_not_mutated`: what a file does that gets no new result;
* `process_of_not_mutated`, `processEach_of_not_mutated`: files one by one;
* `Ready.of_not_mutated`: the outcomes of a batch;
* `layers_of_not_mutated`: the layers after a batch;
* `failed_batch_leaves_no_trace`: nothing is left but the set of fallbacks;
* `not_processEach_like_failed_batch`: a batch that fails of files that do not fail one by one.
-/

namespace LayeredCss

/-- Whether the transform fails does not depend on the layer base. -/
def Transform.FailsAlike (transform : Transform) : Prop :=
  ∀ input base,
    (transform { input with layerBase := base }).outcome.isOk = (transform input).outcome.isOk

namespace Session

variable {s t : Session} {e : Entry}

/-- What becomes of a file that gets no new result, as far as it is known without the failure. -/
def withoutResult (s : Session) (e : Entry) : Outcome :=
  match s.filter.skip? e.file e.source with
  | some reason => .skipped reason
  | none =>
    match s.cached? e.file (.of e.source) with
    | some (code, diagnostics) => .unchanged code diagnostics
    | none => .fallback (fallbackCode s.config e.source) (.ofText "")

/-- The set of fallbacks after files that get no new results. -/
def fallbacksWithout (s : Session) (entries : List Entry) : OrderedSet FileId :=
  Outcome.marks s.fallbacks (entries.map (·.file)) (entries.map s.withoutResult)

theorem withoutResult_congr (hframed : Framed s t) (hstore : t.store = s.store) (e : Entry) :
    t.withoutResult e = s.withoutResult e := by
  have hcached : t.cached? e.file (.of e.source) = s.cached? e.file (.of e.source) :=
    cached?_congr (by rw [hstore]) _
  unfold withoutResult
  rw [hframed.filter, hframed.config, hcached]

theorem withoutResult_of_skipped {reason : SkipReason}
    (hskip : s.filter.skip? e.file e.source = some reason) :
    s.withoutResult e = .skipped reason := by
  unfold withoutResult
  rw [hskip]

theorem withoutResult_of_cached (hskip : s.filter.skip? e.file e.source = none)
    {answer : String × List Diagnostic} (hcached : s.cached? e.file (.of e.source) = some answer) :
    s.withoutResult e = .unchanged answer.1 answer.2 := by
  unfold withoutResult
  simp only [hskip, hcached]

theorem withoutResult_of_pending (hskip : s.filter.skip? e.file e.source = none)
    (hcached : s.cached? e.file (.of e.source) = none) :
    s.withoutResult e = .fallback (fallbackCode s.config e.source) (.ofText "") := by
  unfold withoutResult
  simp only [hskip, hcached]

/-- The fallbacks that there are have no part in what becomes of a file. -/
theorem withoutResult_withFallbacks (s : Session) (fallbacks : OrderedSet FileId) :
    withoutResult { s with fallbacks } = s.withoutResult := by
  have hframed : Framed s { s with fallbacks } := ⟨rfl, rfl, rfl, rfl, rfl, rfl⟩
  funext e
  exact withoutResult_congr hframed rfl e

/-! ## One file -/

/-- Ending a file gives no new result only if its transform has failed. -/
theorem failed_of_not_mutated {fingerprint : Fingerprint} {r : Reservation}
    {result : Except Failure Transform.Output} {next : Session} {outcome : Outcome}
    (h : (s.finish e.file e.source fingerprint r result).value = (outcome, next))
    (ho : outcome.mutated = false) : ∃ failure, result = .error failure := by
  cases result with
  | error failure => exact ⟨failure, rfl⟩
  | ok output =>
    rw [value_finish_ok] at h
    cases h
    cases ho

/-- What a file that gets no new result is told and leaves behind: the layers are as before, or what a
base of the file has been reserved of and given back to. -/
theorem process_cases_of_not_mutated {next : Session} {outcome : Outcome}
    (h : (s.process e.transform e.file e.source).value = (outcome, next))
    (ho : outcome.mutated = false) :
    outcome.bare = s.withoutResult e ∧ ∃ layers,
      next = { s with layers, fallbacks := outcome.mark e.file s.fallbacks } ∧
      (layers = s.layers ∨ s.filter.skip? e.file e.source = none ∧
        s.cached? e.file (.of e.source) = none ∧ ∃ r reserved,
          s.layers.reserve e.file = .ok (r, reserved) ∧ layers = reserved.release r) := by
  rcases s.process_cases e with ⟨reason, hskip, h'⟩ | ⟨hskip, ⟨answer, hcached, h'⟩ |
    ⟨hcached, ⟨failure, -, h'⟩ | ⟨r, reserved, hr, h'⟩⟩⟩ <;> rw [h] at h'
  · cases h'
    exact ⟨(withoutResult_of_skipped hskip).symm, _, rfl, Or.inl rfl⟩
  · cases h'
    exact ⟨(withoutResult_of_cached hskip hcached).symm, _, rfl, Or.inl rfl⟩
  · cases h'
    exact ⟨(withoutResult_of_pending hskip hcached).symm, _, rfl, Or.inl rfl⟩
  · obtain ⟨failure, hask⟩ := failed_of_not_mutated h'.symm ho
    rw [hask, value_finish_error] at h'
    cases h'
    exact ⟨(withoutResult_of_pending hskip hcached).symm, _, rfl,
      Or.inr ⟨hskip, hcached, r, reserved, hr, rfl⟩⟩

/-- A file that gets no new result is told what it would be told without its transform, and leaves the
store alone. -/
theorem bare_of_not_mutated {next : Session} {outcome : Outcome}
    (h : (s.process e.transform e.file e.source).value = (outcome, next))
    (ho : outcome.mutated = false) :
    outcome.bare = s.withoutResult e ∧ next.store = s.store := by
  obtain ⟨hbare, layers, rfl, -⟩ := process_cases_of_not_mutated h ho
  exact ⟨hbare, rfl⟩

/-- There is a slot for the file if it needs one. -/
def HasRoom (s : Session) (e : Entry) : Prop :=
  s.filter.skip? e.file e.source = none → s.cached? e.file (.of e.source) = none →
    s.layers.stableBase? e.file = none → s.layers.bases.size < Layers.capacity

/-- **A file that gets no new result** changes nothing but the set of fallbacks. -/
theorem process_of_not_mutated (hpolicy : s.layers.policy = .stable) (htidy : s.layers.Tidy)
    (hroom : s.HasRoom e) {next : Session} {outcome : Outcome}
    (h : (s.process e.transform e.file e.source).value = (outcome, next))
    (ho : outcome.mutated = false) :
    next = { s with fallbacks := outcome.mark e.file s.fallbacks } := by
  obtain ⟨-, layers, rfl, rfl | ⟨hskip, hcached, r, reserved, hr, rfl⟩⟩ :=
    process_cases_of_not_mutated h ho
  · rfl
  · rw [Layers.release_reserve htidy hpolicy hr (hroom hskip hcached)]

/-- The transform fails for the file at each base, if it is called. -/
def FailsOn (s : Session) (e : Entry) : Prop :=
  s.filter.skip? e.file e.source = none → s.cached? e.file (.of e.source) = none →
    ∀ base, ∃ failure, s.ask e base = .error failure

theorem FailsOn.congr (hframed : Framed s t) (hstore : t.store = s.store) (h : s.FailsOn e) :
    t.FailsOn e := by
  have hcached : t.cached? e.file (.of e.source) = s.cached? e.file (.of e.source) :=
    cached?_congr (by rw [hstore]) _
  unfold FailsOn at h ⊢
  rw [hframed.filter, hframed.ask, hcached]
  exact h

theorem FailsOn.of_failed (halike : e.transform.FailsAlike) {base : UInt32} {failure : Failure}
    (h : s.ask e base = .error failure) : s.FailsOn e := by
  intro _ _ other
  have hother : (s.ask e other).isOk = (s.ask e base).isOk :=
    halike ⟨e.source, e.file, base, s.theme, s.config.strict⟩ other
  cases hask : s.ask e other with
  | error failure' => exact ⟨failure', rfl⟩
  | ok output =>
    rw [hask, h] at hother
    cases hother

theorem FailsOn.not_mutated {next : Session} {outcome : Outcome} (hfails : s.FailsOn e)
    (h : (s.process e.transform e.file e.source).value = (outcome, next)) :
    outcome.mutated = false := by
  rcases s.process_cases e with ⟨reason, -, h'⟩ | ⟨hskip, ⟨answer, -, h'⟩ |
    ⟨hcached, ⟨failure, -, h'⟩ | ⟨r, layers, -, h'⟩⟩⟩ <;> rw [h] at h'
  · cases h'
    rfl
  · cases h'
    rfl
  · cases h'
    rfl
  · obtain ⟨failure, hask⟩ := hfails hskip hcached r.base
    rw [hask, value_finish_error] at h'
    cases h'
    rfl

/-- A file that gets no new result has failed if its transform was called. -/
theorem FailsOn.of_not_mutated (hpolicy : s.layers.policy = .stable)
    (halike : e.transform.FailsAlike) {next : Session} {outcome : Outcome}
    (h : (s.process e.transform e.file e.source).value = (outcome, next))
    (ho : outcome.mutated = false) : s.FailsOn e := by
  intro hskip hcached
  rcases s.process_cases e with ⟨reason, hskip', -⟩ | ⟨-, ⟨answer, hcached', -⟩ |
    ⟨-, ⟨failure, hr, -⟩ | ⟨r, layers, -, h'⟩⟩⟩
  · cases hskip'.symm.trans hskip
  · cases hcached'.symm.trans hcached
  · exact absurd hr (Layers.reserve_ne_error hpolicy)
  · rw [h] at h'
    obtain ⟨failure, hask⟩ := failed_of_not_mutated h'.symm ho
    exact FailsOn.of_failed halike hask hskip hcached

/-! ## Files one by one -/

/-- **Files that get no new results one by one** change nothing but the set of fallbacks. -/
theorem processEach_of_not_mutated {entries : List Entry} (hpolicy : s.layers.policy = .stable)
    (htidy : s.layers.Tidy) (hroom : ∀ e ∈ entries, s.HasRoom e)
    (ho : ∀ outcome ∈ (s.processEach entries).value.1, outcome.mutated = false) :
    (s.processEach entries).value.1.map Outcome.bare = entries.map s.withoutResult ∧
      (s.processEach entries).value.2 = { s with fallbacks := s.fallbacksWithout entries } := by
  induction entries generalizing s with
  | nil => exact ⟨rfl, rfl⟩
  | cons e rest ih =>
    cases hprocess : (s.process e.transform e.file e.source).value with
    | mk outcome next =>
      rw [value_processEach_cons hprocess] at ho ⊢
      obtain ⟨hfirst, hothers⟩ := List.forall_mem_cons.mp ho
      obtain ⟨hbare, -⟩ := bare_of_not_mutated hprocess hfirst
      have hnext := process_of_not_mutated hpolicy htidy (hroom e List.mem_cons_self) hprocess hfirst
      subst hnext
      obtain ⟨houtcomes, hlast⟩ := ih (s := { s with fallbacks := outcome.mark e.file s.fallbacks })
        hpolicy htidy (fun e' he' => hroom e' (List.mem_cons_of_mem _ he')) hothers
      rw [withoutResult_withFallbacks] at houtcomes
      refine ⟨?_, hlast.trans ?_⟩
      · rw [List.map_cons, List.map_cons, hbare, houtcomes]
      · rw [fallbacksWithout, fallbacksWithout, List.map_cons, List.map_cons, Outcome.marks, ← hbare,
          Outcome.mark_bare, withoutResult_withFallbacks]

theorem processEach_of_failsOn {entries : List Entry} (hfails : ∀ e ∈ entries, s.FailsOn e) :
    ∀ outcome ∈ (s.processEach entries).value.1, outcome.mutated = false := by
  induction entries generalizing s with
  | nil => exact fun outcome hmem => absurd hmem List.not_mem_nil
  | cons e rest ih =>
    obtain ⟨hfirst, hothers⟩ := List.forall_mem_cons.mp hfails
    cases hprocess : (s.process e.transform e.file e.source).value with
    | mk outcome next =>
      have ho := hfirst.not_mutated hprocess
      obtain ⟨-, hstore⟩ := bare_of_not_mutated hprocess ho
      rw [value_processEach_cons hprocess]
      refine List.forall_mem_cons.mpr ⟨ho, ih fun e' he' => ?_⟩
      exact (hothers e' he').congr (framed_process hprocess) hstore

theorem length_processEach (s : Session) (entries : List Entry) :
    (s.processEach entries).value.1.length = entries.length := by
  induction entries generalizing s with
  | nil => rfl
  | cons e rest ih =>
    rw [value_processEach_cons rfl, List.length_cons, List.length_cons, ih]

/-- The revision counts the files that get new results. -/
theorem revision_processEach (s : Session) (entries : List Entry) :
    (s.processEach entries).value.2.store.revision =
      s.store.revision + .ofNat ((s.processEach entries).value.1.countP (·.mutated)) := by
  induction entries generalizing s with
  | nil => exact (UInt64.add_zero _).symm
  | cons e rest ih =>
    cases hprocess : (s.process e.transform e.file e.source).value with
    | mk outcome next =>
      rw [value_processEach_cons hprocess, List.countP_cons, ih next]
      rcases store_process hprocess with ⟨ho, hstore⟩ | ⟨ho, record, hstore⟩
      · rw [hstore, ho, if_neg Bool.false_ne_true, Nat.add_zero]
      · have hrevision : next.store.revision = s.store.revision + 1 := by rw [hstore]; rfl
        rw [hrevision, ho, if_pos rfl, Nat.add_comm, UInt64.ofNat_add, ← UInt64.add_assoc]
        rfl

/-- **Files that leave the store as it was** have got no new results, if they are fewer than there are
revisions. -/
theorem not_mutated_of_store {entries : List Entry} (hfew : entries.length < UInt64.size)
    (h : (s.processEach entries).value.2.store = s.store) :
    ∀ outcome ∈ (s.processEach entries).value.1, outcome.mutated = false := by
  have hrevision := s.revision_processEach entries
  rw [h, eq_comm, UInt64.add_eq_left] at hrevision
  have hle : (s.processEach entries).value.1.countP (·.mutated) ≤ entries.length :=
    s.length_processEach entries ▸ List.countP_le_length
  have hzero : (s.processEach entries).value.1.countP (·.mutated) = 0 := by
    rw [← UInt64.toNat_ofNat_of_lt' (Nat.lt_of_le_of_lt hle hfew), hrevision]
    rfl
  exact fun outcome hmem => Bool.eq_false_iff.mpr (List.countP_eq_zero.mp hzero outcome hmem)

/-! ## A batch -/

/-- **One file of a prepared batch that gets no new result** is told what it would be told before the
batch, and leaves the store alone. -/
theorem Ready.failed_step {pending : List FileId} {result : BatchResult}
    {results : List (Entry × BatchResult)} (hready : Ready s pending ((e, result) :: results))
    (hpolicy : s.layers.policy = .stable) {b : Session} (hframed : Framed s b)
    (hstore : b.store = s.store) :
    ∃ outcome b' pending', (b.finishEntry e result).value = (outcome, b') ∧
      Ready s pending' results ∧ Framed s b' ∧ (outcome.mutated = false →
        outcome.bare = s.withoutResult e ∧ b'.store = s.store ∧
          (e.transform.FailsAlike → s.FailsOn e)) := by
  cases hready with
  | skipped hskip hrest =>
    refine ⟨_, b, pending, rfl, hrest, hframed, fun _ => ⟨?_, hstore, fun _ hskip' => ?_⟩⟩
    · exact (withoutResult_of_skipped hskip).symm
    · cases hskip.symm.trans hskip'
  | reused hskip _ hcached hrest =>
    refine ⟨_, b, pending, rfl, hrest, hframed, fun _ => ⟨?_, hstore, fun _ _ hcached' => ?_⟩⟩
    · exact (withoutResult_of_cached hskip hcached).symm
    · cases hcached.symm.trans hcached'
  | @attempted _ _ _ r hskip _ hcached _ _ hrest =>
    cases hask : s.ask e r.base with
    | error failure =>
      have hb : Framed b { b with
          layers := b.layers.release r, fallbacks := b.fallbacks.insert e.file () } :=
        ⟨rfl, rfl, rfl, rfl, Layers.policy_release _ _, rfl⟩
      refine ⟨_, _, e.file :: pending, rfl, hrest, hframed.trans hb,
        fun _ => ⟨?_, hstore, fun halike => .of_failed halike hask⟩⟩
      rw [withoutResult_of_pending hskip hcached, Outcome.bare, hframed.config]
    | ok output =>
      have hb : Framed b { b with
          layers := b.layers.settle output.nextLayer
          store := b.store.putRecord e.file (recordOf (.of e.source) r output)
          fallbacks := b.fallbacks.erase e.file } := ⟨rfl, rfl, rfl, rfl, rfl, rfl⟩
      refine ⟨_, _, e.file :: pending, value_finish_ok b e.file e.source _ r output, hrest,
        hframed.trans hb, fun ho => ?_⟩
      cases ho
  | deferred _ _ hrest =>
    cases hprocess : (b.process e.transform e.file e.source).value with
    | mk outcome b' =>
      refine ⟨outcome, b', pending, hprocess, hrest, hframed.trans (framed_process hprocess),
        fun ho => ?_⟩
      obtain ⟨hbare, hstore'⟩ := bare_of_not_mutated hprocess ho
      refine ⟨hbare.trans (withoutResult_congr hframed hstore e), hstore'.trans hstore, fun halike => ?_⟩
      have hfails : b.FailsOn e := .of_not_mutated (hframed.policy.trans hpolicy) halike hprocess ho
      exact hfails.congr hframed.symm hstore.symm

/-- **A prepared batch that gives no new results** tells each file what it would be told before the
batch, and the transforms that it has called have failed. -/
theorem Ready.of_not_mutated {b : Session} {pending : List FileId}
    {results : List (Entry × BatchResult)} (hready : Ready s pending results)
    (hpolicy : s.layers.policy = .stable) (hframed : Framed s b) (hstore : b.store = s.store)
    (ho : ∀ outcome ∈ (b.finishBatch results).value.1, outcome.mutated = false) :
    (b.finishBatch results).value.1.map Outcome.bare = (results.map (·.1)).map s.withoutResult ∧
      (b.finishBatch results).value.2.store = s.store ∧
      ∀ e ∈ results.map (·.1), e.transform.FailsAlike → s.FailsOn e := by
  induction results generalizing b pending with
  | nil => exact ⟨rfl, hstore, fun e hmem => absurd hmem List.not_mem_nil⟩
  | cons first rest ih =>
    obtain ⟨outcome, b', pending', hb, hrest, hframed', hnone⟩ :=
      hready.failed_step hpolicy hframed hstore
    rw [value_finishBatch_cons hb] at ho ⊢
    obtain ⟨hfirst, hothers⟩ := List.forall_mem_cons.mp ho
    obtain ⟨hbare, hstore', hfails⟩ := hnone hfirst
    obtain ⟨houtcomes, hlast, hfails'⟩ := ih hrest hframed' hstore' hothers
    refine ⟨?_, hlast, List.forall_mem_cons.mpr ⟨hfails, hfails'⟩⟩
    rw [List.map_cons, List.map_cons, List.map_cons, hbare, houtcomes]

/-! ## The layers -/

/-- A move that transforms nothing leaves counter and flag as they are. -/
theorem Move.layers_of_not_mutated {K : List FileId} {x y : Stage} {l : List Event}
    (m : Move K x l y) (hpolicy : x.session.layers.policy = .stable)
    (hl : ∀ event ∈ l, event.mutates = false) :
    y.session.layers.counter = x.session.layers.counter ∧
      y.session.layers.outstanding = x.session.layers.outstanding := by
  cases m with
  | note => exact ⟨rfl, rfl⟩
  | reuse => exact ⟨rfl, rfl⟩
  | reserve _ hr _ => exact ⟨Layers.counter_reserve hr, Layers.outstanding_reserve hpolicy hr⟩
  | refuse => exact ⟨rfl, rfl⟩
  | commit => cases hl _ List.mem_cons_self
  | release => exact ⟨Layers.counter_release _ _, Layers.outstanding_release hpolicy _⟩

theorem Moves.layers_of_not_mutated {K : List FileId} {x y : Stage} {l : List Event}
    (m : Moves K x l y) (hpolicy : x.session.layers.policy = .stable)
    (hl : ∀ event ∈ l, event.mutates = false) :
    y.session.layers.counter = x.session.layers.counter ∧
      y.session.layers.outstanding = x.session.layers.outstanding := by
  induction m with
  | nil x => exact ⟨rfl, rfl⟩
  | cons first _ ih =>
    obtain ⟨hcounter, hout⟩ := first.layers_of_not_mutated hpolicy fun event hevent =>
      hl event (List.mem_append_left _ hevent)
    obtain ⟨hcounter', hout'⟩ := ih (first.framed.policy.trans hpolicy) fun event hevent =>
      hl event (List.mem_append_right _ hevent)
    exact ⟨hcounter'.trans hcounter, hout'.trans hout⟩

/-- Events that transform nothing give no bases. -/
theorem gives_of_not_mutated {h l : List Event} (hl : ∀ event ∈ l, event.mutates = false)
    {file : FileId} {base : UInt32} : Gives (h ++ l) file base ↔ Gives h file base := by
  constructor
  · rintro ⟨e, result, hmem, hfile, hbase⟩
    rcases List.mem_append.mp hmem with hmem | hmem
    · exact ⟨e, result, hmem, hfile, hbase⟩
    · cases hl _ hmem
  · rintro ⟨e, result, hmem, hfile, hbase⟩
    exact ⟨e, result, List.mem_append_left _ hmem, hfile, hbase⟩

variable {s₀ : Session} {calls : List Call}

theorem fits_append {more : List Call} :
    s₀.Fits (calls ++ more) ↔ s₀.Fits calls ∧ (s₀.after calls).Fits more := by
  unfold Fits
  rw [turns_append]
  exact List.forall_mem_append

theorem tidy_after (h₀ : s₀.Starts .watch) (hfits : s₀.Fits calls) :
    (s₀.after calls).layers.Tidy :=
  (Layers.settled_iff_of_stable (policy_after h₀ calls)).mp (settled_after h₀ hfits)

/-- **A call that transforms nothing leaves the layers as they are**, whatever slots it has taken and
given back, and in whatever order. -/
theorem layers_of_not_mutated (h₀ : s₀.Starts .watch) {call : Call}
    (hfits : s₀.Fits (calls ++ [call]))
    (hl : ∀ event ∈ ((s₀.after calls).perform call).1, event.mutates = false) :
    ((s₀.after calls).perform call).2.layers = (s₀.after calls).layers := by
  have hpolicy := policy_after h₀ calls
  have hafter : s₀.after (calls ++ [call]) = ((s₀.after calls).perform call).2 := by
    rw [after_append]
    rfl
  have hhistory : s₀.history (calls ++ [call]) =
      s₀.history calls ++ ((s₀.after calls).perform call).1 := by
    rw [history_append]
    exact congrArg _ (List.append_nil _)
  have htidy := tidy_after h₀ (fits_append.mp hfits).1
  have htidy' := tidy_after h₀ hfits
  have hpinned := pinned_after h₀ calls
  have hpinned' := pinned_after h₀ (calls ++ [call])
  rw [hafter] at htidy' hpinned'
  rw [hhistory] at hpinned'
  -- the same files own the same slots, and so the same slots are free
  have hbases : ((s₀.after calls).perform call).2.layers.bases = (s₀.after calls).layers.bases := by
    refine OrderedMap.ext_find? fun file => Option.ext fun base => ?_
    exact hpinned'.stableBase?_iff.trans ((gives_of_not_mutated hl).trans hpinned.stableBase?_iff.symm)
  obtain ⟨hnext, hfree⟩ := htidy'.eq_of_bases htidy hbases
  have hrest : ((s₀.after calls).perform call).2.layers.counter = (s₀.after calls).layers.counter ∧
      ((s₀.after calls).perform call).2.layers.outstanding = (s₀.after calls).layers.outstanding := by
    rcases turn_cases ⟨s₀.after calls, call⟩ with m | ⟨file, -, -, hlast⟩ | ⟨generate, -, -, hlast⟩
    · exact m.layers_of_not_mutated hpolicy hl
    · exact ⟨congrArg (·.layers.counter) hlast, congrArg (·.layers.outstanding) hlast⟩
    · exact ⟨congrArg (·.layers.counter) hlast, congrArg (·.layers.outstanding) hlast⟩
  exact Layers.ext (Turn.policy ⟨s₀.after calls, call⟩) hrest.1 hnext hfree hbases hrest.2

/-- A file of a batch that has to be transformed and owns no slot comes to own one. -/
theorem Ready.fresh_of_new {pending : List FileId} {results : List (Entry × BatchResult)}
    (hready : Ready s pending results) {p : Entry × BatchResult} (hp : p ∈ results)
    (hskip : s.filter.skip? p.1.file p.1.source = none)
    (hcached : s.cached? p.1.file (.of p.1.source) = none)
    (hnew : s.layers.stableBase? p.1.file = none) :
    p.1.file ∈ pending ∨ p.1.file ∈ freshFiles results := by
  induction hready with
  | nil => cases hp
  | skipped hskip' _ ih =>
    rcases List.mem_cons.mp hp with rfl | hp
    · cases hskip'.symm.trans hskip
    · exact ih hp
  | reused _ _ hcached' _ ih =>
    rcases List.mem_cons.mp hp with rfl | hp
    · cases hcached'.symm.trans hcached
    · exact ih hp
  | @attempted pending results e r _ _ _ hr hfresh _ ih =>
    have hfreshFiles : e.file = p.1.file →
        p.1.file ∈ freshFiles ((e, .attempted (.of e.source) r (s.ask e r.base)) :: results) := by
      intro heq
      rw [freshFiles, hfresh, heq, hnew, hr, heq]
      exact List.mem_cons_self
    rcases List.mem_cons.mp hp with rfl | hp
    · exact Or.inr (hfreshFiles rfl)
    · rcases ih hp with hmem | hmem
      · rcases List.mem_cons.mp hmem with heq | hmem
        · exact Or.inr (hfreshFiles heq.symm)
        · exact Or.inl hmem
      · right
        unfold freshFiles
        split
        · exact List.mem_cons_of_mem _ hmem
        · exact hmem
  | deferred _ hold _ ih =>
    rcases List.mem_cons.mp hp with rfl | hp
    · exact Or.inl hold
    · exact ih hp

/-- If there are slots for a batch there is one for each of its files. -/
theorem hasRoom_of_fits {entries : List Entry} (hpolicy : s.layers.policy = .stable)
    (hfits : (s.prepareBatch [] entries).value.2.layers.bases.size ≤ Layers.capacity) :
    ∀ e ∈ entries, s.HasRoom e := by
  intro e he hskip hcached hnew
  obtain ⟨hready, hb⟩ := prepareBatch_ready (u := s) hpolicy rfl [] entries
  have hentries := map_fst_attemptBatch s (s.prepareBatch [] entries).value.1
  rw [map_fst_prepareBatch] at hentries
  rw [← hentries] at he
  obtain ⟨p, hp, rfl⟩ := List.mem_map.mp he
  obtain ⟨r, layers, hr⟩ := Layers.reserve_of_stable hpolicy p.1.file
  have hwithin : layers.Within (s.prepareBatch [] entries).value.2.layers.bases.keys := by
    intro file base hbase
    refine OrderedMap.mem_keys.mpr ((hb.owns file).mpr ?_)
    rcases Layers.stableBase?_of_reserve hr hbase with ⟨-, rfl⟩ | hold
    · exact Or.inl ((hready.fresh_of_new hp hskip hcached hnew).resolve_left List.not_mem_nil)
    · exact Or.inr (Option.isSome_iff_exists.mpr ⟨base, hold⟩)
  have hlt := size_lt_of_reserve hpolicy hr hwithin hnew
  rw [OrderedMap.length_keys] at hlt
  exact Nat.lt_of_lt_of_le hlt hfits

/-! ## Both ways -/

/-- Processing files reports outcomes, and nothing is transformed if they say so. -/
theorem events_not_mutated {entries : List Entry} {outcomes : List Outcome}
    (ho : ∀ outcome ∈ outcomes, outcome.mutated = false) :
    ∀ event ∈ List.zipWith Event.processed entries outcomes, event.mutates = false := by
  intro event hevent
  rw [← List.map_uncurry_zip_eq_zipWith] at hevent
  obtain ⟨p, hp, rfl⟩ := List.mem_map.mp hevent
  exact ho p.2 (List.of_mem_zip hp).2

theorem Framed.eq_of_layers_of_store (h : Framed s t) (hlayers : t.layers = s.layers)
    (hstore : t.store = s.store) : t = { s with fallbacks := t.fallbacks } := by
  obtain ⟨hlifecycle, hconfig, hfilter, htheme, -, hsheets⟩ := h
  rw [← hlifecycle, ← hconfig, ← hfilter, ← htheme, ← hsheets, ← hlayers, ← hstore]

/-- **A batch that gives no new results** changes nothing but the set of fallbacks, and the transforms
that it has called have failed. -/
theorem processEntries_of_not_mutated (h₀ : s₀.Starts .watch) (hs : s₀.after calls = s)
    {entries : List Entry} (hfits : s₀.Fits (calls ++ [.batch entries]))
    (ho : ∀ outcome ∈ (s.processEntries entries).value.1, outcome.mutated = false) :
    (s.processEntries entries).value.1.map Outcome.bare = entries.map s.withoutResult ∧
      (s.processEntries entries).value.2 = { s with fallbacks := s.fallbacksWithout entries } ∧
      ∀ e ∈ entries, e.transform.FailsAlike → s.FailsOn e := by
  have hpolicy : s.layers.policy = .stable := hs ▸ policy_after h₀ calls
  obtain ⟨b, results, hready, hb, hentries, hvalue⟩ := processEntries_ready hpolicy entries
  have ho' := ho
  rw [hvalue] at ho'
  obtain ⟨houtcomes, hstore, hfails⟩ := hready.of_not_mutated hpolicy hb.toFramed hb.store ho'
  rw [hentries] at hfails
  rw [hentries, ← hvalue] at houtcomes
  rw [← hvalue] at hstore
  have hframed : Framed s (s.processEntries entries).value.2 :=
    (processEntries_moves (Layers.within_keys (s.prepareBatch [] entries).value.2.layers)).framed
  have hlayers : (s.processEntries entries).value.2.layers = s.layers := by
    have hturn := layers_of_not_mutated h₀ hfits
    rw [hs, perform_batch rfl] at hturn
    exact hturn (events_not_mutated ho)
  refine ⟨houtcomes, (hframed.eq_of_layers_of_store hlayers hstore).trans ?_, hfails⟩
  rw [fallbacks_processEntries, ← Outcome.marks_bare, houtcomes]
  rfl

/-- **A failed batch leaves no trace.**  Whatever calls a watching session has had and whatever slots
are free in it, and whatever files come in the batch: if no transform that the batch calls succeeds,
then the session is afterwards what it was before, slots and counter included, but for the set of
fallbacks.  The files one after the other leave the same session behind, and are told the same, if none
of their transforms succeeds then either, as it is when failing does not depend on the base; all later
files get the same bases then.  Otherwise they leave another store behind. -/
theorem failed_batch_leaves_no_trace {s₀ s : Session} (h₀ : s₀.Starts .watch) {calls : List Call}
    (hs : s₀.after calls = s) (transform : Transform) (files : List (FileId × String))
    (hfits : s₀.Fits (calls ++ [.batch (entriesOf transform files)]))
    (hfailed : ∀ outcome ∈ (s.processBatch transform files).value.1, outcome.mutated = false) :
    let entries := entriesOf transform files
    let batch := (s.processBatch transform files).value
    let each := (s.processEach entries).value
    (batch.1.map Outcome.bare = entries.map s.withoutResult ∧
        batch.2 = { s with fallbacks := s.fallbacksWithout entries }) ∧
      ((transform.FailsAlike ∨ ∀ outcome ∈ each.1, outcome.mutated = false) →
        batch.1.map Outcome.bare = each.1.map Outcome.bare ∧ batch.2 = each.2) ∧
      (files.length < UInt64.size → batch.2.store = each.2.store →
        ∀ outcome ∈ each.1, outcome.mutated = false) := by
  intro entries batch each
  have hpolicy : s.layers.policy = .stable := hs ▸ policy_after h₀ calls
  obtain ⟨hearlier, hbatch⟩ := fits_append.mp hfits
  have htidy : s.layers.Tidy := hs ▸ tidy_after h₀ hearlier
  rw [hs] at hbatch
  have hroom : ∀ e ∈ entries, s.HasRoom e :=
    hasRoom_of_fits hpolicy (hbatch _ List.mem_cons_self)
  obtain ⟨houtcomes, hlast, hfails⟩ := processEntries_of_not_mutated h₀ hs hfits hfailed
  refine ⟨⟨houtcomes, hlast⟩, fun hcondition => ?_, fun hfew hstore => ?_⟩
  · have hnone : ∀ outcome ∈ each.1, outcome.mutated = false := by
      rcases hcondition with halike | hnone
      · refine processEach_of_failsOn fun e he => hfails e he ?_
        obtain ⟨f, -, rfl⟩ := List.mem_map.mp he
        exact halike
      · exact hnone
    obtain ⟨houtcomes', hlast'⟩ := processEach_of_not_mutated hpolicy htidy hroom hnone
    exact ⟨houtcomes.trans houtcomes'.symm, hlast.trans hlast'.symm⟩
  · have hlength : entries.length = files.length := List.length_map _
    have hstore' : each.2.store = s.store := hstore.symm.trans (congrArg (·.store) hlast)
    exact not_mutated_of_store (hlength ▸ hfew) hstore'

/-- A session in which a slot has been given back below one that is owned, and a batch that takes this
slot and others above: new files, one of them twice, a known one with a source that fails and with its
own, and files that are skipped and reused. -/
theorem failed_batch_leaves_no_trace_mixed :
    let transform : Transform := fun input =>
      if input.source = "strata!" then .failed (.ofText "no such style") else oneRule input
    let s := (blank .watch).after
      [.batch (entriesOf transform [(⟨"a.ts"⟩, "strata!"), (⟨"k.ts"⟩, "strata"), (⟨"l.ts"⟩, "strata")])]
    let files : List (FileId × String) := [(⟨"b.ts"⟩, "strata!"), (⟨"k.ts"⟩, "strata!"),
      (⟨"c.ts"⟩, "strata!"), (⟨"b.ts"⟩, "strata!"), (⟨"k.ts"⟩, "strata"), (⟨"d.css"⟩, "strata"),
      (⟨"l.ts"⟩, "strata")]
    transform.FailsAlike ∧ s.layers.freeSlots.keys = [0] ∧ s.layers.nextSlot = 3 ∧
      (s.prepareBatch [] (entriesOf transform files)).value.2.layers.nextSlot = 4 ∧
      (s.processBatch transform files).value.2.layers = s.layers ∧
      (s.processBatch transform files).value.2 =
        (s.processEach (entriesOf transform files)).value.2 ∧
      (s.processBatch transform files).value.2.fallbacks.keys =
        [⟨"a.ts"⟩, ⟨"b.ts"⟩, ⟨"c.ts"⟩] := by
  intro transform s files
  have hfits : (blank .watch).Fits
      ([.batch (entriesOf transform
        [(⟨"a.ts"⟩, "strata!"), (⟨"k.ts"⟩, "strata"), (⟨"l.ts"⟩, "strata")])] ++
        [.batch (entriesOf transform files)]) := by
    decide +kernel
  have halike : transform.FailsAlike := by
    intro input base
    by_cases hsource : input.source = "strata!" <;> simp only [transform, hsource] <;> rfl
  obtain ⟨⟨-, hbatch⟩, hlike, -⟩ := failed_batch_leaves_no_trace (starts_blank .watch) (s := s) rfl
    transform files hfits (by decide +kernel)
  obtain ⟨-, hsame⟩ := hlike (Or.inl halike)
  have hlayers : (s.processBatch transform files).value.2.layers = s.layers := by rw [hbatch]
  exact ⟨halike, by decide +kernel, by decide +kernel, by decide +kernel, hlayers, hsame,
    by decide +kernel⟩

/-- A transform that fails for one file, and for the others wherever it is not tried in the first
slot. -/
def inFirstSlot : Transform := fun input =>
  if input.file.name = "a.ts" ∨ 1000 ≤ input.layerBase then .failed (.ofText "no room")
  else oneRule input

/-- **A batch that fails of files that do not fail one after the other.**  In the batch the second file
is tried in the second slot and fails like the first one.  On its own it is tried in the slot that the
first file has given back, and succeeds: it has a record and a slot, and the next new file another
base. -/
theorem not_processEach_like_failed_batch :
    let s := blank .watch
    let files : List (FileId × String) := [(⟨"a.ts"⟩, "strata"), (⟨"b.ts"⟩, "strata")]
    let batch := (s.processBatch inFirstSlot files).value
    let each := (s.processEach (entriesOf inFirstSlot files)).value
    s.Starts .watch ∧ s.Fits [.batch (entriesOf inFirstSlot files)] ∧
      (∀ outcome ∈ batch.1, outcome.mutated = false) ∧
      each.1.map (·.mutated) = [false, true] ∧ batch.2.store ≠ each.2.store ∧
      batch.2.layers.nextSlot = 0 ∧ each.2.layers.nextSlot = 1 ∧
      (batch.2.layers.baseFor ⟨"c.ts"⟩).1 = 0 ∧ (each.2.layers.baseFor ⟨"c.ts"⟩).1 = 1000 ∧
      batch.2.fallbacks.keys = [⟨"a.ts"⟩, ⟨"b.ts"⟩] ∧ each.2.fallbacks.keys = [⟨"a.ts"⟩] := by
  exact ⟨starts_blank .watch, by decide +kernel, by decide +kernel, by decide +kernel,
    by decide +kernel, by decide +kernel, by decide +kernel, by decide +kernel, by decide +kernel,
    by decide +kernel, by decide +kernel⟩

end Session

end LayeredCss

import LayeredCss.Proofs.Session.Prepared

/-!
# The set of fallbacks and the outcomes

A file gets into the set of fallbacks when its transform fails, and out of it when one succeeds or its
earlier source comes back.  So the outcomes of files tell what becomes of the set.  In a batch a file
that is answered from its record leaves the set before the files ahead of it have been ended; but
nothing is done to it in between, or it would have had to wait.

* `fallbacks_process`: one file;
* `fallbacks_finishBatch`: a batch that has been prepared;
* `fallbacks_processEach`, `fallbacks_processEntries`: several files.
-/

namespace LayeredCss

/-- What an outcome of a file does to the set of fallbacks. -/
def Outcome.mark (file : FileId) (fallbacks : OrderedSet FileId) : Outcome → OrderedSet FileId
  | skipped _ => fallbacks
  | unchanged _ _ => fallbacks.erase file
  | transformed _ => fallbacks.erase file
  | fallback _ _ => fallbacks.insert file ()

/-- What outcomes of files do to the set of fallbacks, one after the other. -/
def Outcome.marks (fallbacks : OrderedSet FileId) : List FileId → List Outcome → OrderedSet FileId
  | file :: files, outcome :: outcomes => marks (outcome.mark file fallbacks) files outcomes
  | _, _ => fallbacks

/-- What an outcome does to one set it does to another that differs from it by other files. -/
theorem Outcome.mark_without {file : FileId} {fallbacks fallbacks' : OrderedSet FileId}
    {files : List FileId} (outcome : Outcome) (hfile : file ∉ files)
    (h : ∀ other, fallbacks'.contains other = true ↔
      other ∉ files ∧ fallbacks.contains other = true) (other : FileId) :
    (outcome.mark file fallbacks').contains other = true ↔
      other ∉ files ∧ (outcome.mark file fallbacks).contains other = true := by
  cases outcome with
  | skipped reason => exact h other
  | unchanged code diagnostics =>
    rw [mark, mark, OrderedMap.contains_erase, OrderedMap.contains_erase, h other, and_left_comm]
  | transformed result =>
    rw [mark, mark, OrderedMap.contains_erase, OrderedMap.contains_erase, h other, and_left_comm]
  | fallback code failure =>
    rw [mark, mark, OrderedMap.contains_insert, OrderedMap.contains_insert, h other]
    by_cases heq : file = other
    · simp [← heq, hfile]
    · simp [heq]

namespace Session

/-! ## One file -/

theorem fallbacks_finish {s next : Session} {e : Entry} {fingerprint : Fingerprint}
    {r : Reservation} {result : Except Failure Transform.Output} {outcome : Outcome}
    (h : (s.finish e.file e.source fingerprint r result).value = (outcome, next)) :
    next.fallbacks = outcome.mark e.file s.fallbacks := by
  cases result with
  | error failure =>
    rw [value_finish_error] at h
    cases h
    rfl
  | ok output =>
    rw [value_finish_ok] at h
    cases h
    rfl

/-- **The outcome of a file tells what becomes of the set of fallbacks.** -/
theorem fallbacks_process {s next : Session} {e : Entry} {outcome : Outcome}
    (h : (s.process e.transform e.file e.source).value = (outcome, next)) :
    next.fallbacks = outcome.mark e.file s.fallbacks := by
  rcases s.process_cases e with
    ⟨_, -, h'⟩ | ⟨-, ⟨_, -, h'⟩ | ⟨-, ⟨_, -, h'⟩ | ⟨r, layers, -, h'⟩⟩⟩ <;> rw [h] at h'
  · cases h'
    rfl
  · cases h'
    rfl
  · cases h'
    rfl
  · exact fallbacks_finish (s := { s with layers }) h'.symm

/-! ## Several files -/

theorem fallbacks_processEach (s : Session) (entries : List Entry) :
    (s.processEach entries).value.2.fallbacks =
      Outcome.marks s.fallbacks (entries.map (·.file)) (s.processEach entries).value.1 := by
  induction entries generalizing s with
  | nil => rfl
  | cons e rest ih =>
    cases hprocess : (s.process e.transform e.file e.source).value with
    | mk outcome next =>
      rw [value_processEach_cons hprocess, List.map_cons, Outcome.marks, ← fallbacks_process hprocess]
      exact ih next

/-- **The outcomes of a batch that has been prepared** tell what becomes of the set of fallbacks that
there was before the batch. -/
theorem fallbacks_finishBatch {s b : Session} {pending : List FileId}
    {results : List (Entry × BatchResult)} (hready : Ready s pending results)
    {fallbacks : OrderedSet FileId}
    (hb : ∀ file, b.fallbacks.contains file = true ↔
      file ∉ reusedFiles results ∧ fallbacks.contains file = true) :
    (b.finishBatch results).value.2.fallbacks =
      Outcome.marks fallbacks (results.map (·.1.file)) (b.finishBatch results).value.1 := by
  induction hready generalizing b fallbacks with
  | nil pending =>
    refine OrderedMap.ext_contains fun file => ?_
    rw [Bool.eq_iff_iff]
    exact (hb file).trans (and_iff_right List.not_mem_nil)
  | @skipped pending results e reason _ _ ih =>
    rw [value_finishBatch_cons (b.value_finishEntry_done e _), List.map_cons, Outcome.marks]
    exact ih hb
  | @reused pending results e answer _ _ _ _ ih =>
    rw [value_finishBatch_cons (b.value_finishEntry_done e _), List.map_cons, Outcome.marks]
    refine ih fun file => (hb file).trans ?_
    rw [Outcome.mark, OrderedMap.contains_erase, reusedFiles, List.mem_cons, not_or, and_left_comm,
      and_assoc, ne_comm]
  | @attempted pending results e r _ _ _ _ _ hrest ih =>
    obtain ⟨hnew, -⟩ := hrest.not_mem List.mem_cons_self
    cases hfinish : (b.finishEntry e (.attempted (.of e.source) r (s.ask e r.base))).value with
    | mk outcome next =>
      have hnext := fallbacks_finish hfinish
      rw [value_finishBatch_cons hfinish, List.map_cons, Outcome.marks]
      refine ih fun file => ?_
      rw [hnext]
      exact outcome.mark_without hnew hb file
  | @deferred pending results e _ hold hrest ih =>
    obtain ⟨hnew, -⟩ := hrest.not_mem hold
    cases hfinish : (b.finishEntry e .deferred).value with
    | mk outcome next =>
      have hnext := fallbacks_process hfinish
      rw [value_finishBatch_cons hfinish, List.map_cons, Outcome.marks]
      refine ih fun file => ?_
      rw [hnext]
      exact outcome.mark_without hnew hb file

/-- **The outcomes of files tell what becomes of the set of fallbacks**, in a batch and one by one. -/
theorem fallbacks_processEntries (s : Session) (entries : List Entry) :
    (s.processEntries entries).value.2.fallbacks =
      Outcome.marks s.fallbacks (entries.map (·.file)) (s.processEntries entries).value.1 := by
  cases hpolicy : s.layers.policy with
  | monotonic =>
    rw [value_processEntries_of_monotonic hpolicy]
    exact fallbacks_processEach s entries
  | stable =>
    obtain ⟨b, results, hready, hb, hentries, hvalue⟩ := processEntries_ready hpolicy entries
    have hfiles : results.map (·.1.file) = entries.map (·.file) := by
      rw [← hentries, List.map_map]
      rfl
    rw [hvalue, ← hfiles]
    exact fallbacks_finishBatch hready hb.marks

end Session

end LayeredCss

import LayeredCss.Proofs.Session.Run

/-!
# Records that answer in place of the transform

A file whose source is that of its record is answered from the record.  Here this is compared with a
session that never looks at its records and calls the transform each time (`Session.processAnew`).
What makes the two agree is that a record is what the transform gives for its source at the base that
the file owns (`Filed`): the transform would be asked the same again, its bound would not move the
counter, and the record would be put in its own place.  Only the revision of the store is another.

* `Filed.process`, `Filed.removeFile`: records stay what the transform gives;
* `processAnew_of_cached`: what calling the transform again for a cached source does;
* `process_like_processAnew`: the two sessions stay equal up to the revision.
-/

namespace LayeredCss

/-- Outcomes that give the bundler the same code and the same diagnostics. -/
inductive Outcome.Like : Outcome → Outcome → Prop
  | refl (outcome : Outcome) : Like outcome outcome
  | again {code : String} {diagnostics : List Diagnostic} {result : Transformed}
    (hcode : result.code = code) (hdiagnostics : result.diagnostics = diagnostics) :
    Like (.unchanged code diagnostics) (.transformed result)

namespace Session

/-- Processes one file without a look at its record: a file that is not skipped is transformed. -/
def processAnew (s : Session) (transform : Transform) (file : FileId) (source : String) :
    Traced (Outcome × Session) := do
  match ← s.screen file source with
  | some reason => return (.skipped reason, s)
  | none =>
    match s.layers.reserve file with
    | .error failure => s.fallBack file source failure
    | .ok (r, layers) => do
      let s := { s with layers }
      let result ← s.attempt transform source r
      s.finish file source (.of source) r result

/-- The session with another revision of its store. -/
def atRevision (s : Session) (revision : UInt64) : Session :=
  { s with store := { s.store with revision } }

variable {s : Session} {e : Entry}

theorem value_processAnew_of_skipped {reason : SkipReason}
    (h : s.filter.skip? e.file e.source = some reason) :
    (s.processAnew e.transform e.file e.source).value = (.skipped reason, s) := by
  simp [processAnew, h]

theorem value_processAnew_of_refused {failure : Failure}
    (h : s.filter.skip? e.file e.source = none) (hr : s.layers.reserve e.file = .error failure) :
    (s.processAnew e.transform e.file e.source).value =
      (.fallback (fallbackCode s.config e.source) failure,
        { s with fallbacks := s.fallbacks.insert e.file () }) := by
  simp [processAnew, h, hr]

theorem value_processAnew_of_reserved {r : Reservation} {layers : Layers}
    (h : s.filter.skip? e.file e.source = none)
    (hr : s.layers.reserve e.file = .ok (r, layers)) :
    (s.processAnew e.transform e.file e.source).value =
      (Session.finish { s with layers } e.file e.source (.of e.source) r
        (s.ask e r.base)).value := by
  simp [processAnew, h, hr, ask, Layers.reserve_file hr]

/-- A source that no record answers for is processed anew in any case. -/
theorem process_eq_processAnew (hcached : s.cached? e.file (.of e.source) = none) :
    (s.process e.transform e.file e.source).value =
      (s.processAnew e.transform e.file e.source).value := by
  rcases s.process_cases e with ⟨reason, hskip, h⟩ | ⟨hskip, ⟨answer, hanswer, -⟩ | ⟨-,
    ⟨failure, hr, h⟩ | ⟨r, layers, hr, h⟩⟩⟩
  · rw [h, value_processAnew_of_skipped hskip]
  · cases hcached.symm.trans hanswer
  · rw [h, value_processAnew_of_refused hskip hr]
  · rw [h, value_processAnew_of_reserved hskip hr]

/-- The revision of the store has no part in what is done with a file. -/
theorem processAnew_atRevision (s : Session) (e : Entry) (revision : UInt64) :
    ∃ outcome next revision', (s.processAnew e.transform e.file e.source).value = (outcome, next) ∧
      ((s.atRevision revision).processAnew e.transform e.file e.source).value =
        (outcome, next.atRevision revision') := by
  cases hskip : s.filter.skip? e.file e.source with
  | some reason =>
    exact ⟨_, _, revision, value_processAnew_of_skipped hskip, value_processAnew_of_skipped hskip⟩
  | none =>
    cases hr : s.layers.reserve e.file with
    | error failure =>
      exact ⟨_, _, revision, value_processAnew_of_refused hskip hr,
        value_processAnew_of_refused hskip hr⟩
    | ok made =>
      obtain ⟨r, layers⟩ := made
      rw [value_processAnew_of_reserved hskip hr,
        value_processAnew_of_reserved (s := s.atRevision revision) hskip hr]
      have hask : (s.atRevision revision).ask e r.base = s.ask e r.base := rfl
      rw [hask]
      cases s.ask e r.base with
      | error failure => exact ⟨_, _, revision, rfl, rfl⟩
      | ok output =>
        simp only [value_finish_ok]
        exact ⟨_, _, revision + 1, rfl, rfl⟩

/-- Nor in how a file is forgotten. -/
theorem removeFile_atRevision (s : Session) (file : FileId) (revision : UInt64) :
    ∃ revision', (s.atRevision revision).removeFile file =
      ((s.removeFile file).1, (s.removeFile file).2.atRevision revision') := by
  by_cases hknown : s.store.contains file = true
  · refine ⟨revision + 1, Prod.ext rfl ?_⟩
    have hknown' : (s.atRevision revision).store.contains file = true := hknown
    simp only [removeFile_eq, RuleStore.remove, if_pos hknown, if_pos hknown']
    rfl
  · refine ⟨revision, Prod.ext rfl ?_⟩
    have hknown' : ¬(s.atRevision revision).store.contains file = true := hknown
    simp only [removeFile_eq, RuleStore.remove, if_neg hknown, if_neg hknown']
    rfl

/-! ## Records -/

/-- **Each record is what the transform gives** for one of the sources, at the base that the file
owns, and its bound is not above the counter. -/
structure Filed (transform : Transform) (sources : List String) (s : Session) : Prop where
  policy : s.layers.policy = .stable
  record : ∀ file record, s.store.record? file = some record →
    s.layers.stableBase? file = some record.layerBase ∧ record.nextLayer ≤ s.layers.counter ∧
    ∃ source ∈ sources, ∃ output,
      s.ask ⟨file, source, transform⟩ record.layerBase = .ok output ∧
      record = recordOf (.of source) ⟨file, record.layerBase, false⟩ output

namespace Filed

variable {transform : Transform} {sources : List String}

theorem of_starts (h : s.Starts .watch) : Filed transform sources s := by
  obtain ⟨-, hlayers, hstore, -, -⟩ := h.fields
  refine ⟨by rw [hlayers]; rfl, fun file record hr => ?_⟩
  rw [hstore] at hr
  cases hr

variable (hs : Filed transform sources s)
include hs

/-- Records stay what they are while bases are kept and the counter does not go back. -/
theorem keep {t : Session} (hpolicy : t.layers.policy = s.layers.policy) (hask : t.ask = s.ask)
    (hstore : ∀ file record, t.store.record? file = some record →
      s.store.record? file = some record)
    (hbases : ∀ file record, s.store.record? file = some record →
      t.layers.stableBase? file = s.layers.stableBase? file)
    (hcounter : s.layers.counter ≤ t.layers.counter) : Filed transform sources t := by
  refine ⟨hpolicy.trans hs.policy, fun file record hr => ?_⟩
  obtain ⟨hbase, hnext, hsource⟩ := hs.record file record (hstore file record hr)
  rw [hbases file record (hstore file record hr), hask]
  exact ⟨hbase, UInt32.le_trans hnext hcounter, hsource⟩

/-- Reserving keeps the bases of the files that have records. -/
theorem stableBase?_reserve {file : FileId} {r : Reservation} {layers : Layers}
    (hr : s.layers.reserve file = .ok (r, layers)) {other : FileId} {record : FileRecord}
    (hrecord : s.store.record? other = some record) :
    layers.stableBase? other = s.layers.stableBase? other := by
  obtain ⟨hbase, -⟩ := hs.record other record hrecord
  rw [Layers.stableBase?_reserve_of_some hr hbase, hbase]

/-- **Processing a file keeps records what the transform gives.** -/
theorem process (file : FileId) {source : String} (hsource : source ∈ sources) :
    Filed transform sources (s.process transform file source).value.2 := by
  rcases s.process_cases ⟨file, source, transform⟩ with ⟨_, -, h⟩ | ⟨-, ⟨_, -, h⟩ | ⟨-,
    ⟨_, -, h⟩ | ⟨r, layers, hr, h⟩⟩⟩ <;> simp only at h <;> rw [h]
  · exact hs
  · exact hs.keep rfl rfl (fun _ _ hr => hr) (fun _ _ _ => rfl) (UInt32.le_refl _)
  · exact hs.keep rfl rfl (fun _ _ hr => hr) (fun _ _ _ => rfl) (UInt32.le_refl _)
  · have hpolicy := Layers.policy_reserve hr
    have hcounter := Layers.counter_reserve hr
    have hfile := Layers.reserve_file hr
    have hkept : ∀ other record, s.store.record? other = some record →
        layers.stableBase? other = s.layers.stableBase? other :=
      fun other record => hs.stableBase?_reserve hr
    cases hask : s.ask ⟨file, source, transform⟩ r.base with
    | error failure =>
      rw [value_finish_error]
      refine hs.keep ((Layers.policy_release _ _).trans hpolicy) rfl (fun _ _ h => h)
        (fun other record hrecord => ?_) ?_
      · rw [← hkept other record hrecord]
        refine (Layers.stableBase?_release (hpolicy.trans hs.policy) r other).trans (if_neg ?_)
        -- the file of a fresh reservation had no base, so it has no record
        rintro ⟨hfresh, hother⟩
        rcases Layers.reserve_cases hs.policy file with ⟨base, -, hr'⟩ | ⟨hnew, -⟩
        · cases hr.symm.trans hr'
          cases hfresh
        · obtain ⟨hbase, -⟩ := hs.record other record hrecord
          rw [← hother, hfile, hnew] at hbase
          cases hbase
      · rw [Layers.counter_release, hcounter]
        exact UInt32.le_refl _
    | ok output =>
      rw [value_finish_ok]
      refine ⟨hpolicy.trans hs.policy, fun other record hrecord => ?_⟩
      rw [RuleStore.record?_putRecord] at hrecord
      split at hrecord
      · next heq =>
        cases heq
        cases hrecord
        refine ⟨?_, Layers.le_counter_settle _ _, source, hsource, output, hask, rfl⟩
        refine (Layers.stableBase?_reserve hs.policy hr file).trans (if_pos rfl)
      · obtain ⟨hbase, hnext, hrest⟩ := hs.record other record hrecord
        refine ⟨(hkept other record hrecord).trans hbase, ?_, hrest⟩
        refine UInt32.le_trans hnext ?_
        rw [← hcounter]
        exact Layers.counter_le_settle _ _

theorem removeFile (file : FileId) : Filed transform sources (s.removeFile file).2 := by
  refine hs.keep rfl rfl (fun other record hr => ?_) (fun _ _ _ => rfl) (UInt32.le_refl _)
  rw [removeFile_eq, RuleStore.record?_remove] at hr
  split at hr
  · cases hr
  · exact hr

/-- **Calling the transform again for a cached source** gives the code and the diagnostics of the
record, and changes nothing but the revision, and the set of fallbacks as the record would. -/
theorem processAnew_of_cached {file : FileId} {source : String} {answer : String × List Diagnostic}
    (hcollide : ∀ other ∈ sources, Fingerprint.of source = .of other → source = other)
    (hskip : s.filter.skip? file source = none)
    (hcached : s.cached? file (.of source) = some answer) :
    ∃ result : Transformed, result.code = answer.1 ∧ result.diagnostics = answer.2 ∧
      (s.processAnew transform file source).value = (.transformed result,
        Session.atRevision { s with fallbacks := s.fallbacks.erase file }
          (s.store.revision + 1)) := by
  obtain ⟨record, hrecord, hfingerprint, hcode, hdiagnostics⟩ := cached?_eq_some.mp hcached
  obtain ⟨hbase, hnext, other, hother, output, hask, hfiled⟩ := hs.record file record hrecord
  rw [hfiled] at hfingerprint hcode hdiagnostics
  -- the record was made for this very source
  have hsource : source = other := hcollide other hother (Option.some.inj hfingerprint).symm
  subst hsource
  have hr : s.layers.reserve file = .ok (⟨file, record.layerBase, false⟩, s.layers) := by
    rcases Layers.reserve_cases hs.policy file with ⟨base, hbase', hr⟩ | ⟨hnew, -⟩
    · cases hbase.symm.trans hbase'
      exact hr
    · cases hbase.symm.trans hnew
  have hsettle : s.layers.settle output.nextLayer = s.layers := by
    rw [hfiled] at hnext
    exact Layers.settle_of_le hs.policy hnext
  have hput := RuleStore.putRecord_of_record? hrecord
  refine ⟨transformedOf ⟨file, record.layerBase, false⟩ output
    (Diagnostic.errors output.diagnostics).length, Option.some.inj hcode, hdiagnostics, ?_⟩
  rw [value_processAnew_of_reserved (e := ⟨file, source, transform⟩) hskip hr]
  simp only [hask, value_finish_ok, hsettle, ← hfiled, hput]
  rfl

end Filed

/-- **A session that looks at its records and one that does not stay equal up to the revision**, and
tell the bundler the same. -/
theorem Filed.process_like_processAnew {transform : Transform} {sources : List String}
    (hs : Filed transform sources s) (file : FileId) {source : String}
    (hcollide : ∀ other ∈ sources, Fingerprint.of source = .of other → source = other)
    (revision : UInt64) :
    ∃ outcome outcome' next revision', Outcome.Like outcome outcome' ∧
      (s.process transform file source).value = (outcome, next) ∧
      ((s.atRevision revision).processAnew transform file source).value =
        (outcome', next.atRevision revision') := by
  obtain ⟨outcome', next, revision', hanew, hanew'⟩ :=
    s.processAnew_atRevision ⟨file, source, transform⟩ revision
  cases hskip : s.filter.skip? file source with
  | some reason =>
    rw [value_processAnew_of_skipped (e := ⟨file, source, transform⟩) hskip] at hanew
    cases hanew
    exact ⟨_, _, _, _, .refl _, value_process_of_skipped hskip, hanew'⟩
  | none =>
    cases hcached : s.cached? file (.of source) with
    | none =>
      refine ⟨_, _, _, _, .refl _, ?_, hanew'⟩
      exact (process_eq_processAnew (e := ⟨file, source, transform⟩) hcached).trans hanew
    | some answer =>
      obtain ⟨result, hcode, hdiagnostics, hvalue⟩ :=
        hs.processAnew_of_cached hcollide hskip hcached
      cases hanew.symm.trans hvalue
      exact ⟨_, _, _, _, .again hcode hdiagnostics,
        value_process_of_done hskip (value_consider_of_cached hcached), hanew'⟩

end Session

end LayeredCss

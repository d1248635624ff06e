import LayeredCss.SourceFilter
import LayeredCss.Layers
import LayeredCss.Stylesheet
import LayeredCss.Transform

/-!
# Extraction sessions

A session owns the layers, the rule store and the stylesheet of one lifecycle.  A file that is
handed to it is skipped, or answered from its record, or transformed; a transform that fails falls
back to the source as it stands, and leaves layers and store as they were.

* `Session.process`: one file;
* `Session.processEntries`, `Session.processBatch`: several files; under the stable policy all bases
  are reserved first;
* `Session.removeFile`, `Session.stylesheet`.
-/

namespace LayeredCss

/-- A successful transform. -/
structure Transformed where
  code : String
  diagnostics : List Diagnostic
  /-- The number of errors among the diagnostics. -/
  errorCount : Nat
  hasDynamic : Bool
  layerBase : UInt32
  ruleCount : Nat
  deriving DecidableEq, Repr

/-- What becomes of a file. -/
inductive Outcome
  /-- The source is used as it is. -/
  | skipped (reason : SkipReason)
  /-- The source is the one of the last successful transform. -/
  | unchanged (code : String) (diagnostics : List Diagnostic)
  | transformed (result : Transformed)
  /-- The transform failed; the source is used, with styles made when the program runs. -/
  | fallback (code : String) (failure : Failure)
  deriving DecidableEq, Repr

namespace Outcome

/-- The code to compile, where it is not the source. -/
def code? : Outcome → Option String
  | skipped _ => none
  | unchanged code _ => some code
  | transformed result => some result.code
  | fallback code _ => some code

/-- Whether the rule store has changed. -/
def mutated : Outcome → Bool
  | transformed _ => true
  | _ => false

end Outcome

structure Session where
  lifecycle : Lifecycle
  config : Config
  filter : SourceFilter
  theme : Theme
  layers : Layers
  store : RuleStore
  sheets : SheetCache
  /-- The files whose last transform failed, until one succeeds, their earlier source comes back or
  they are forgotten. -/
  fallbacks : OrderedSet FileId

namespace Session

/-- Starts a session, unless an excluded glob cannot be read. -/
def new (lifecycle : Lifecycle) (config : Config) (theme : Theme) :
    Traced (Except Failure Session) := do
  match SourceFilter.ofConfig config with
  | .error failure => return .error failure
  | .ok filter =>
    let policy := lifecycle.layering
    let kind := lifecycle.name
    let layering := policy.name
    Traced.info s!"[strata] {kind} session started with {layering} layers"
    return .ok
      { lifecycle, config, filter, theme,
        layers := .new policy
        store := .empty
        sheets := .new config.annotateSources
        fallbacks := .empty }

/-! ## Before the transform -/

/-- What is known of a file before any transform. -/
inductive Prepared
  | done (outcome : Outcome)
  /-- The file has to be transformed. -/
  | pending (fingerprint : Fingerprint) (reservation : Reservation)

/-- Why a file is skipped, if it is. -/
def screen (s : Session) (file : FileId) (source : String) : Traced (Option SkipReason) := do
  match s.filter.skip? file source with
  | none => return none
  | some reason =>
    let name := reason.name
    Traced.debug s!"[strata] skipping {file}: {name}"
    return some reason

@[simp] theorem value_screen (s : Session) (file : FileId) (source : String) :
    (s.screen file source).value = s.filter.skip? file source := by
  unfold screen
  split <;> simp_all

/-- The code and the diagnostics of the last successful transform, if it was of this source. -/
def cached? (s : Session) (file : FileId) (fingerprint : Fingerprint) :
    Option (String × List Diagnostic) := do
  let record ← s.store.record? file
  if record.fingerprint = some fingerprint then
    return (← record.code, record.diagnostics)
  else none

/-- Only the record of the file has a part in what it is answered. -/
theorem cached?_congr {s t : Session} {file : FileId}
    (h : t.store.record? file = s.store.record? file) (fingerprint : Fingerprint) :
    t.cached? file fingerprint = s.cached? file fingerprint := by
  unfold cached?
  rw [h]

theorem cached?_eq_some {s : Session} {file : FileId} {fingerprint : Fingerprint}
    {answer : String × List Diagnostic} :
    s.cached? file fingerprint = some answer ↔ ∃ record, s.store.record? file = some record ∧
      record.fingerprint = some fingerprint ∧ record.code = some answer.1 ∧
      record.diagnostics = answer.2 := by
  unfold cached?
  cases hrecord : s.store.record? file with
  | none => simp
  | some record =>
    cases hcode : record.code with
    | none => simp [hcode]
    | some code =>
      by_cases hfingerprint : record.fingerprint = some fingerprint
      · simp [hcode, hfingerprint, Prod.ext_iff]
      · simp [hfingerprint]

/-- What a file without a result gets: its source, which imports the module that makes styles when
the program runs, unless it mentions that module already. -/
def fallbackCode (config : Config) (source : String) : String :=
  match config.fallbackImport with
  | none => source
  | some specifier =>
    if Text.includes specifier.toList source.toList then source
    else s!"import '{specifier}';\n{source}"

/-- Ends a file whose transform failed. -/
def fallBack (s : Session) (file : FileId) (source : String) (failure : Failure) :
    Traced (Outcome × Session) := do
  let text := failure.text
  Traced.error s!"[strata] Failed to transform {file}: {text}"
  return (.fallback (fallbackCode s.config source) failure,
    { s with fallbacks := s.fallbacks.insert file () })

@[simp] theorem value_fallBack (s : Session) (file : FileId) (source : String)
    (failure : Failure) :
    (s.fallBack file source failure).value = (.fallback (fallbackCode s.config source) failure,
      { s with fallbacks := s.fallbacks.insert file () }) := rfl

/-- Answers a file that has not been skipped from its record, or else reserves a base for it. -/
def consider (s : Session) (file : FileId) (source : String) : Traced (Prepared × Session) := do
  let fingerprint := Fingerprint.of source
  match s.cached? file fingerprint with
  | some (code, diagnostics) =>
    Traced.debug s!"[strata] {file} is unchanged, reusing previous transform"
    return (.done (.unchanged code diagnostics), { s with fallbacks := s.fallbacks.erase file })
  | none =>
    match s.layers.reserve file with
    | .ok (reservation, layers) =>
      return (.pending fingerprint reservation, { s with layers })
    | .error failure => do
      let (outcome, s) ← s.fallBack file source failure
      return (.done outcome, s)

theorem value_consider_of_cached {s : Session} {file : FileId} {source code : String}
    {diagnostics : List Diagnostic}
    (h : s.cached? file (.of source) = some (code, diagnostics)) :
    (s.consider file source).value =
      (.done (.unchanged code diagnostics), { s with fallbacks := s.fallbacks.erase file }) := by
  simp only [consider, h]
  rfl

theorem value_consider_of_reserved {s : Session} {file : FileId} {source : String}
    {r : Reservation} {layers : Layers} (h : s.cached? file (.of source) = none)
    (hr : s.layers.reserve file = .ok (r, layers)) :
    (s.consider file source).value = (.pending (.of source) r, { s with layers }) := by
  simp only [consider, h, hr]
  rfl

theorem value_consider_of_refused {s : Session} {file : FileId} {source : String}
    {failure : Failure} (h : s.cached? file (.of source) = none)
    (hr : s.layers.reserve file = .error failure) :
    (s.consider file source).value = (.done (.fallback (fallbackCode s.config source) failure),
      { s with fallbacks := s.fallbacks.insert file () }) := by
  simp only [consider, h, hr]
  rfl

/-! ## The transform and after -/

/-- Calls the transform for a file. -/
def attempt (s : Session) (transform : Transform) (source : String) (r : Reservation) :
    Traced (Except Failure Transform.Output) := do
  Traced.notice (.transformCall r.base r.file.name s.config.strict)
  return (transform ⟨source, r.file, r.base, s.theme, s.config.strict⟩).outcome

@[simp] theorem value_attempt (s : Session) (transform : Transform) (source : String)
    (r : Reservation) :
    (s.attempt transform source r).value =
      (transform ⟨source, r.file, r.base, s.theme, s.config.strict⟩).outcome := rfl

/-- The record of a file after a successful transform. -/
def recordOf (fingerprint : Fingerprint) (r : Reservation) (output : Transform.Output) :
    FileRecord where
  rules := output.cssTexts
  layerBase := r.base
  nextLayer := output.nextLayer
  fingerprint := some fingerprint
  code := some output.code
  diagnostics := output.diagnostics

/-- The result of a successful transform. -/
def transformedOf (r : Reservation) (output : Transform.Output) (errorCount : Nat) :
    Transformed where
  code := output.code
  diagnostics := output.diagnostics
  errorCount := errorCount
  hasDynamic := output.hasDynamic
  layerBase := r.base
  ruleCount := output.rules.length

/-- Settles the reservation of a file and records its rules, or falls back. -/
def finish (s : Session) (file : FileId) (source : String) (fingerprint : Fingerprint)
    (r : Reservation) : Except Failure Transform.Output → Traced (Outcome × Session)
  | .error failure =>
    { s with layers := s.layers.release r }.fallBack file source failure
  | .ok output => do
    let layers ← s.layers.commit r output.nextLayer
    let errorCount ← Diagnostic.report file output.diagnostics
    let ruleCount := output.rules.length
    let base := r.base
    let next := output.nextLayer
    Traced.debug s!"[strata] {file}: {ruleCount} rules at layers {base}..{next}"
    return (.transformed (transformedOf r output errorCount),
      { s with
        layers
        store := s.store.putRecord file (recordOf fingerprint r output)
        fallbacks := s.fallbacks.erase file })

@[simp] theorem value_finish_error (s : Session) (file : FileId) (source : String)
    (fingerprint : Fingerprint) (r : Reservation) (failure : Failure) :
    (s.finish file source fingerprint r (.error failure)).value =
      (.fallback (fallbackCode s.config source) failure,
        { s with
          layers := s.layers.release r
          fallbacks := s.fallbacks.insert file () }) := rfl

@[simp] theorem value_finish_ok (s : Session) (file : FileId) (source : String)
    (fingerprint : Fingerprint) (r : Reservation) (output : Transform.Output) :
    (s.finish file source fingerprint r (.ok output)).value =
      (.transformed (transformedOf r output (Diagnostic.errors output.diagnostics).length),
        { s with
          layers := s.layers.settle output.nextLayer
          store := s.store.putRecord file (recordOf fingerprint r output)
          fallbacks := s.fallbacks.erase file }) := by
  simp [finish]

/-! ## Files -/

/-- Processes one file. -/
def process (s : Session) (transform : Transform) (file : FileId) (source : String) :
    Traced (Outcome × Session) := do
  match ← s.screen file source with
  | some reason => return (.skipped reason, s)
  | none =>
    match ← s.consider file source with
    | (.done outcome, s) => return (outcome, s)
    | (.pending fingerprint r, s) => do
      let result ← s.attempt transform source r
      s.finish file source fingerprint r result

theorem value_process_of_skipped {s : Session} {transform : Transform} {file : FileId}
    {source : String} {reason : SkipReason} (h : s.filter.skip? file source = some reason) :
    (s.process transform file source).value = (.skipped reason, s) := by
  simp [process, h]

theorem value_process_of_done {s next : Session} {transform : Transform} {file : FileId}
    {source : String} {outcome : Outcome} (h : s.filter.skip? file source = none)
    (hc : (s.consider file source).value = (.done outcome, next)) :
    (s.process transform file source).value = (outcome, next) := by
  simp [process, h, hc]

theorem value_process_of_pending {s next : Session} {transform : Transform} {file : FileId}
    {source : String} {fingerprint : Fingerprint} {r : Reservation}
    (h : s.filter.skip? file source = none)
    (hc : (s.consider file source).value = (.pending fingerprint r, next)) :
    (s.process transform file source).value = (next.finish file source fingerprint r
      (transform ⟨source, r.file, r.base, next.theme, next.config.strict⟩).outcome).value := by
  simp [process, h, hc]

/-- A file that is handed to a session, with the transform as it answers for this file.  A transform
may answer differently from call to call, but it is called at most once for an entry. -/
structure Entry where
  file : FileId
  source : String
  transform : Transform

/-- Processes files one after the other. -/
def processEach (s : Session) : List Entry → Traced (List Outcome × Session)
  | [] => return ([], s)
  | e :: rest => do
    let (outcome, s) ← s.process e.transform e.file e.source
    let (outcomes, s) ← processEach s rest
    return (outcome :: outcomes, s)

theorem value_processEach_cons {s next : Session} {e : Entry} {outcome : Outcome}
    (h : (s.process e.transform e.file e.source).value = (outcome, next)) (rest : List Entry) :
    (s.processEach (e :: rest)).value =
      (outcome :: (next.processEach rest).value.1, (next.processEach rest).value.2) := by
  simp only [processEach, Traced.value_bind, Traced.value_pure, h]

/-- What is known of a file of a batch before any transform of the batch. -/
inductive BatchStep
  | prepared (p : Prepared)
  /-- The file is pending already and has to wait for that transform. -/
  | deferred

/-- What is known of a file of a batch after the transforms of the batch. -/
inductive BatchResult
  | done (outcome : Outcome)
  | attempted (fingerprint : Fingerprint) (reservation : Reservation)
      (result : Except Failure Transform.Output)
  | deferred

/-- Decides what becomes of a file of a batch before any transform of the batch.  `pending` holds the
files before it that are to be transformed. -/
def prepareEntry (s : Session) (pending : List FileId) (e : Entry) :
    Traced (BatchStep × Session) := do
  match ← s.screen e.file e.source with
  | some reason => return (.prepared (.done (.skipped reason)), s)
  | none =>
    if pending.contains e.file then return (.deferred, s)
    else do
      let (p, s) ← s.consider e.file e.source
      return (.prepared p, s)

theorem value_prepareEntry_of_skipped {s : Session} {e : Entry} {reason : SkipReason}
    (h : s.filter.skip? e.file e.source = some reason) (pending : List FileId) :
    (s.prepareEntry pending e).value = (.prepared (.done (.skipped reason)), s) := by
  simp [prepareEntry, h]

theorem value_prepareEntry_of_pending {s : Session} {e : Entry} {pending : List FileId}
    (h : s.filter.skip? e.file e.source = none) (hp : e.file ∈ pending) :
    (s.prepareEntry pending e).value = (.deferred, s) := by
  simp [prepareEntry, h, hp]

theorem value_prepareEntry_of_new {s : Session} {e : Entry} {pending : List FileId}
    (h : s.filter.skip? e.file e.source = none) (hp : e.file ∉ pending) :
    (s.prepareEntry pending e).value = (.prepared (s.consider e.file e.source).value.1,
      (s.consider e.file e.source).value.2) := by
  simp [prepareEntry, h, hp]

/-- The files that are to be transformed, with the file of this step if it is one of them. -/
def BatchStep.mark (file : FileId) (pending : List FileId) : BatchStep → List FileId
  | .prepared (.pending _ _) => file :: pending
  | _ => pending

/-- Prepares the files of a batch in their order. -/
def prepareBatch (s : Session) (pending : List FileId) :
    List Entry → Traced (List (Entry × BatchStep) × Session)
  | [] => return ([], s)
  | e :: rest => do
    let (step, s) ← s.prepareEntry pending e
    let (steps, s) ← prepareBatch s (step.mark e.file pending) rest
    return ((e, step) :: steps, s)

theorem value_prepareBatch_cons {s next : Session} {pending : List FileId} {e : Entry}
    {step : BatchStep} (h : (s.prepareEntry pending e).value = (step, next)) (rest : List Entry) :
    (s.prepareBatch pending (e :: rest)).value =
      ((e, step) :: (next.prepareBatch (step.mark e.file pending) rest).value.1,
        (next.prepareBatch (step.mark e.file pending) rest).value.2) := by
  simp only [prepareBatch, Traced.value_bind, Traced.value_pure, h]

theorem map_fst_prepareBatch (s : Session) (pending : List FileId) (entries : List Entry) :
    (s.prepareBatch pending entries).value.1.map (·.1) = entries := by
  induction entries generalizing s pending with
  | nil => rfl
  | cons e rest ih =>
    cases h : (s.prepareEntry pending e).value
    rw [value_prepareBatch_cons h, List.map_cons, ih]

/-- Calls the transform for a file of a batch if it is pending. -/
def attemptEntry (s : Session) (e : Entry) : BatchStep → Traced BatchResult
  | .prepared (.done outcome) => return .done outcome
  | .prepared (.pending fingerprint r) =>
    .attempted fingerprint r <$> s.attempt e.transform e.source r
  | .deferred => return .deferred

/-- Calls the transform for the files of a batch that are pending. -/
def attemptBatch (s : Session) :
    List (Entry × BatchStep) → Traced (List (Entry × BatchResult))
  | [] => return []
  | (e, step) :: rest => do
    let result ← s.attemptEntry e step
    let results ← attemptBatch s rest
    return (e, result) :: results

theorem value_attemptBatch_cons (s : Session) (e : Entry) (step : BatchStep)
    (rest : List (Entry × BatchStep)) :
    (s.attemptBatch ((e, step) :: rest)).value =
      (e, (s.attemptEntry e step).value) :: (s.attemptBatch rest).value := by
  simp only [attemptBatch, Traced.value_bind, Traced.value_pure]

theorem map_fst_attemptBatch (s : Session) (steps : List (Entry × BatchStep)) :
    (s.attemptBatch steps).value.map (·.1) = steps.map (·.1) := by
  induction steps with
  | nil => rfl
  | cons step rest ih => rw [value_attemptBatch_cons, List.map_cons, List.map_cons, ih]

/-- Ends a file of a batch; a file that had to wait is processed now. -/
def finishEntry (s : Session) (e : Entry) : BatchResult → Traced (Outcome × Session)
  | .done outcome => return (outcome, s)
  | .attempted fingerprint r result => s.finish e.file e.source fingerprint r result
  | .deferred => s.process e.transform e.file e.source

@[simp] theorem value_finishEntry_done (s : Session) (e : Entry) (outcome : Outcome) :
    (s.finishEntry e (.done outcome)).value = (outcome, s) := rfl

@[simp] theorem value_finishEntry_attempted (s : Session) (e : Entry) (fingerprint : Fingerprint)
    (r : Reservation) (result : Except Failure Transform.Output) :
    (s.finishEntry e (.attempted fingerprint r result)).value =
      (s.finish e.file e.source fingerprint r result).value := rfl

@[simp] theorem value_finishEntry_deferred (s : Session) (e : Entry) :
    (s.finishEntry e .deferred).value = (s.process e.transform e.file e.source).value := rfl

/-- Ends the files of a batch in their order. -/
def finishBatch (s : Session) : List (Entry × BatchResult) → Traced (List Outcome × Session)
  | [] => return ([], s)
  | (e, result) :: rest => do
    let (outcome, s) ← s.finishEntry e result
    let (outcomes, s) ← finishBatch s rest
    return (outcome :: outcomes, s)

theorem value_finishBatch_cons {s next : Session} {e : Entry} {result : BatchResult}
    {outcome : Outcome} (h : (s.finishEntry e result).value = (outcome, next))
    (rest : List (Entry × BatchResult)) :
    (s.finishBatch ((e, result) :: rest)).value =
      (outcome :: (next.finishBatch rest).value.1, (next.finishBatch rest).value.2) := by
  simp only [finishBatch, Traced.value_bind, Traced.value_pure, h]

/-- Processes several files.  Under the monotonic policy a base hangs on the file before, so they go
one after the other; under the stable policy all bases are reserved, then all files transformed, and
the results recorded in the order of the files. -/
def processEntries (s : Session) (entries : List Entry) : Traced (List Outcome × Session) := do
  match s.layers.policy with
  | .monotonic => s.processEach entries
  | .stable => do
    let (steps, s) ← s.prepareBatch [] entries
    let results ← s.attemptBatch steps
    s.finishBatch results

theorem value_processEntries_of_monotonic {s : Session} (h : s.layers.policy = .monotonic)
    (entries : List Entry) : (s.processEntries entries).value = (s.processEach entries).value := by
  simp only [processEntries, h]

theorem value_processEntries_of_stable {s next : Session} {entries : List Entry}
    {steps : List (Entry × BatchStep)} (h : s.layers.policy = .stable)
    (hprepare : (s.prepareBatch [] entries).value = (steps, next)) :
    (s.processEntries entries).value =
      (next.finishBatch (next.attemptBatch steps).value).value := by
  simp only [processEntries, h, Traced.value_bind, hprepare]

/-- Files that are all handed to one transform. -/
def entriesOf (transform : Transform) (files : List (FileId × String)) : List Entry :=
  files.map fun (file, source) => ⟨file, source, transform⟩

/-- Processes several files with one transform. -/
def processBatch (s : Session) (transform : Transform) (files : List (FileId × String)) :
    Traced (List Outcome × Session) :=
  s.processEntries (entriesOf transform files)

/-- Forgets a file that is gone, and tells whether there was a record of it. -/
def removeFile (s : Session) (file : FileId) : Bool × Session :=
  let (record, store) := s.store.takeRecord file
  (record.isSome, { s with fallbacks := s.fallbacks.erase file, store })

theorem removeFile_eq (s : Session) (file : FileId) : s.removeFile file = (s.store.contains file,
    { s with fallbacks := s.fallbacks.erase file, store := s.store.remove file }) := rfl

/-! ## The stylesheet -/

/-- The stylesheet of the rule store. -/
def stylesheet (s : Session) (generate : Generator) :
    Traced (Except Failure String × Session) := do
  let (result, sheets) ← s.sheets.refresh generate s.store
  return (result, { s with sheets })

/-- The text of the last stylesheet that could be made. -/
def lastGood? (s : Session) : Option String := s.sheets.lastGood.map (·.text)

/-- Whether the stylesheet has to be made anew. -/
def isStale (s : Session) : Bool := s.sheets.isStale s.store

end Session

end LayeredCss

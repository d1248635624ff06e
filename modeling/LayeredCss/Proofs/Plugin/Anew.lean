import LayeredCss.Proofs.Plugin.Calls
import LayeredCss.Proofs.Session.Reuse

/-!
# A plugin without fingerprints

A plugin that answers unchanged modules from its records is compared, call by call, with one that
transforms every module anew.  The bundler cannot tell them apart, except by the mark that the
stylesheet has changed; and the mark of the former is the one to trust, since its store has made a new
revision exactly when the mark is set.

* `Plugin.answerAnew`: what a plugin answers that does not look at its records;
* `Twin`: plugins that differ in the revision of the store alone;
* `answers_like_answersAnew`: the plugins stay twins and answer alike.
-/

namespace LayeredCss

namespace Plugin

/-- Processes a module without a look at its record. -/
def transformAnew (p : Plugin) (transformer : Transform) (moduleId code : String) :
    Traced (Option ModuleSource × Plugin) := do
  let file : FileId := ⟨moduleId⟩
  let (outcome, session) ← p.session.processAnew transformer file code
  let output ← p.outputOf file outcome
  return (output, { p with session })

theorem value_transformAnew {p : Plugin} {transformer : Transform} {moduleId code : String}
    {outcome : Outcome} {next : Session}
    (h : (p.session.processAnew transformer ⟨moduleId⟩ code).value = (outcome, next)) :
    (p.transformAnew transformer moduleId code).value =
      ((p.outputOf ⟨moduleId⟩ outcome).value, { p with session := next }) := by
  simp only [transformAnew, Traced.value_bind, Traced.value_pure, h]

/-- What a plugin answers to one call if it does not look at its records. -/
def answerAnew (transformer : Transform) (p : Plugin) : ModuleCall → ModuleAnswer × Plugin
  | .transform moduleId code =>
    let (output, next) := (p.transformAnew transformer moduleId code).value
    (.output output, next)
  | .remove moduleId =>
    let (known, next) := p.remove moduleId
    (.removed known, next)

variable {transformer : Transform} {p : Plugin}

theorem answerAnew_transform {moduleId code : String} {outcome : Outcome} {next : Session}
    (h : (p.session.processAnew transformer ⟨moduleId⟩ code).value = (outcome, next)) :
    p.answerAnew transformer (.transform moduleId code) =
      (.output (p.outputOf ⟨moduleId⟩ outcome).value, { p with session := next }) := by
  simp only [answerAnew, value_transformAnew h]

theorem answerAnew_remove {moduleId : String} {known : Bool} {next : Session}
    (h : p.session.removeFile ⟨moduleId⟩ = (known, next)) :
    p.answerAnew transformer (.remove moduleId) = (.removed known, { p with session := next }) := by
  simp only [answerAnew, remove, h]

/-! ## Twins -/

/-- Plugins that differ in the revision of the store alone. -/
def Twin (p q : Plugin) : Prop :=
  ∃ revision, q = { p with session := p.session.atRevision revision }

/-- Outcomes that are alike give outputs that differ in the mark alone. -/
theorem unmarked_outputOf (p : Plugin) (file : FileId) {outcome outcome' : Outcome}
    (h : Outcome.Like outcome outcome') (session : Session) :
    (ModuleAnswer.output (outputOf { p with session } file outcome').value).unmarked =
      (ModuleAnswer.output (p.outputOf file outcome).value).unmarked := by
  cases h with
  | refl => cases outcome <;> rfl
  | again hcode hdiagnostics =>
    subst hcode
    subst hdiagnostics
    rfl

/-- **One call keeps plugins twins**, and they answer it alike. -/
theorem Twin.answer {q : Plugin} (h : Twin p q) {sources : List String}
    (hfiled : p.session.Filed transformer sources) {call : ModuleCall}
    (hcodes : ModuleCall.codes [call] ⊆ sources)
    (hcollide : ∀ c ∈ sources, ∀ c' ∈ sources, Fingerprint.of c = .of c' → c = c') :
    ∃ first first' next next', p.answer transformer call = (first, next) ∧
      q.answerAnew transformer call = (first', next') ∧ first'.unmarked = first.unmarked ∧
      Twin next next' ∧ next.session.Filed transformer sources := by
  obtain ⟨revision, rfl⟩ := h
  cases call with
  | transform moduleId code =>
    have hcode : code ∈ sources := hcodes List.mem_cons_self
    have hnext := hfiled.process ⟨moduleId⟩ hcode
    obtain ⟨outcome, outcome', next, revision', hlike, hvalue, hvalue'⟩ :=
      hfiled.process_like_processAnew ⟨moduleId⟩ (hcollide code hcode) revision
    rw [hvalue] at hnext
    exact ⟨_, _, _, _, answer_transform hvalue, answerAnew_transform hvalue',
      p.unmarked_outputOf _ hlike _, ⟨revision', rfl⟩, hnext⟩
  | remove moduleId =>
    obtain ⟨revision', hremoved⟩ := p.session.removeFile_atRevision ⟨moduleId⟩ revision
    refine ⟨_, _, _, _, answer_remove rfl, answerAnew_remove hremoved, rfl, ⟨revision', rfl⟩,
      hfiled.removeFile ⟨moduleId⟩⟩

theorem Twin.answers {q : Plugin} (h : Twin p q) {sources : List String}
    (hfiled : p.session.Filed transformer sources) {calls : List ModuleCall}
    (hcodes : ModuleCall.codes calls ⊆ sources)
    (hcollide : ∀ c ∈ sources, ∀ c' ∈ sources, Fingerprint.of c = .of c' → c = c') :
    (answers (Plugin.answerAnew transformer) q calls).1.map ModuleAnswer.unmarked =
        (answers (Plugin.answer transformer) p calls).1.map ModuleAnswer.unmarked ∧
      Twin (answers (Plugin.answer transformer) p calls).2
        (answers (Plugin.answerAnew transformer) q calls).2 := by
  induction calls generalizing p q with
  | nil =>
    rw [answers_nil, answers_nil]
    exact ⟨rfl, h⟩
  | cons call rest ih =>
    have hsplit : ModuleCall.codes (call :: rest) =
        ModuleCall.codes [call] ++ ModuleCall.codes rest :=
      List.filterMap_append (l := [call])
    rw [hsplit, List.append_subset] at hcodes
    obtain ⟨first, first', next, next', hanswer, hanswer', hfirst, htwin, hnext⟩ :=
      h.answer hfiled hcodes.1 hcollide
    obtain ⟨hothers, hlast⟩ := ih htwin hnext hcodes.2
    rw [answers_cons hanswer, answers_cons hanswer']
    refine ⟨?_, hlast⟩
    rw [List.map_cons, List.map_cons, hfirst, hothers]

/-- **The records of a plugin cannot be seen.**  A plugin of a watching session answers any calls as
one that transforms every module anew, mark apart, and ends with the same records in the same order,
the same layers and the same fallbacks, if no two codes of the run have one fingerprint.  Its own mark
says of each call whether the store has made a new revision. -/
theorem answers_like_answersAnew {s₀ : Session} (h₀ : s₀.Starts .watch) (transformer : Transform)
    {calls : List ModuleCall}
    (hcollide : ∀ c ∈ ModuleCall.codes calls, ∀ c' ∈ ModuleCall.codes calls,
      Fingerprint.of c = .of c' → c = c') :
    let reusing := answers (answer transformer) (ofSession s₀) calls
    let anew := answers (answerAnew transformer) (ofSession s₀) calls
    anew.1.map ModuleAnswer.unmarked = reusing.1.map ModuleAnswer.unmarked ∧
    anew.2.session.store.records = reusing.2.session.store.records ∧
    anew.2.session.store.order = reusing.2.session.store.order ∧
    anew.2.session.layers = reusing.2.session.layers ∧
    anew.2.session.fallbacks = reusing.2.session.fallbacks ∧
    ∀ before call after, calls = before ++ call :: after →
      let met := (answers (answer transformer) (ofSession s₀) before).2
      ((met.answer transformer call).1.mutated = true ↔
        (met.answer transformer call).2.session.store.revision ≠ met.session.store.revision) := by
  intro reusing anew
  have htwin : Twin (ofSession s₀) (ofSession s₀) := ⟨s₀.store.revision, rfl⟩
  obtain ⟨hanswers, revision, hlast⟩ :=
    htwin.answers (Session.Filed.of_starts h₀) (List.Subset.refl _) hcollide
  have hlast : anew.2 = { reusing.2 with session := reusing.2.session.atRevision revision } := hlast
  refine ⟨hanswers, ?_, ?_, ?_, ?_, fun _ call _ _ => mutated_answer transformer _ call⟩
  · rw [hlast]; rfl
  · rw [hlast]; rfl
  · rw [hlast]; rfl
  · rw [hlast]; rfl

/-- A transform that fails on one source and finds one rule in every other. -/
def fussy : Transform := fun input =>
  if input.source = "strata?" then Session.failing input else Session.oneRule input

/-- A source that comes back after one that fails, and a module that is removed and comes back: one
answer is from a record and has no mark. -/
theorem answers_like_answersAnew_reverting :
    let p := ofSession (Session.blank .watch)
    let calls : List ModuleCall := [.transform "a.ts" "strata", .transform "a.ts" "strata?",
      .transform "a.ts" "strata", .remove "a.ts", .transform "a.ts" "strata"]
    (answers (answer fussy) p calls).1.map (·.mutated) = [true, false, false, true, true] ∧
    (answers (answerAnew fussy) p calls).1.map (·.mutated) = [true, false, true, true, true] ∧
    (answers (answerAnew fussy) p calls).1.map ModuleAnswer.unmarked =
      (answers (answer fussy) p calls).1.map ModuleAnswer.unmarked := by
  intro p calls
  have hcollide : ∀ c ∈ ModuleCall.codes calls, ∀ c' ∈ ModuleCall.codes calls,
      Fingerprint.of c = .of c' → c = c' := by decide +kernel
  obtain ⟨hanswers, -⟩ := answers_like_answersAnew (Session.starts_blank .watch) fussy hcollide
  exact ⟨by decide +kernel, by decide +kernel, hanswers⟩

end Plugin

end LayeredCss

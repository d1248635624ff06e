import LayeredCss.Plugin
import LayeredCss.Proofs.Session.Run

/-!
# Calls of the module hooks

A bundler hands modules to a plugin and takes them away.  The answer to a call is marked if the
stylesheet has changed, and whoever passes changes on relies on this mark.

* `Plugin.answer`, `Plugin.answers`: what a plugin answers to one call and to several;
* `mutated_answer`, `store_of_not_mutated`: the mark tells exactly whether the rule store has changed;
* `session_answer`: what a call does to the session.
-/

namespace LayeredCss

/-- The hooks by which a bundler hands modules to a plugin and takes them away. -/
inductive ModuleCall
  | transform (moduleId code : String)
  | remove (moduleId : String)
  deriving DecidableEq, Repr

/-- The codes that calls hand over. -/
def ModuleCall.codes (calls : List ModuleCall) : List String :=
  calls.filterMap fun
    | transform _ code => some code
    | remove _ => none

/-- What the session is asked for. -/
def ModuleCall.onSession (transformer : Transform) : ModuleCall → Session.Call
  | transform moduleId code => .process ⟨⟨moduleId⟩, code, transformer⟩
  | remove moduleId => .removeFile ⟨moduleId⟩

/-- What a plugin answers to a call. -/
inductive ModuleAnswer
  | output (source : Option ModuleSource)
  | removed (known : Bool)
  deriving DecidableEq, Repr

namespace ModuleAnswer

/-- Whether the answer says that the stylesheet has changed. -/
def mutated : ModuleAnswer → Bool
  | output source => source.any (·.mutated)
  | removed known => known

/-- The answer without the mark of an output. -/
def unmarked : ModuleAnswer → ModuleAnswer
  | output source => output (source.map fun m => { m with mutated := false })
  | removed known => removed known

end ModuleAnswer

namespace Plugin

/-- What a plugin answers to one call, and the plugin after it. -/
def answer (transformer : Transform) (p : Plugin) : ModuleCall → ModuleAnswer × Plugin
  | .transform moduleId code =>
    let (output, next) := (p.transform transformer moduleId code).value
    (.output output, next)
  | .remove moduleId =>
    let (known, next) := p.remove moduleId
    (.removed known, next)

/-- What a plugin answers to calls in this order, and the plugin after them. -/
def answers (one : Plugin → ModuleCall → ModuleAnswer × Plugin) (p : Plugin) :
    List ModuleCall → List ModuleAnswer × Plugin
  | [] => ([], p)
  | call :: rest =>
    let (first, next) := one p call
    let (others, last) := answers one next rest
    (first :: others, last)

theorem answers_nil (one : Plugin → ModuleCall → ModuleAnswer × Plugin) (p : Plugin) :
    answers one p [] = ([], p) := rfl

theorem answers_cons {one : Plugin → ModuleCall → ModuleAnswer × Plugin} {p next : Plugin}
    {call : ModuleCall} {first : ModuleAnswer} (h : one p call = (first, next))
    (rest : List ModuleCall) :
    answers one p (call :: rest) =
      (first :: (answers one next rest).1, (answers one next rest).2) := by
  simp only [answers, h]

variable {transformer : Transform} {p : Plugin}

theorem answer_transform {moduleId code : String} {outcome : Outcome} {next : Session}
    (h : (p.session.process transformer ⟨moduleId⟩ code).value = (outcome, next)) :
    p.answer transformer (.transform moduleId code) =
      (.output (p.outputOf ⟨moduleId⟩ outcome).value, { p with session := next }) := by
  simp only [answer, value_transform h]

theorem answer_remove {moduleId : String} {known : Bool} {next : Session}
    (h : p.session.removeFile ⟨moduleId⟩ = (known, next)) :
    p.answer transformer (.remove moduleId) = (.removed known, { p with session := next }) := by
  simp only [answer, remove, h]

/-! ## The mark -/

/-- **An answer is marked exactly if the store has made a new revision.** -/
theorem mutated_answer (transformer : Transform) (p : Plugin) (call : ModuleCall) :
    (p.answer transformer call).1.mutated = true ↔
      (p.answer transformer call).2.session.store.revision ≠ p.session.store.revision := by
  have hnew : ∀ revision : UInt64, revision + 1 ≠ revision := fun revision => by simp
  cases call with
  | transform moduleId code =>
    cases hvalue : (p.session.process transformer ⟨moduleId⟩ code).value with
    | mk outcome next =>
      rw [answer_transform hvalue]
      simp only [ModuleAnswer.mutated, mutated_outputOf]
      rcases Session.store_process (e := ⟨⟨moduleId⟩, code, transformer⟩) hvalue with
        ⟨ho, hstore⟩ | ⟨ho, record, hstore⟩
      · simp only [ho, hstore, Bool.false_eq_true, ne_eq, not_true_eq_false]
      · simp only [ho, hstore, RuleStore.putRecord, ne_eq, hnew, not_false_eq_true]
  | remove moduleId =>
    change p.session.store.contains ⟨moduleId⟩ = true ↔
      (p.session.store.remove ⟨moduleId⟩).revision ≠ p.session.store.revision
    unfold RuleStore.remove
    cases p.session.store.contains ⟨moduleId⟩ with
    | true => simp only [if_true, ne_eq, hnew, not_false_eq_true]
    | false => simp only [Bool.false_eq_true, if_false, ne_eq, not_true_eq_false]

/-- **A call whose answer has no mark changes nothing in the store.** -/
theorem store_of_not_mutated {call : ModuleCall}
    (h : (p.answer transformer call).1.mutated = false) :
    (p.answer transformer call).2.session.store = p.session.store := by
  rcases call with ⟨moduleId, code⟩ | moduleId
  · cases hvalue : (p.session.process transformer ⟨moduleId⟩ code).value with
    | mk outcome next =>
      rw [answer_transform hvalue] at h ⊢
      simp only [ModuleAnswer.mutated, mutated_outputOf] at h
      rcases Session.store_process (e := ⟨⟨moduleId⟩, code, transformer⟩) hvalue with
        ⟨-, hstore⟩ | ⟨ho, -⟩
      · exact hstore
      · rw [h] at ho
        cases ho
  · have hunknown : ¬p.session.store.contains ⟨moduleId⟩ = true := Bool.not_eq_true _ ▸ h
    exact if_neg hunknown

/-- **A call does to the session what it asks for.** -/
theorem session_answer (transformer : Transform) (p : Plugin) (call : ModuleCall) :
    (p.answer transformer call).2 =
      { p with session := (p.session.perform (call.onSession transformer)).2 } := by
  rcases call with ⟨moduleId, code⟩ | moduleId
  · cases hvalue : (p.session.process transformer ⟨moduleId⟩ code).value with
    | mk outcome next =>
      have hperform := Session.perform_process (e := ⟨⟨moduleId⟩, code, transformer⟩) hvalue
      rw [answer_transform hvalue, ModuleCall.onSession, hperform]
  · rfl

/-- The kept stylesheet is left alone. -/
theorem sheets_answer (transformer : Transform) (p : Plugin) (call : ModuleCall) :
    (p.answer transformer call).2.session.sheets = p.session.sheets := by
  rcases call with ⟨moduleId, code⟩ | moduleId
  · cases hvalue : (p.session.process transformer ⟨moduleId⟩ code).value with
    | mk outcome next =>
      rw [answer_transform hvalue]
      exact (Session.framed_process (e := ⟨⟨moduleId⟩, code, transformer⟩) hvalue).sheets
  · rfl

end Plugin

end LayeredCss

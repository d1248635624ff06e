import LayeredCss.Proofs.Session.Run

/-!
# What a history says

What a session has reported of its calls determines the rules that it should have: those of the
latest successful transform of each file that has not been removed since.  Here this is computed
from the history alone, without a session that stores anything.

* `live`: the files that have rules, in the order of their first transforms;
* `contents`: the rules of each of them;
* `page`: the stylesheet of such contents.

The lemmas `live_transformed`, `live_removed` and so on say what one more event adds.
-/

namespace LayeredCss.Session

namespace Event

/-- The file that an event has transformed. -/
def brings : Event → Option FileId
  | .processed e (.transformed _) => some e.file
  | _ => none

/-- Whether an event removes the file. -/
def removes (file : FileId) : Event → Bool
  | .removed other _ => other = file
  | _ => false

/-- The texts of the rules that an event brings for a file.  They are those of the output that the
transform gives at the base that is reported. -/
def texts? (s : Session) (file : FileId) : Event → Option (List String)
  | .processed e (.transformed result) =>
    if e.file = file then (s.ask e result.layerBase).toOption.map (·.cssTexts) else none
  | _ => none

/-- Whether an event changes the rule store. -/
def mutates : Event → Bool
  | .processed _ outcome => outcome.mutated
  | .removed _ known => known

/-- Whether the transform of an event has used no more layers than a slot has. -/
def narrow (s : Session) : Event → Bool
  | .processed e (.transformed result) =>
    match s.ask e result.layerBase with
    | .ok output => output.nextLayer.toNat ≤ result.layerBase.toNat + Layers.slotWidth
    | .error _ => true
  | _ => true

section NotMutated

variable {e : Entry} {outcome : Outcome} (ho : outcome.mutated = false)
include ho

theorem brings_of_not_mutated : (processed e outcome).brings = none := by
  cases outcome with
  | transformed => cases ho
  | _ => rfl

theorem texts?_of_not_mutated {s : Session} {file : FileId} :
    (processed e outcome).texts? s file = none := by
  cases outcome with
  | transformed => cases ho
  | _ => rfl

end NotMutated

end Event

/-- The files that have been transformed since they were last removed, in the order of their first
transforms since. -/
def live : List Event → List FileId
  | [] => []
  | event :: h =>
    match event.brings with
    | some file =>
      if h.any (·.removes file) then live h else file :: (live h).filter (· ≠ file)
    | none => live h

/-- The texts of the rules of the latest transform of a file. -/
def latest (s : Session) (file : FileId) (h : List Event) : List String :=
  (h.filterMap (·.texts? s file)).getLast?.getD []

/-- The files that have rules, with the texts of their rules. -/
def contents (s : Session) (h : List Event) : List (FileId × List String) :=
  (live h).map fun file => (file, latest s file h)

/-- The number of changes of the rule store. -/
def mutations (h : List Event) : Nat := h.countP (·.mutates)

/-- The stylesheet of contents: what `css` makes of all rules, and if wanted a comment for each file
that has some. -/
def page (css : List String → String) (annotate : Bool) (files : List (FileId × List String)) :
    String :=
  let rules := files.flatMap (·.2)
  let sources := (files.filter fun f => !f.2.isEmpty).map (·.1)
  if rules.isEmpty then ""
  else if annotate then
    css rules ++ ("\n" ++ String.join (sources.map fun file => s!"\n/* sourceMappingURL={file} */"))
  else css rules

/-! ## One more event -/

variable {s : Session} {h : List Event} {event : Event} {file : FileId}

theorem live_cons_of_none (hb : event.brings = none) : live (event :: h) = live h := by
  simp only [live, hb]

theorem live_cons_of_some (hb : event.brings = some file) :
    live (event :: h) =
      if h.any (·.removes file) then live h else file :: (live h).filter (· ≠ file) := by
  simp only [live, hb]

theorem any_removes_processed {e : Entry} {outcome : Outcome} :
    (h ++ [Event.processed e outcome]).any (·.removes file) = h.any (·.removes file) := by
  rw [List.any_append]
  exact Bool.or_false _

theorem any_removes_removed {other : FileId} {known : Bool} :
    (h ++ [Event.removed other known]).any (·.removes file) =
      (h.any (·.removes file) || decide (other = file)) := by
  rw [List.any_append, List.any_cons, List.any_nil, Bool.or_false, Event.removes]

theorem live_transformed {e : Entry} {result : Transformed} :
    live (h ++ [.processed e (.transformed result)]) =
      if e.file ∈ live h then live h else live h ++ [e.file] := by
  induction h with
  | nil => simp [live, Event.brings]
  | cons first h ih =>
    rw [List.cons_append]
    cases hb : first.brings with
    | none => rw [live_cons_of_none hb, live_cons_of_none hb, ih]
    | some g =>
      rw [live_cons_of_some hb, live_cons_of_some hb, any_removes_processed, ih]
      split
      · rfl
      · -- the file may be new to the rest of the history and yet be the first one
        by_cases heq : e.file = g
        · rw [heq]
          by_cases hmem : g ∈ live h <;> simp [hmem]
        · by_cases hmem : e.file ∈ live h <;> simp [hmem, heq]

theorem live_removed {known : Bool} :
    live (h ++ [.removed file known]) = (live h).filter (· ≠ file) := by
  induction h with
  | nil => rfl
  | cons first h ih =>
    rw [List.cons_append]
    cases hb : first.brings with
    | none => rw [live_cons_of_none hb, live_cons_of_none hb, ih]
    | some g =>
      rw [live_cons_of_some hb, live_cons_of_some hb, any_removes_removed, ih]
      cases hremoved : h.any (·.removes g) with
      | true => rfl
      | false =>
        by_cases heq : file = g
        · simp [heq, List.filter_filter]
        · simp [heq, Ne.symm heq, List.filter_filter, Bool.and_comm]

theorem mem_live_removed {other : FileId} {known : Bool} :
    other ∈ live (h ++ [.removed file known]) ↔ file ≠ other ∧ other ∈ live h := by
  rw [live_removed, List.mem_filter, decide_eq_true_iff, and_comm, ne_comm]

/-- Removing a file that is not there changes nothing. -/
theorem live_removed_of_not_mem {known : Bool} (hfile : file ∉ live h) :
    live (h ++ [.removed file known]) = live h := by
  rw [live_removed]
  refine List.filter_eq_self.mpr fun other hother => ?_
  exact decide_eq_true fun heq => hfile (heq ▸ hother)

theorem live_idle {e : Entry} {outcome : Outcome} (ho : outcome.mutated = false) :
    live (h ++ [.processed e outcome]) = live h := by
  induction h with
  | nil => exact live_cons_of_none (Event.brings_of_not_mutated ho)
  | cons first h ih =>
    rw [List.cons_append]
    cases hb : first.brings with
    | none => rw [live_cons_of_none hb, live_cons_of_none hb, ih]
    | some g => rw [live_cons_of_some hb, live_cons_of_some hb, any_removes_processed, ih]

theorem latest_append :
    latest s file (h ++ [event]) = (event.texts? s file).getD (latest s file h) := by
  unfold latest
  cases htexts : event.texts? s file <;>
    simp [htexts]

theorem mutations_append : mutations (h ++ [event]) = mutations h + event.mutates.toNat := by
  unfold mutations
  cases hm : event.mutates <;> simp [hm]

end LayeredCss.Session

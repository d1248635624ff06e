import LayeredCss.Failure
import LayeredCss.RuleStore

/-!
# The combined stylesheet

A generator, which is not part of this library, orders the rules by their layers and makes one text
of them.  The last text that was made is kept with the revision of the store, so that asking again
costs nothing, and a generator that fails takes nothing away.

* `SheetCache.refresh`: the stylesheet of a store;
* `SheetCache.isStale`: whether the store has changed since the last success.
-/

namespace LayeredCss

/-- Makes one text of rules, or fails. -/
abbrev Generator := List String → Except Failure String

/-- A generator that never fails. -/
def Generator.Total (generate : Generator) : Prop := ∀ rules, ∃ text, generate rules = .ok text

/-- The rules as they stand, with a text between them. -/
def joinRules (separator : String) : Generator := fun rules => .ok (separator.intercalate rules)

/-- The generator used where none is given: an empty line between rules. -/
def joinedRules : Generator := joinRules "\n\n"

/-- A complete stylesheet and the revision of the store that it was made from. -/
structure Stylesheet where
  text : String
  revision : UInt64
  deriving DecidableEq, Repr

/-- What is kept of the stylesheets that were made. -/
structure SheetCache where
  /-- Whether each contributing file is named in a comment at the end. -/
  annotate : Bool
  lastGood : Option Stylesheet
  deriving DecidableEq, Repr

namespace SheetCache

/-- Nothing has been made yet. -/
def new (annotate : Bool) : SheetCache := ⟨annotate, none⟩

/-- The comment that names a contributing file. -/
def annotation (file : FileId) : String := s!"\n/* sourceMappingURL={file} */"

/-- The comments behind the rules, after an empty line. -/
def annotations (files : List FileId) : String :=
  if files.isEmpty then "" else "\n" ++ String.join (files.map annotation)

/-- The stylesheet of a store, made from nothing. -/
def build (annotate : Bool) (generate : Generator) (s : RuleStore) : Except Failure String :=
  if s.allRules.isEmpty then .ok ""
  else do
    let css ← generate s.allRules
    return if annotate then css ++ annotations s.contributors else css

/-- The stylesheet that is kept, if the store has not changed since it was made. -/
def current? (a : SheetCache) (s : RuleStore) : Option Stylesheet :=
  a.lastGood.filter (·.revision = s.revision)

/-- Whether the store has changed since the last success. -/
def isStale (a : SheetCache) (s : RuleStore) : Bool := (a.current? s).isNone

/-- The stylesheet of a store: the one that is kept if it is current, else a new one, which is kept
if it could be made. -/
def refresh (a : SheetCache) (generate : Generator) (s : RuleStore) :
    Traced (Except Failure String × SheetCache) := do
  match a.current? s with
  | some sheet =>
    let revision := sheet.revision
    Traced.debug s!"[strata] aggregate is current at revision {revision}"
    return (.ok sheet.text, a)
  | none =>
    if !s.allRules.isEmpty then Traced.notice .generatorCall
    match build a.annotate generate s with
    | .error failure =>
      let text := failure.text
      Traced.error s!"[strata] stylesheet generation failed: {text}"
      return (.error failure, a)
    | .ok text => return (.ok text, { a with lastGood := some ⟨text, s.revision⟩ })

theorem current?_eq_some {a : SheetCache} {s : RuleStore} {sheet : Stylesheet} :
    a.current? s = some sheet ↔ a.lastGood = some sheet ∧ sheet.revision = s.revision := by
  simp [current?, Option.filter_eq_some_iff]

theorem value_refresh_of_current {a : SheetCache} {s : RuleStore} {sheet : Stylesheet}
    (h : a.current? s = some sheet) (generate : Generator) :
    (a.refresh generate s).value = (.ok sheet.text, a) := by
  simp only [refresh, h]
  rfl

theorem value_refresh_of_failed {a : SheetCache} {s : RuleStore} {generate : Generator}
    {failure : Failure} (h : a.current? s = none)
    (hbuild : build a.annotate generate s = .error failure) :
    (a.refresh generate s).value = (.error failure, a) := by
  simp only [refresh, h, hbuild]
  split <;> rfl

theorem value_refresh_of_made {a : SheetCache} {s : RuleStore} {generate : Generator}
    {text : String} (h : a.current? s = none) (hbuild : build a.annotate generate s = .ok text) :
    (a.refresh generate s).value =
      (.ok text, { a with lastGood := some ⟨text, s.revision⟩ }) := by
  simp only [refresh, h, hbuild]
  split <;> rfl

/-- A stylesheet that was made is kept. -/
theorem lastGood_of_refresh {a next : SheetCache} {s : RuleStore} {generate : Generator}
    {text : String} (h : (a.refresh generate s).value = (.ok text, next)) :
    next.lastGood = some ⟨text, s.revision⟩ := by
  cases hcurrent : a.current? s with
  | some sheet =>
    rw [value_refresh_of_current hcurrent] at h
    cases h
    obtain ⟨hlast, hrevision⟩ := current?_eq_some.mp hcurrent
    rw [hlast, ← hrevision]
  | none =>
    cases hbuild : build a.annotate generate s with
    | error failure =>
      rw [value_refresh_of_failed hcurrent hbuild] at h
      cases h
    | ok made =>
      rw [value_refresh_of_made hcurrent hbuild] at h
      cases h
      rfl

/-- A stylesheet that is kept answers until the store changes. -/
theorem refresh_of_lastGood {a : SheetCache} {s : RuleStore} {text : String}
    (h : a.lastGood = some ⟨text, s.revision⟩) (generate : Generator) :
    (a.refresh generate s).value = (.ok text, a) :=
  value_refresh_of_current (current?_eq_some.mpr ⟨h, rfl⟩) generate

/-- A generator that does not fail makes the stylesheet of every store. -/
theorem exists_refresh {generate : Generator} (h : generate.Total) (a : SheetCache)
    (s : RuleStore) :
    ∃ text next, (a.refresh generate s).value = (.ok text, next) := by
  cases hcurrent : a.current? s with
  | some sheet => exact ⟨_, _, value_refresh_of_current hcurrent generate⟩
  | none =>
    obtain ⟨css, hcss⟩ := h s.allRules
    have hbuild : ∃ text, build a.annotate generate s = .ok text := by
      unfold build
      rw [hcss]
      split
      · exact ⟨_, rfl⟩
      · exact ⟨_, rfl⟩
    obtain ⟨text, hbuild⟩ := hbuild
    exact ⟨_, _, value_refresh_of_made hcurrent hbuild⟩

end SheetCache

end LayeredCss

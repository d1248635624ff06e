import LayeredCss.Diagnostic
import LayeredCss.Fingerprint

/-!
# The rule store

What is remembered of each file: the rules that its last successful transform extracted, and what is
needed to answer for the same source again.  Files stand in the order of their first appearance.
Each change makes a new revision.
-/

namespace LayeredCss

/-- What is remembered of one file. -/
structure FileRecord where
  /-- The texts of the rules, in the order in which the transform gave them. -/
  rules : List String := []
  /-- The layer base that the rules were made with. -/
  layerBase : UInt32 := 0
  /-- The first layer behind those of the file. -/
  nextLayer : UInt32 := 0
  /-- The fingerprint of the source that was transformed. -/
  fingerprint : Option Fingerprint := none
  /-- The code to compile in place of the source. -/
  code : Option String := none
  /-- What the transform had to say. -/
  diagnostics : List Diagnostic := []
  deriving DecidableEq, Repr

structure RuleStore where
  /-- The files in the order of their first appearance. -/
  order : List FileId
  records : OrderedMap FileId FileRecord
  /-- The number of changes so far, modulo 2 ^ 64. -/
  revision : UInt64
  deriving DecidableEq

namespace RuleStore

/-- The store without files. -/
def empty : RuleStore := ⟨[], .empty, 0⟩

instance : Inhabited RuleStore := ⟨empty⟩

/-! ## Reading -/

def record? (s : RuleStore) (file : FileId) : Option FileRecord := s.records.find? file

def contains (s : RuleStore) (file : FileId) : Bool := s.records.contains file

/-- The rules of a file; none if it is unknown. -/
def rulesOf (s : RuleStore) (file : FileId) : List String :=
  ((s.record? file).map (·.rules)).getD []

/-- The files with their records, in the order of the files. -/
def toList (s : RuleStore) : List (FileId × FileRecord) :=
  s.order.filterMap fun file => (s.record? file).map (file, ·)

/-- The rules of all files, in the order of the files. -/
def allRules (s : RuleStore) : List String := s.toList.flatMap (·.2.rules)

/-- The files that have rules, in their order. -/
def contributors (s : RuleStore) : List FileId :=
  (s.toList.filter fun e => !e.2.rules.isEmpty).map (·.1)

/-- The number of rules of all files. -/
def ruleCount (s : RuleStore) : Nat := (s.records.values.flatMap (·.rules)).length

/-! ## Changing -/

/-- Replaces the record of a file.  A file that is new comes last. -/
def putRecord (s : RuleStore) (file : FileId) (record : FileRecord) : RuleStore where
  order := if s.contains file then s.order else s.order ++ [file]
  records := s.records.insert file record
  revision := s.revision + 1

/-- Replaces the rules of a file and keeps the rest of its record. -/
def put (s : RuleStore) (file : FileId) (rules : List String) : RuleStore :=
  s.putRecord file { (s.record? file).getD {} with rules }

/-- Forgets a file; a file that is unknown changes nothing. -/
def remove (s : RuleStore) (file : FileId) : RuleStore :=
  if s.contains file then
    ⟨s.order.filter (· ≠ file), s.records.erase file, s.revision + 1⟩
  else s

/-- Forgets a file, and gives the record that it had. -/
def takeRecord (s : RuleStore) (file : FileId) : Option FileRecord × RuleStore :=
  (s.record? file, s.remove file)

theorem contains_iff {s : RuleStore} {file : FileId} :
    s.contains file = true ↔ ∃ record, s.record? file = some record :=
  Option.isSome_iff_exists

/-- A store with rules has a file that contributes them. -/
theorem contributors_of_allRules {s : RuleStore} (h : ¬s.allRules.isEmpty = true) :
    s.contributors.isEmpty = false := by
  rw [allRules, List.isEmpty_iff, List.flatMap_eq_nil_iff] at h
  simp only [Classical.not_forall] at h
  obtain ⟨entry, hentry, hne⟩ := h
  rw [List.isEmpty_eq_false_iff_exists_mem]
  refine ⟨entry.1, List.mem_map.mpr ⟨entry, List.mem_filter.mpr ⟨hentry, ?_⟩, rfl⟩⟩
  rw [Bool.not_eq_true', List.isEmpty_eq_false_iff]
  exact hne

theorem record?_putRecord (s : RuleStore) (file : FileId) (record : FileRecord) (other : FileId) :
    (s.putRecord file record).record? other =
      if file = other then some record else s.record? other :=
  s.records.find?_insert file record other

theorem contains_putRecord {s : RuleStore} {file : FileId} {record : FileRecord} {other : FileId} :
    (s.putRecord file record).contains other = true ↔ file = other ∨ s.contains other = true :=
  OrderedMap.contains_insert

/-- Putting the record that a file has only makes a new revision. -/
theorem putRecord_of_record? {s : RuleStore} {file : FileId} {record : FileRecord}
    (h : s.record? file = some record) :
    s.putRecord file record = { s with revision := s.revision + 1 } := by
  unfold putRecord
  rw [if_pos (contains_iff.mpr ⟨record, h⟩), OrderedMap.insert_of_find? h]

/-- A file that is known keeps its place. -/
theorem order_putRecord {s : RuleStore} {file : FileId} (h : s.contains file = true)
    (record : FileRecord) : (s.putRecord file record).order = s.order := if_pos h

/-- Records of two files that are known may be put in either order. -/
theorem putRecord_comm {s : RuleStore} {file other : FileId} (hne : file ≠ other)
    (hfile : s.contains file = true) (hother : s.contains other = true)
    (record record' : FileRecord) :
    (s.putRecord file record).putRecord other record' =
      (s.putRecord other record').putRecord file record := by
  have hfile' : (s.putRecord other record').contains file = true :=
    contains_putRecord.mpr (Or.inr hfile)
  have hother' : (s.putRecord file record).contains other = true :=
    contains_putRecord.mpr (Or.inr hother)
  have horder : ((s.putRecord file record).putRecord other record').order =
      ((s.putRecord other record').putRecord file record).order := by
    rw [order_putRecord hother', order_putRecord hfile, order_putRecord hfile',
      order_putRecord hother]
  exact (RuleStore.mk.injEq ..).mpr ⟨horder, s.records.insert_comm record record' hne, rfl⟩

theorem record?_remove (s : RuleStore) (file other : FileId) :
    (s.remove file).record? other = if file = other then none else s.record? other := by
  unfold remove
  split
  · exact s.records.find?_erase file other
  · next h =>
    split
    · next heq =>
      rw [contains_iff, heq] at h
      exact Option.eq_none_iff_forall_ne_some.mpr fun record hr => h ⟨record, hr⟩
    · rfl

/-- Removing a file leaves the other files in their order, with their records. -/
theorem toList_remove (s : RuleStore) (file : FileId) :
    (s.remove file).toList = s.toList.filter (·.1 ≠ file) := by
  unfold toList
  rw [List.filter_filterMap]
  cases hknown : s.contains file with
  | true =>
    have horder : (s.remove file).order = s.order.filter (· ≠ file) := by rw [remove, if_pos hknown]
    rw [horder, List.filterMap_filter]
    refine congrArg (List.filterMap · s.order) (funext fun other => ?_)
    rw [record?_remove]
    by_cases hfile : file = other
    · cases s.record? other <;> simp [hfile, Option.filter]
    · cases s.record? other <;> simp [hfile, Ne.symm hfile, Option.filter]
  | false =>
    have hsame : s.remove file = s := by rw [remove, if_neg (by simp [hknown])]
    rw [hsame]
    refine congrArg (List.filterMap · s.order) (funext fun other => ?_)
    cases hrecord : s.record? other with
    | none => rfl
    | some record =>
      have hfile : other ≠ file := by
        rintro rfl
        rw [contains_iff.mpr ⟨record, hrecord⟩] at hknown
        cases hknown
      simp [hfile, Option.filter]

/-- Putting a record of a file that is known replaces its record in its place. -/
theorem toList_putRecord {s : RuleStore} {file : FileId} (h : s.contains file = true)
    (record : FileRecord) : (s.putRecord file record).toList =
      s.toList.map fun entry => if entry.1 = file then (file, record) else entry := by
  unfold toList
  rw [List.map_filterMap, order_putRecord h]
  refine congrArg (List.filterMap · s.order) (funext fun other => ?_)
  rw [record?_putRecord]
  by_cases hfile : file = other
  · subst hfile
    obtain ⟨known, hknown⟩ := contains_iff.mp h
    simp [hknown]
  · cases s.record? other <;> simp [hfile, Ne.symm hfile]

theorem contains_remove {s : RuleStore} {file other : FileId} :
    (s.remove file).contains other = true ↔ file ≠ other ∧ s.contains other = true := by
  rw [contains_iff, contains_iff, record?_remove]
  by_cases h : file = other <;> simp [h]

end RuleStore

end LayeredCss

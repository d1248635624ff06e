import LayeredCss.RuleStore
import Mathlib.Data.List.Nodup

/-!
# Changes of the rule store

A store keeps the order of its files apart from their records, and each change has to bring both up to
date.  What a change may rely on and leaves behind is that they are in step (`RuleStore.InStep`): the
order names each file once, and just the files that have records.

* `RuleStore.apply`, `RuleStore.applyAll`: one change, and several;
* `RuleStore.record?_apply`, `RuleStore.order_apply`: a change leaves the other files alone;
* `RuleStore.InStep.apply`: a change keeps the order and the records in step;
* `RuleStore.revision_applyAll`: the revision counts the changes;
* `RuleStore.applyAll_eq_of_revision`: so changes that leave the revision leave the store.
-/

namespace LayeredCss.RuleStore

/-- A change of a store. -/
inductive Change
  | put (file : FileId) (rules : List String)
  | putRecord (file : FileId) (record : FileRecord)
  | remove (file : FileId)
  deriving DecidableEq

/-- The file that a change is about. -/
def Change.file : Change → FileId
  | put file _ | putRecord file _ | remove file => file

def apply (s : RuleStore) : Change → RuleStore
  | .put file rules => s.put file rules
  | .putRecord file record => s.putRecord file record
  | .remove file => s.remove file

/-- The store after changes, the first one first. -/
def applyAll (s : RuleStore) (changes : List Change) : RuleStore := changes.foldl apply s

variable {s : RuleStore}

theorem applyAll_append (s : RuleStore) (changes more : List Change) :
    s.applyAll (changes ++ more) = (s.applyAll changes).applyAll more := List.foldl_append

/-! ## Files that a change is not about -/

theorem record?_put (s : RuleStore) (file : FileId) (rules : List String) (other : FileId) :
    (s.put file rules).record? other =
      if file = other then some { (s.record? file).getD {} with rules } else s.record? other :=
  s.record?_putRecord file _ other

/-- Putting rules keeps what else the record of a file holds. -/
theorem record?_put_of_record? {file : FileId} {record : FileRecord}
    (h : s.record? file = some record) (rules : List String) :
    (s.put file rules).record? file = some { record with rules } := by
  rw [record?_put, if_pos rfl, h, Option.getD_some]

/-- Removing a file that is unknown changes nothing. -/
theorem remove_of_unknown {file : FileId} (h : s.contains file = false) : s.remove file = s := by
  rw [remove, if_neg (by rw [h]; exact Bool.false_ne_true)]

/-- **A change leaves the records of the other files as they are.** -/
theorem record?_apply {c : Change} {other : FileId} (h : other ≠ c.file) :
    (s.apply c).record? other = s.record? other := by
  have hne : ¬c.file = other := fun heq => h heq.symm
  cases c with
  | put file rules => exact (s.record?_put file rules other).trans (if_neg hne)
  | putRecord file record => exact (s.record?_putRecord file record other).trans (if_neg hne)
  | remove file => exact (s.record?_remove file other).trans (if_neg hne)

theorem order_putRecord_filter (s : RuleStore) (file : FileId) (record : FileRecord) :
    (s.putRecord file record).order.filter (· ≠ file) = s.order.filter (· ≠ file) := by
  unfold putRecord
  split
  · rfl
  · simp

/-- **A change leaves the other files in their order.** -/
theorem order_apply (s : RuleStore) (c : Change) :
    (s.apply c).order.filter (· ≠ c.file) = s.order.filter (· ≠ c.file) := by
  cases c with
  | put file rules => exact s.order_putRecord_filter file _
  | putRecord file record => exact s.order_putRecord_filter file record
  | remove file =>
    change (s.remove file).order.filter (· ≠ file) = s.order.filter (· ≠ file)
    unfold remove
    split
    · simp
    · rfl

/-! ## The order and the records -/

/-- **The order names each file once**, and just the files that have records. -/
structure InStep (s : RuleStore) : Prop where
  nodup : s.order.Nodup
  known : ∀ file, file ∈ s.order ↔ s.contains file = true

theorem inStep_empty : empty.InStep := ⟨.nil, fun file => by
  simp [empty, contains, OrderedMap.contains, OrderedMap.find?_empty]⟩

namespace InStep

variable (hs : s.InStep)
include hs

theorem putRecord (file : FileId) (record : FileRecord) : (s.putRecord file record).InStep := by
  refine ⟨?_, fun other => ?_⟩
  · unfold RuleStore.putRecord
    split
    · exact hs.nodup
    · next hnew =>
      have hmem : file ∉ s.order := fun h => hnew ((hs.known file).mp h)
      exact hs.nodup.append (List.nodup_singleton file) (List.disjoint_singleton.mpr hmem)
  · rw [contains_putRecord, ← hs.known]
    unfold RuleStore.putRecord
    split
    · next hold =>
      refine ⟨Or.inr, ?_⟩
      rintro (rfl | h)
      · exact (hs.known file).mpr hold
      · exact h
    · rw [List.mem_append, List.mem_singleton, or_comm, eq_comm]

theorem remove (file : FileId) : (s.remove file).InStep := by
  refine ⟨?_, fun other => ?_⟩
  · unfold RuleStore.remove
    split
    · exact hs.nodup.filter _
    · exact hs.nodup
  · rw [contains_remove, ← hs.known]
    unfold RuleStore.remove
    split
    · rw [List.mem_filter, decide_eq_true_iff, and_comm, ne_comm]
    · next hunknown =>
      refine ⟨fun h => ⟨?_, h⟩, And.right⟩
      rintro rfl
      exact hunknown ((hs.known file).mp h)

/-- **A change keeps the order and the records in step.** -/
theorem apply (c : Change) : (s.apply c).InStep := by
  cases c with
  | put file rules => exact hs.putRecord file _
  | putRecord file record => exact hs.putRecord file record
  | remove file => exact hs.remove file

end InStep

/-! ## Revisions -/

/-- Whether a change makes a new revision. -/
def counts (s : RuleStore) : Change → Bool
  | .remove file => s.contains file
  | _ => true

/-- The number of changes that make a new revision. -/
def mutations (s : RuleStore) : List Change → Nat
  | [] => 0
  | c :: rest => (s.counts c).toNat + (s.apply c).mutations rest

theorem mutations_le_length (s : RuleStore) (changes : List Change) :
    s.mutations changes ≤ changes.length := by
  induction changes generalizing s with
  | nil => exact Nat.le_refl 0
  | cons c rest ih =>
    have hrest := ih (s.apply c)
    have hfirst := (s.counts c).toNat_le
    rw [mutations, List.length_cons]
    omega

theorem apply_of_not_counts {c : Change} (h : s.counts c = false) : s.apply c = s := by
  cases c with
  | put | putRecord => cases h
  | remove file => exact remove_of_unknown h

theorem revision_apply (s : RuleStore) (c : Change) :
    (s.apply c).revision = s.revision + .ofNat (s.counts c).toNat := by
  cases hc : s.counts c with
  | false => rw [apply_of_not_counts hc, Bool.toNat_false]; exact (UInt64.add_zero _).symm
  | true =>
    cases c with
    | put | putRecord => rfl
    | remove file =>
      have hknown : s.contains file = true := hc
      change (s.remove file).revision = s.revision + 1
      rw [remove, if_pos hknown]

/-- **The revision counts the changes.** -/
theorem revision_applyAll (s : RuleStore) (changes : List Change) :
    (s.applyAll changes).revision = s.revision + .ofNat (s.mutations changes) := by
  induction changes generalizing s with
  | nil => exact (UInt64.add_zero _).symm
  | cons c rest ih =>
    calc ((s.apply c).applyAll rest).revision
      _ = s.revision + .ofNat (s.counts c).toNat + .ofNat ((s.apply c).mutations rest) := by
        rw [ih, revision_apply]
      _ = s.revision + .ofNat (s.mutations (c :: rest)) := by
        rw [UInt64.add_assoc, ← UInt64.ofNat_add]
        rfl

theorem applyAll_of_mutations_eq_zero {changes : List Change} (h : s.mutations changes = 0) :
    s.applyAll changes = s := by
  induction changes generalizing s with
  | nil => rfl
  | cons c rest ih =>
    obtain ⟨hfirst, hrest⟩ := Nat.add_eq_zero_iff.mp h
    have hsame : s.apply c = s := apply_of_not_counts (Bool.toNat_eq_zero.mp hfirst)
    rw [hsame] at hrest
    calc (s.apply c).applyAll rest
      _ = s.applyAll rest := by rw [hsame]
      _ = s := ih hrest

/-- **Changes that leave the revision leave the store**, if they make fewer revisions than there are. -/
theorem applyAll_eq_of_revision {changes : List Change} (hfew : s.mutations changes < UInt64.size)
    (h : (s.applyAll changes).revision = s.revision) : s.applyAll changes = s := by
  rw [revision_applyAll, UInt64.add_eq_left] at h
  refine applyAll_of_mutations_eq_zero ?_
  rw [← UInt64.toNat_ofNat_of_lt' hfew, h]
  rfl

end LayeredCss.RuleStore

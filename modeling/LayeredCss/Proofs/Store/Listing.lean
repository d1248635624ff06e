import LayeredCss.Proofs.Store.Changes
import Mathlib.Data.List.Perm.Basic

/-!
# The rule store as a list of files

To whoever asks it, a rule store is one list: each file with its record, in the order in which the files
came.  A file that is known is changed in its place, one that is new is put behind the others, and one
that is removed leaves no gap.  The store has this list only in two halves, and answers some questions
from the one, some from the other and some from both; here the list is kept as such (`Listing`), and the
two are used side by side, also with copies that go their own ways.

* `RuleStore.toList_apply`: a change of the store is the same change of its list;
* `Keeping.run`: stores, or lists, that are changed, copied and asked;
* `Keeping.Views.run`: one way to keep files answers like another;
* `RuleStore.stores_like_listings`: stores answer like lists, and what else a run leaves behind.
-/

namespace LayeredCss

open OrderedMap (findEntry findEntry_eq_some_iff)
open RuleStore (Change)

/-- Files with their records, in the order in which the files came. -/
abbrev Listing := List (FileId × FileRecord)

/-- What one may ask about files. -/
inductive Query
  | files
  | entries
  | allRules
  | ruleCount
  | rulesOf (file : FileId)
  | record (file : FileId)
  | contains (file : FileId)
  deriving DecidableEq

inductive Reply
  | files (files : List FileId)
  | entries (entries : Listing)
  | rules (rules : List String)
  | count (n : Nat)
  | record (record : Option FileRecord)
  | known (known : Bool)
  deriving DecidableEq

namespace Listing

/-- Changes the record of a file in its place; a file that is new gets a record at the end. -/
def update (l : Listing) (file : FileId) (f : FileRecord → FileRecord) : Listing :=
  if file ∈ l.map (·.1) then l.map fun entry => if entry.1 = file then (file, f entry.2) else entry
  else l ++ [(file, f {})]

def apply (l : Listing) : Change → Listing
  | .put file rules => l.update file fun record => { record with rules }
  | .putRecord file record => l.update file fun _ => record
  | .remove file => l.filter (·.1 ≠ file)

def ask (l : Listing) : Query → Reply
  | .files => .files (l.map (·.1))
  | .entries => .entries l
  | .allRules => .rules (l.flatMap (·.2.rules))
  | .ruleCount => .count (l.flatMap (·.2.rules)).length
  | .rulesOf file => .rules (((findEntry file l).map (·.rules)).getD [])
  | .record file => .record (findEntry file l)
  | .contains file => .known (findEntry file l).isSome

end Listing

/-! ## One store -/

namespace RuleStore

def ask (s : RuleStore) : Query → Reply
  | .files => .files s.order
  | .entries => .entries s.toList
  | .allRules => .rules s.allRules
  | .ruleCount => .count s.ruleCount
  | .rulesOf file => .rules (s.rulesOf file)
  | .record file => .record (s.record? file)
  | .contains file => .known (s.contains file)

theorem findEntry_filterMap (s : RuleStore) (file : FileId) (files : List FileId) :
    findEntry file (files.filterMap fun other => (s.record? other).map (other, ·)) =
      if file ∈ files then s.record? file else none := by
  induction files with
  | nil => rfl
  | cons other rest ih =>
    cases hrecord : s.record? other with
    | none =>
      rw [List.filterMap_cons_none (by rw [hrecord]; rfl), ih]
      by_cases heq : file = other
      · simp [heq, hrecord]
      · simp [heq]
    | some record =>
      rw [List.filterMap_cons_some (b := (other, record)) (by rw [hrecord]; rfl)]
      unfold findEntry
      by_cases heq : file = other
      · simp [heq, hrecord]
      · simp [heq, Ne.symm heq, ih]

namespace InStep

variable {s : RuleStore} (hs : s.InStep)
include hs

theorem findEntry_toList (file : FileId) : findEntry file s.toList = s.record? file := by
  rw [toList, findEntry_filterMap]
  split
  · rfl
  · next hmem =>
    rw [hs.known, contains_iff] at hmem
    exact (Option.eq_none_iff_forall_ne_some.mpr fun record h => hmem ⟨record, h⟩).symm

/-- The list has the files in their order, so none is skipped. -/
theorem map_fst_toList : s.toList.map (·.1) = s.order := by
  have hfound : ∀ file ∈ s.order, (s.record? file).map (fun _ => file) = some file := by
    intro file hfile
    obtain ⟨record, hrecord⟩ := contains_iff.mp ((hs.known file).mp hfile)
    rw [hrecord, Option.map_some]
  rw [toList, List.map_filterMap]
  simp only [Option.map_map, Function.comp_def]
  rw [List.filterMap_congr hfound, List.filterMap_some]

theorem nodup_toList : (s.toList.map (·.1)).Nodup := by
  rw [hs.map_fst_toList]
  exact hs.nodup

theorem mem_toList {file : FileId} {record : FileRecord} :
    (file, record) ∈ s.toList ↔ s.record? file = some record := by
  rw [← findEntry_eq_some_iff hs.nodup_toList, hs.findEntry_toList]

/-- **The list and the map have the same entries**, each once. -/
theorem toList_perm : s.toList.Perm s.records.entries := by
  have hkeys : (s.records.entries.map (·.1)).Nodup := s.records.nodup_keys
  refine (List.perm_ext_iff_of_nodup hs.nodup_toList.of_map hkeys.of_map).mpr ?_
  rintro ⟨file, record⟩
  rw [hs.mem_toList, ← findEntry_eq_some_iff hkeys]
  rfl

theorem ruleCount_eq : s.ruleCount = s.allRules.length := by
  have hcount : s.ruleCount = (s.records.entries.flatMap (·.2.rules)).length := by
    rw [ruleCount, OrderedMap.values, List.flatMap_map]
  rw [hcount, allRules]
  exact (hs.toList_perm.flatMap_right _).length_eq.symm

/-- Putting a record that is made of the one that there is, or of an empty one. -/
theorem toList_putRecord_update (file : FileId) (f : FileRecord → FileRecord) :
    (s.putRecord file (f ((s.record? file).getD {}))).toList = Listing.update s.toList file f := by
  have hmem : file ∈ s.toList.map (·.1) ↔ s.contains file = true := by
    rw [hs.map_fst_toList, hs.known]
  unfold Listing.update
  split
  · next hlisted =>
    rw [toList_putRecord (hmem.mp hlisted)]
    refine List.map_congr_left fun entry hentry => ?_
    split
    · next heq =>
      have hrecord : s.record? file = some entry.2 := by
        rw [← heq]
        exact hs.mem_toList.mp hentry
      rw [hrecord, Option.getD_some]
    · rfl
  · next hunlisted =>
    have hnew : ¬s.contains file = true := fun h => hunlisted (hmem.mpr h)
    have hnone : s.record? file = none := by
      rw [contains_iff] at hnew
      exact Option.eq_none_iff_forall_ne_some.mpr fun record h => hnew ⟨record, h⟩
    have horder : (s.putRecord file (f {})).order = s.order ++ [file] := if_neg hnew
    have hothers : ∀ other ∈ s.order,
        ((s.putRecord file (f {})).record? other).map (other, ·) =
          (s.record? other).map (other, ·) := by
      intro other hother
      have hne : file ≠ other := fun heq => hnew ((hs.known file).mp (heq ▸ hother))
      rw [record?_putRecord, if_neg hne]
    rw [hnone, Option.getD_none, toList, horder, List.filterMap_append,
      List.filterMap_congr hothers]
    simp [toList, record?_putRecord]

/-- **A change of the store is the same change of its list.** -/
theorem toList_apply (c : Change) : (s.apply c).toList = Listing.apply s.toList c := by
  cases c with
  | put file rules => exact hs.toList_putRecord_update file fun record => { record with rules }
  | putRecord file record => exact hs.toList_putRecord_update file fun _ => record
  | remove file => exact s.toList_remove file

/-- **A store answers like its list.** -/
theorem ask_toList (q : Query) : Listing.ask s.toList q = s.ask q := by
  cases q with
  | files => exact congrArg Reply.files hs.map_fst_toList
  | entries => rfl
  | allRules => rfl
  | ruleCount => exact congrArg Reply.count hs.ruleCount_eq.symm
  | rulesOf file =>
    rw [Listing.ask, hs.findEntry_toList]
    rfl
  | record file => exact congrArg Reply.record (hs.findEntry_toList file)
  | contains file =>
    rw [Listing.ask, hs.findEntry_toList]
    rfl

end InStep

end RuleStore

/-! ## Several stores -/

/-- A way to keep files with their records. -/
structure Keeping (σ : Type) where
  start : σ
  apply : σ → Change → σ
  ask : σ → Query → Reply

namespace Keeping

/-- A call of one of several stores, which are numbered as they come up. -/
inductive Call
  | change (i : Nat) (c : Change)
  | copy (i : Nat)
  | read (i : Nat) (q : Query)
  deriving DecidableEq

/-- The change that a call makes of a store. -/
def Call.changeOf? (i : Nat) : Call → Option Change
  | change j c => if j = i then some c else none
  | _ => none

/-- The changes that calls make of a store, the first one first. -/
def changesOf (i : Nat) (calls : List Call) : List Change := calls.filterMap (·.changeOf? i)

variable {σ τ : Type}

/-- What a call answers, and the stores after it.  A call of a store that is not there does
nothing. -/
def step (k : Keeping σ) (x : List σ) : Call → Option Reply × List σ
  | .change i c => (none, x.modify i (k.apply · c))
  | .copy i => (none, x ++ x[i]?.toList)
  | .read i q => (x[i]?.map (k.ask · q), x)

/-- What calls answer in this order, and the stores after them. -/
def runFrom (k : Keeping σ) (x : List σ) : List Call → List (Option Reply) × List σ
  | [] => ([], x)
  | call :: rest =>
    let (reply, next) := k.step x call
    let (replies, last) := k.runFrom next rest
    (reply :: replies, last)

/-- Calls that begin with one store without files. -/
def run (k : Keeping σ) (calls : List Call) : List (Option Reply) × List σ :=
  k.runFrom [k.start] calls

theorem runFrom_append (k : Keeping σ) (x : List σ) (calls more : List Call) :
    (k.runFrom x (calls ++ more)).2 = (k.runFrom (k.runFrom x calls).2 more).2 := by
  induction calls generalizing x with
  | nil => rfl
  | cons call rest ih => exact ih _

theorem getElem?_step (k : Keeping σ) {x : List σ} {i : Nat} {s : σ} (h : x[i]? = some s)
    (call : Call) : (k.step x call).2[i]? = some ((call.changeOf? i).toList.foldl k.apply s) := by
  obtain ⟨hi, -⟩ := List.getElem?_eq_some_iff.mp h
  cases call with
  | change j c =>
    simp only [step, Call.changeOf?, List.getElem?_modify, h]
    split <;> rfl
  | copy j => exact (List.getElem?_append_left hi).trans h
  | read j q => exact h

theorem changesOf_cons (i : Nat) (call : Call) (rest : List Call) :
    changesOf i (call :: rest) = (call.changeOf? i).toList ++ changesOf i rest := by
  unfold changesOf
  cases hchange : call.changeOf? i with
  | none => rw [List.filterMap_cons_none hchange]; rfl
  | some c => rw [List.filterMap_cons_some hchange]; rfl

/-- **A store goes through its own changes**, whatever becomes of the others. -/
theorem getElem?_runFrom (k : Keeping σ) {x : List σ} {i : Nat} {s : σ} (h : x[i]? = some s)
    (calls : List Call) :
    (k.runFrom x calls).2[i]? = some ((changesOf i calls).foldl k.apply s) := by
  induction calls generalizing x s with
  | nil => exact h
  | cons call rest ih =>
    rw [changesOf_cons, List.foldl_append]
    exact ih (k.getElem?_step h call)

/-- One way to keep files is like another: what it keeps has a view, which changes and answers like
it. -/
structure Views (k : Keeping σ) (k' : Keeping τ) (P : σ → Prop) (view : σ → τ) : Prop where
  start : P k.start
  view_start : view k.start = k'.start
  apply : ∀ s c, P s → P (k.apply s c)
  view_apply : ∀ s c, P s → view (k.apply s c) = k'.apply (view s) c
  ask : ∀ s q, P s → k'.ask (view s) q = k.ask s q

namespace Views

variable {k : Keeping σ} {k' : Keeping τ} {P : σ → Prop} {view : σ → τ} (hk : Views k k' P view)
include hk

theorem map_modify {x : List σ} (hx : ∀ s ∈ x, P s) (i : Nat) (c : Change) :
    (x.map view).modify i (k'.apply · c) = (x.modify i (k.apply · c)).map view := by
  refine List.ext_getElem? fun j => ?_
  rw [List.getElem?_modify, List.getElem?_map, List.getElem?_map, List.getElem?_modify]
  cases hj : x[j]? with
  | none => rfl
  | some s =>
    split
    · exact congrArg some (hk.view_apply s c (hx s (List.mem_of_getElem? hj))).symm
    · rfl

/-- One call. -/
theorem step {x : List σ} (hx : ∀ s ∈ x, P s) (call : Call) :
    (∀ s ∈ (k.step x call).2, P s) ∧
      k'.step (x.map view) call = ((k.step x call).1, (k.step x call).2.map view) := by
  cases call with
  | change i c =>
    refine ⟨fun s (hs : s ∈ x.modify i _) => ?_, Prod.ext rfl (hk.map_modify hx i c)⟩
    obtain ⟨j, hj, rfl⟩ := List.mem_iff_getElem.mp hs
    rw [List.getElem_modify]
    split
    · exact hk.apply _ c (hx _ (List.getElem_mem _))
    · exact hx _ (List.getElem_mem _)
  | copy i =>
    refine ⟨fun s hs => ?_, Prod.ext rfl ?_⟩
    · rcases List.mem_append.mp hs with hs | hs
      · exact hx s hs
      · exact hx s (List.mem_of_getElem? (Option.mem_toList.mp hs))
    · simp only [Keeping.step, List.getElem?_map, List.map_append]
      cases x[i]? <;> rfl
  | read i q =>
    refine ⟨hx, Prod.ext ?_ rfl⟩
    simp only [Keeping.step, List.getElem?_map]
    cases hi : x[i]? with
    | none => rfl
    | some s => exact congrArg some (hk.ask s q (hx s (List.mem_of_getElem? hi)))

theorem runFrom {x : List σ} (hx : ∀ s ∈ x, P s) (calls : List Call) :
    (∀ s ∈ (k.runFrom x calls).2, P s) ∧
      k'.runFrom (x.map view) calls = ((k.runFrom x calls).1, (k.runFrom x calls).2.map view) := by
  induction calls generalizing x with
  | nil => exact ⟨hx, rfl⟩
  | cons call rest ih =>
    obtain ⟨hnext, hstep⟩ := hk.step hx call
    obtain ⟨hlast, hrest⟩ := ih hnext
    refine ⟨hlast, ?_⟩
    simp only [Keeping.runFrom, hstep, hrest]

/-- **Any number of calls.** -/
theorem run (calls : List Call) :
    (∀ s ∈ (k.run calls).2, P s) ∧
      k'.run calls = ((k.run calls).1, (k.run calls).2.map view) := by
  have hstart : ∀ s ∈ [k.start], P s := fun s hs => List.mem_singleton.mp hs ▸ hk.start
  have h := hk.runFrom hstart calls
  rwa [List.map_singleton, hk.view_start] at h

end Views

end Keeping

/-- Files in one list. -/
def Listing.keeping : Keeping Listing := ⟨[], Listing.apply, Listing.ask⟩

namespace RuleStore

open Keeping (Call changesOf)

/-- Files in a rule store. -/
def keeping : Keeping RuleStore := ⟨empty, apply, ask⟩

theorem views_listing : keeping.Views Listing.keeping InStep toList where
  start := inStep_empty
  view_start := rfl
  apply _ c hs := hs.apply c
  view_apply _ c hs := hs.toList_apply c
  ask _ q hs := hs.ask_toList q

/-- **Stores answer like lists.**  Calls that change, copy and ask stores, from one without files on,
get the answers that lists of files give.  Each store that they leave names in its order each of its
files once and no others, and counts the rules that it gives; and whatever is done to one of its files,
the others stay as they are and in their order, new rules of a file keep the rest of its record, and
removing a file that is unknown does nothing.  Later calls do to a store what its own changes do,
whatever is done to its copies or to the store that it is a copy of; and if they bring it back to its
revision, through fewer revisions than there are, they have left it as it was. -/
theorem stores_like_listings (calls : List Call) :
    (keeping.run calls).1 = (Listing.keeping.run calls).1 ∧
    (∀ s ∈ (keeping.run calls).2,
      (s.order.Nodup ∧ ∀ file, file ∈ s.order ↔ file ∈ s.records.keys) ∧
      s.ruleCount = s.allRules.length ∧
      (∀ c : Change, (s.apply c).order.filter (· ≠ c.file) = s.order.filter (· ≠ c.file) ∧
        ∀ other, other ≠ c.file → (s.apply c).record? other = s.record? other) ∧
      (∀ file record rules, s.record? file = some record →
        (s.put file rules).record? file = some { record with rules }) ∧
      ∀ file, s.contains file = false → s.remove file = s) ∧
    ∀ (i : Nat) (s : RuleStore), (keeping.run calls).2[i]? = some s → ∀ more : List Call,
      (keeping.run (calls ++ more)).2[i]? = some (s.applyAll (changesOf i more)) ∧
      (s.mutations (changesOf i more) < UInt64.size →
        (s.applyAll (changesOf i more)).revision = s.revision →
        s.applyAll (changesOf i more) = s) := by
  obtain ⟨hinStep, hlists⟩ := views_listing.run calls
  refine ⟨by rw [hlists], fun s hs => ?_, fun i s hs more => ⟨?_, applyAll_eq_of_revision⟩⟩
  · have hs : s.InStep := hinStep s hs
    refine ⟨⟨hs.nodup, fun file => ?_⟩, hs.ruleCount_eq,
      fun c => ⟨s.order_apply c, fun other => record?_apply⟩,
      fun file record rules hrecord => record?_put_of_record? hrecord rules,
      fun file => remove_of_unknown⟩
    rw [hs.known, OrderedMap.mem_keys]
    rfl
  · rw [Keeping.run, Keeping.runFrom_append]
    exact keeping.getElem?_runFrom hs more

/-- A file of a copy is removed and comes back behind the other one; the store that was copied has its
files as before, and a removal that finds nothing leaves it at its revision. -/
theorem stores_like_listings_copy :
    let a : FileId := ⟨"a.ts"⟩
    let b : FileId := ⟨"b.ts"⟩
    let calls : List Call := [.change 0 (.put a [".a\x7b\x7d"]), .change 0 (.put b [".b\x7b\x7d"])]
    let more : List Call := [.copy 0, .change 1 (.remove a), .change 0 (.remove ⟨"c.ts"⟩),
      .change 1 (.put a [".c\x7b\x7d"]), .read 0 .files, .read 1 .files, .read 1 .allRules]
    (keeping.run (calls ++ more)).1.drop 6 = [some (.files [a, b]), some (.files [b, a]),
      some (.rules [".b\x7b\x7d", ".c\x7b\x7d"])] ∧
    (keeping.run (calls ++ more)).1 = (Listing.keeping.run (calls ++ more)).1 ∧
    ∃ s, (keeping.run calls).2[0]? = some s ∧ (keeping.run (calls ++ more)).2[0]? = some s := by
  intro a b calls more
  let s := empty.applyAll [.put a [".a\x7b\x7d"], .put b [".b\x7b\x7d"]]
  have hs : (keeping.run calls).2[0]? = some s := rfl
  have hfew : s.mutations (changesOf 0 more) < UInt64.size := by decide +kernel
  have hrevision : (s.applyAll (changesOf 0 more)).revision = s.revision := by decide +kernel
  obtain ⟨-, -, hlater⟩ := stores_like_listings calls
  obtain ⟨hafter, hsame⟩ := hlater 0 s hs more
  refine ⟨by decide +kernel, (stores_like_listings (calls ++ more)).1, s, hs, ?_⟩
  rw [hafter, hsame hfew hrevision]

end RuleStore

end LayeredCss

import LayeredCss.Proofs.Store.Changes
import LayeredCss.Stylesheet

/-!
# One cache for several stores

Of a store that a cache is asked for it looks at nothing but the revision to tell whether what it keeps
is the store's stylesheet.  The revision counts the changes of the store.  On one line of history, as
with a store and an earlier copy of it, equal revisions therefore mean equal contents.  Stores that were
made apart and copies that were changed apart can meet at a revision with different contents, and then
the cache gives one of them the stylesheet of the other.

* `RuleStore.Grown.store_eq_of_revision`: on one line of history equal revisions mean equal stores;
* `Shelf.after`: stores that are made, copied and changed, and a cache that is asked for any of them;
* `Shelf.faithful_of_line`: what the cache answers;
* `Shelf.not_faithful_of_apart`: two stores that were made apart.
-/

namespace LayeredCss

namespace RuleStore

/-- A store and the changes that it has had since it was empty. -/
structure Grown where
  store : RuleStore
  changes : List Change
  grown : store = empty.applyAll changes

namespace Grown

def new : Grown := ⟨.empty, [], rfl⟩

def change (g : Grown) (c : Change) : Grown where
  store := g.store.apply c
  changes := g.changes ++ [c]
  grown := by rw [applyAll_append, ← g.grown]; rfl

/-- One of the stores is a copy of the other at an earlier time. -/
def OnLine (g h : Grown) : Prop := g.changes <+: h.changes ∨ h.changes <+: g.changes

instance (g h : Grown) : Decidable (g.OnLine h) :=
  inferInstanceAs (Decidable (g.changes <+: h.changes ∨ h.changes <+: g.changes))

variable {g h : Grown}

theorem store_eq_of_earlier (hearlier : g.changes <+: h.changes)
    (hfew : h.changes.length < UInt64.size) (hrevision : h.store.revision = g.store.revision) :
    h.store = g.store := by
  obtain ⟨more, hmore⟩ := hearlier
  have hlater : h.store = g.store.applyAll more := by
    rw [h.grown, ← hmore, applyAll_append, ← g.grown]
  rw [hlater] at hrevision ⊢
  refine applyAll_eq_of_revision ?_ hrevision
  have hle := g.store.mutations_le_length more
  rw [← hmore, List.length_append] at hfew
  omega

/-- **On one line of history equal revisions mean equal stores.** -/
theorem store_eq_of_revision (hline : g.OnLine h) (hg : g.changes.length < UInt64.size)
    (hh : h.changes.length < UInt64.size) (hrevision : g.store.revision = h.store.revision) :
    g.store = h.store := by
  rcases hline with hearlier | hearlier
  · exact (store_eq_of_earlier hearlier hh hrevision.symm).symm
  · exact store_eq_of_earlier hearlier hg hrevision

end Grown

end RuleStore

namespace SheetCache

theorem answer_of_stale {a : SheetCache} {s : RuleStore} (h : a.current? s = none)
    (generate : Generator) : (a.refresh generate s).value.1 = build a.annotate generate s := by
  cases hbuild : build a.annotate generate s with
  | error failure => rw [value_refresh_of_failed h hbuild]
  | ok text => rw [value_refresh_of_made h hbuild]

/-- What a cache that has kept nothing answers. -/
def anew (annotate : Bool) (generate : Generator) (s : RuleStore) : Except Failure String :=
  ((new annotate).refresh generate s).value.1

theorem anew_eq_build (annotate : Bool) (generate : Generator) (s : RuleStore) :
    anew annotate generate s = build annotate generate s := answer_of_stale rfl generate

/-- The cache answers for a store as if it had kept nothing, and what it takes for the stylesheet of
the store is that. -/
structure Faithful (a : SheetCache) (annotate : Bool) (generate : Generator) (s : RuleStore) :
    Prop where
  answer : (a.refresh generate s).value.1 = anew annotate generate s
  kept : a.isStale s = false →
    ∃ sheet, a.lastGood = some sheet ∧ anew annotate generate s = .ok sheet.text

/-- An answer is new, or it is what is kept with the revision of the store. -/
theorem refresh_cases (a : SheetCache) (generate : Generator) (s : RuleStore) :
    (a.isStale s = true ∧ (a.refresh generate s).value.1 = anew a.annotate generate s) ∨
    ∃ sheet, a.lastGood = some sheet ∧ sheet.revision = s.revision ∧
      (a.refresh generate s).value.1 = .ok sheet.text := by
  unfold isStale
  cases hcurrent : a.current? s with
  | none => exact Or.inl ⟨rfl, by rw [answer_of_stale hcurrent, anew_eq_build]⟩
  | some sheet =>
    obtain ⟨hlast, hrevision⟩ := current?_eq_some.mp hcurrent
    exact Or.inr ⟨sheet, hlast, hrevision, by rw [value_refresh_of_current hcurrent]⟩

end SheetCache

/-- Stores and the cache that they share. -/
structure Shelf where
  stores : List RuleStore.Grown
  cache : SheetCache
  /-- The stores that the cache has been asked for, as they were then; no call looks at them. -/
  asked : List RuleStore.Grown

namespace Shelf

open RuleStore SheetCache

inductive Call
  | new
  | copy (i : Nat)
  | change (i : Nat) (c : Change)
  /-- The cache is asked for the stylesheet of a store. -/
  | refresh (i : Nat)
  deriving DecidableEq

def Call.changes : Call → Bool
  | .change _ _ => true
  | _ => false

def opening (annotate : Bool) : Shelf := ⟨[], .new annotate, []⟩

/-- The shelf after a call; one for a store that is not there does nothing. -/
def perform (generate : Generator) (x : Shelf) : Call → Shelf
  | .new => { x with stores := x.stores ++ [.new] }
  | .copy i => { x with stores := x.stores ++ x.stores[i]?.toList }
  | .change i c => { x with stores := x.stores.modify i (·.change c) }
  | .refresh i =>
    match x.stores[i]? with
    | none => x
    | some g =>
      { x with
        cache := (x.cache.refresh generate g.store).value.2
        asked := x.asked ++ [g] }

/-- The shelf after calls, from one without stores. -/
def after (generate : Generator) (annotate : Bool) (calls : List Call) : Shelf :=
  calls.foldl (perform generate) (opening annotate)

/-- The number of changes of stores. -/
def mutations (calls : List Call) : Nat := calls.countP Call.changes

/-- **What the cache keeps** is the stylesheet of a store that it was asked for, and no store has had
more than `n` changes. -/
structure Tracked (generate : Generator) (annotate : Bool) (n : Nat) (x : Shelf) : Prop where
  setting : x.cache.annotate = annotate
  kept : ∀ sheet, x.cache.lastGood = some sheet → ∃ g ∈ x.asked,
    g.store.revision = sheet.revision ∧ anew annotate generate g.store = .ok sheet.text
  stores : ∀ g ∈ x.stores, g.changes.length ≤ n
  asked : ∀ g ∈ x.asked, g.changes.length ≤ n

variable {generate : Generator} {annotate : Bool} {n : Nat} {x : Shelf}

theorem tracked_opening (generate : Generator) (annotate : Bool) :
    Tracked generate annotate 0 (opening annotate) where
  setting := rfl
  kept _ h := by cases h
  stores _ hg := absurd hg List.not_mem_nil
  asked _ hg := absurd hg List.not_mem_nil

namespace Tracked

variable (hx : Tracked generate annotate n x)
include hx

theorem withStores {stores : List Grown} {m : Nat} (hle : n ≤ m)
    (h : ∀ g ∈ stores, g.changes.length ≤ m) :
    Tracked generate annotate m { x with stores } where
  setting := hx.setting
  kept := hx.kept
  stores := h
  asked g hg := Nat.le_trans (hx.asked g hg) hle

theorem change (i : Nat) (c : Change) :
    Tracked generate annotate (n + 1) { x with stores := x.stores.modify i (·.change c) } := by
  refine hx.withStores (Nat.le_succ n) fun g hg => ?_
  obtain ⟨j, hj, rfl⟩ := List.mem_iff_getElem.mp hg
  rw [List.length_modify] at hj
  have hbefore := hx.stores _ (List.getElem_mem hj)
  rw [List.getElem_modify]
  split
  · rw [Grown.change, List.length_append, List.length_singleton]
    omega
  · omega

theorem refresh {g : Grown} (hg : g ∈ x.stores) :
    Tracked generate annotate n
      { x with
        cache := (x.cache.refresh generate g.store).value.2
        asked := x.asked ++ [g] } := by
  have hasked : ∀ h ∈ x.asked ++ [g], h.changes.length ≤ n := by
    intro h hh
    rcases List.mem_append.mp hh with hh | hh
    · exact hx.asked h hh
    · exact List.mem_singleton.mp hh ▸ hx.stores g hg
  have hkept : ∀ sheet, x.cache.lastGood = some sheet → ∃ h ∈ x.asked ++ [g],
      h.store.revision = sheet.revision ∧ anew annotate generate h.store = .ok sheet.text := by
    intro sheet hsheet
    obtain ⟨h, hh, hsame⟩ := hx.kept sheet hsheet
    exact ⟨h, List.mem_append_left _ hh, hsame⟩
  cases hcurrent : x.cache.current? g.store with
  | some sheet =>
    rw [value_refresh_of_current hcurrent]
    exact ⟨hx.setting, hkept, hx.stores, hasked⟩
  | none =>
    cases hbuild : build x.cache.annotate generate g.store with
    | error failure =>
      rw [value_refresh_of_failed hcurrent hbuild]
      exact ⟨hx.setting, hkept, hx.stores, hasked⟩
    | ok text =>
      rw [value_refresh_of_made hcurrent hbuild]
      refine ⟨hx.setting, ?_, hx.stores, hasked⟩
      rintro sheet ⟨⟩
      refine ⟨g, List.mem_append_right _ (List.mem_singleton_self g), rfl, ?_⟩
      rw [anew_eq_build, ← hx.setting, hbuild]

/-- One call. -/
theorem perform (call : Call) :
    Tracked generate annotate (n + call.changes.toNat) (x.perform generate call) := by
  cases call with
  | new =>
    refine hx.withStores (Nat.le_refl n) fun g hg => ?_
    rcases List.mem_append.mp hg with hg | hg
    · exact hx.stores g hg
    · rw [List.mem_singleton.mp hg]
      exact Nat.zero_le n
  | copy i =>
    refine hx.withStores (Nat.le_refl n) fun g hg => ?_
    rcases List.mem_append.mp hg with hg | hg
    · exact hx.stores g hg
    · exact hx.stores g (List.mem_of_getElem? (Option.mem_toList.mp hg))
  | change i c => exact hx.change i c
  | refresh i =>
    simp only [Shelf.perform]
    split
    · exact hx
    · next g hg => exact hx.refresh (List.mem_of_getElem? hg)

/-- Any number of calls. -/
theorem calls (calls : List Call) :
    Tracked generate annotate (n + mutations calls) (calls.foldl (Shelf.perform generate) x) := by
  induction calls generalizing x n with
  | nil => exact hx
  | cons call rest ih =>
    have hrest := ih (hx.perform call)
    rw [Nat.add_assoc] at hrest
    rw [mutations, List.countP_cons, Nat.add_comm (rest.countP _)]
    cases call <;> exact hrest

end Tracked

theorem tracked_after (generate : Generator) (annotate : Bool) (calls : List Call) :
    Tracked generate annotate (mutations calls) (after generate annotate calls) := by
  have h := (tracked_opening generate annotate).calls calls
  rwa [Nat.zero_add] at h

/-- **What a cache of several stores answers.**  A new cache makes the stylesheet from nothing.  The cache
of a run answers for any store what a new one answers for the store, or for one of the same revision that
it has been asked for before.  For a store of the shelf that lies on one line of history with each store
of its revision that the cache has been asked for, the cache is faithful. -/
theorem faithful_of_line {calls : List Call} (hfew : mutations calls < UInt64.size) :
    let x := after generate annotate calls
    (∀ s, anew annotate generate s = build annotate generate s) ∧
    (∀ s, (x.cache.refresh generate s).value.1 = anew annotate generate s ∨
      ∃ g ∈ x.asked, g.store.revision = s.revision ∧
        (x.cache.refresh generate s).value.1 = anew annotate generate g.store) ∧
    ∀ g ∈ x.stores, (∀ h ∈ x.asked, h.store.revision = g.store.revision → h.OnLine g) →
      x.cache.Faithful annotate generate g.store := by
  intro x
  have hx : Tracked generate annotate (mutations calls) x := tracked_after generate annotate calls
  have hcases := x.cache.refresh_cases generate
  rw [hx.setting] at hcases
  refine ⟨fun s => anew_eq_build annotate generate s, fun s => ?_, fun g hg hline => ?_⟩
  · rcases hcases s with ⟨-, hnew⟩ | ⟨sheet, hlast, hrevision, hanswer⟩
    · exact Or.inl hnew
    · obtain ⟨g, hg, hsame, htext⟩ := hx.kept sheet hlast
      exact Or.inr ⟨g, hg, hsame.trans hrevision, hanswer.trans htext.symm⟩
  · rcases hcases g.store with ⟨hstale, hnew⟩ | ⟨sheet, hlast, hrevision, hanswer⟩
    · refine ⟨hnew, fun hfresh => ?_⟩
      rw [hstale] at hfresh
      cases hfresh
    · obtain ⟨h, hh, hsame, htext⟩ := hx.kept sheet hlast
      have hmeet : h.store.revision = g.store.revision := hsame.trans hrevision
      have hstore : h.store = g.store :=
        Grown.store_eq_of_revision (hline h hh hmeet)
          (Nat.lt_of_le_of_lt (hx.asked h hh) hfew) (Nat.lt_of_le_of_lt (hx.stores g hg) hfew) hmeet
      rw [hstore] at htext
      exact ⟨hanswer.trans htext.symm, fun _ => ⟨sheet, hlast, htext⟩⟩

/-- A store that has changed since the cache was asked for it, and a copy that was made before. -/
theorem faithful_of_line_copy :
    let x := after joinedRules false
      [.new, .change 0 (.put ⟨"a.ts"⟩ ["._a\x7b\x7d"]), .refresh 0, .copy 0,
        .change 0 (.put ⟨"b.ts"⟩ ["._b\x7b\x7d"])]
    x.stores.map (fun g => x.cache.isStale g.store) = [true, false] ∧
      ∀ g ∈ x.stores, (∀ h ∈ x.asked, h.OnLine g) ∧
        x.cache.Faithful false joinedRules g.store := by
  intro x
  have hline : ∀ g ∈ x.stores, ∀ h ∈ x.asked, h.OnLine g := by decide +kernel
  refine ⟨by decide +kernel, fun g hg => ⟨hline g hg, ?_⟩⟩
  exact (faithful_of_line (by decide)).2.2 g hg fun h hh _ => hline g hg h hh

/-- **Two stores that were made apart** and had one change each: asked for the second one the cache
gives the stylesheet of the first. -/
theorem not_faithful_of_apart :
    ¬ ∀ calls : List Call, mutations calls < UInt64.size →
      ∀ g ∈ (after joinedRules false calls).stores,
        (after joinedRules false calls).cache.Faithful false joinedRules g.store := by
  intro hall
  let calls : List Call :=
    [.new, .new, .change 0 (.put ⟨"a.ts"⟩ ["._a\x7bcolor:red\x7d"]),
      .change 1 (.put ⟨"b.ts"⟩ ["._b\x7bcolor:blue\x7d"]), .refresh 0]
  let x := after joinedRules false calls
  obtain ⟨g, hg⟩ : ∃ g, x.stores[1]? = some g := ⟨_, rfl⟩
  have hanswer : (x.cache.refresh joinedRules g.store).value.1 = .ok "._a\x7bcolor:red\x7d" := by
    cases hg
    rfl
  have hanew : anew false joinedRules g.store = .ok "._b\x7bcolor:blue\x7d" := by
    cases hg
    rfl
  have heq := (hall calls (by decide) g (List.mem_of_getElem? hg)).answer
  rw [hanswer, hanew] at heq
  exact absurd (Except.ok.inj heq) (by decide)

end Shelf

end LayeredCss

import Mathlib.Data.List.Induction
import LayeredCss.Proofs.Session.Contents

/-!
# The kept stylesheet of a run

A session keeps the stylesheet that it could make last.  Between a success and the next one the rule
store may change and the generator may fail, any number of times and in any order; what is kept is
still the whole stylesheet of one store, the one at the last success.

* `made`: the stores that a run has made a stylesheet of, in their order;
* `lastGood_after`: what is kept is the stylesheet of the last of them;
* `made_ordered`: their revisions do not go back.
-/

namespace LayeredCss.Session

variable {s₀ : Session} {css : List String → String} {lifecycle : Lifecycle}

/-- The complete stylesheet of a store: what `css` makes of all its rules, and if wanted a comment for
each file that has some. -/
def pageOf (css : List String → String) (annotate : Bool) (store : RuleStore) : String :=
  page css annotate (store.toList.map fun entry => (entry.1, entry.2.rules))

/-- The store that a turn has made a stylesheet of. -/
def Turn.made? (t : Turn) : Option RuleStore :=
  match t.call with
  | .stylesheet generate =>
    (t.before.stylesheet generate).value.1.toOption.map fun _ => t.before.store
  | _ => none

/-- The stores that a session makes stylesheets of while it gets calls in this order. -/
def made (s : Session) (calls : List Call) : List RuleStore := (s.turns calls).filterMap Turn.made?

/-! ## Runs with more calls -/

theorem made_append (s : Session) (calls more : List Call) :
    s.made (calls ++ more) = s.made calls ++ (s.after calls).made more := by
  simp only [made, turns_append, List.filterMap_append]

theorem made_singleton (s : Session) (call : Call) :
    s.made [call] = (Turn.made? ⟨s, call⟩).toList := by
  simp only [made, turns, List.filterMap_cons, List.filterMap_nil]
  cases Turn.made? ⟨s, call⟩ <;> rfl

theorem store_of_made? {t : Turn} {store : RuleStore} (h : t.made? = some store) :
    store = t.before.store := by
  unfold Turn.made? at h
  split at h
  · obtain ⟨-, -, rfl⟩ := Option.map_eq_some_iff.mp h
    rfl
  · cases h

theorem mutations_history_le (s : Session) (calls more : List Call) :
    mutations (s.history calls) ≤ mutations (s.history (calls ++ more)) := by
  rw [history_append]
  unfold mutations
  rw [List.countP_append]
  exact Nat.le_add_right _ _

/-- What holds of the generators and changes of a run holds of its beginning. -/
theorem beginning_of_run {calls more : List Call}
    (hgenerators : ∀ generate, Call.stylesheet generate ∈ calls ++ more → generate.Agrees css)
    (hlt : mutations (s₀.history (calls ++ more)) < UInt64.size) :
    (∀ generate, Call.stylesheet generate ∈ calls → generate.Agrees css) ∧
      mutations (s₀.history calls) < UInt64.size := by
  constructor
  · intro generate hmem
    exact hgenerators generate (List.mem_append_left _ hmem)
  · exact Nat.lt_of_le_of_lt (mutations_history_le s₀ calls more) hlt

/-- The revision of the store does not go back, as long as there are revisions left. -/
theorem revision_le_after (h₀ : s₀.Starts lifecycle) {calls more : List Call}
    (hgenerators : ∀ generate, Call.stylesheet generate ∈ calls ++ more → generate.Agrees css)
    (hlt : mutations (s₀.history (calls ++ more)) < UInt64.size) :
    (s₀.after calls).store.revision ≤ (s₀.after (calls ++ more)).store.revision := by
  obtain ⟨hbefore, hfew⟩ := beginning_of_run hgenerators hlt
  have hearlier := (faithful_after h₀ hbefore).recorded.revision
  have hlater := (faithful_after h₀ hgenerators).recorded.revision
  rw [hearlier, hlater, UInt64.le_iff_toNat_le, UInt64.toNat_ofNat_of_lt' hlt,
    UInt64.toNat_ofNat_of_lt' hfew]
  exact mutations_history_le s₀ calls more

/-! ## What is kept -/

/-- **What making the stylesheet does**: it fails and changes nothing, and the stylesheet that is kept
is stale; or the text is kept with the revision of the store. -/
theorem stylesheet_cases (s : Session) (generate : Generator) :
    (∃ failure, (s.stylesheet generate).value = (.error failure, s) ∧ s.isStale = true) ∨
    ∃ text sheets, (s.stylesheet generate).value = (.ok text, { s with sheets }) ∧
      sheets.lastGood = some ⟨text, s.store.revision⟩ := by
  have hvalue : (s.stylesheet generate).value = ((s.sheets.refresh generate s.store).value.1,
    { s with sheets := (s.sheets.refresh generate s.store).value.2 }) := rfl
  cases hcurrent : s.sheets.current? s.store with
  | some sheet =>
    have hrefresh := SheetCache.value_refresh_of_current hcurrent generate
    rw [hrefresh] at hvalue
    exact Or.inr ⟨_, _, hvalue, SheetCache.lastGood_of_refresh hrefresh⟩
  | none =>
    cases hbuild : SheetCache.build s.sheets.annotate generate s.store with
    | error failure =>
      rw [SheetCache.value_refresh_of_failed hcurrent hbuild] at hvalue
      refine Or.inl ⟨failure, hvalue, ?_⟩
      simp only [isStale, SheetCache.isStale, hcurrent, Option.isNone_none]
    | ok text =>
      rw [SheetCache.value_refresh_of_made hcurrent hbuild] at hvalue
      exact Or.inr ⟨_, _, hvalue, rfl⟩

theorem stylesheet_of_error {s : Session} {generate : Generator} {failure : Failure}
    (h : (s.stylesheet generate).value.1 = .error failure) :
    (s.stylesheet generate).value.2 = s := by
  rcases stylesheet_cases s generate with ⟨_, hvalue, -⟩ | ⟨_, _, hvalue, -⟩
  · rw [hvalue]
  · rw [hvalue] at h
    cases h

/-- A stylesheet that is made is kept, and is not stale until the store changes. -/
theorem stylesheet_of_ok {s : Session} {generate : Generator} {text : String}
    (h : (s.stylesheet generate).value.1 = .ok text) :
    (s.stylesheet generate).value.2.store = s.store ∧
      (s.stylesheet generate).value.2.lastGood? = some text ∧
      (s.stylesheet generate).value.2.isStale = false := by
  rcases stylesheet_cases s generate with ⟨_, hvalue, -⟩ | ⟨text', sheets, hvalue, hkept⟩
  · rw [hvalue] at h
    cases h
  · rw [hvalue] at h ⊢
    cases h
    have hcurrent := SheetCache.current?_eq_some.mpr ⟨hkept, rfl⟩
    refine ⟨rfl, ?_, ?_⟩
    · rw [lastGood?, hkept, Option.map_some]
    · simp only [isStale, SheetCache.isStale, hcurrent, Option.isNone_some]

/-- **A stylesheet that is made is complete**: it is that of the present store. -/
theorem Faithful.stylesheet_eq_pageOf {h : List Event} {s : Session} (hs : Faithful css s₀ h s)
    (hlt : mutations h < UInt64.size) {generate : Generator} (hgenerate : generate.Agrees css)
    {text : String} (hok : (s.stylesheet generate).value.1 = .ok text) :
    text = pageOf css s₀.config.annotateSources s.store := by
  have hpage := refresh_eq_page hs.kept hs.recorded hlt hgenerate hok
  rw [hpage, ← hs.recorded.contents_eq]
  rfl

/-- A call that does not make the stylesheet leaves what is kept. -/
theorem Turn.sheets {t : Turn} (h : ∀ generate, t.call ≠ .stylesheet generate) :
    t.next.sheets = t.before.sheets := by
  rcases turn_cases t with m | ⟨file, -, -, hnext⟩ | ⟨generate, hcall, -, -⟩
  · exact m.framed.sheets
  · rw [hnext]
  · exact absurd hcall (h generate)

/-- **What a turn keeps**: the stylesheet that it makes, or else what was kept before. -/
theorem Turn.lastGood {h : List Event} (t : Turn) (ht : Faithful css s₀ h t.before)
    (hlt : mutations h < UInt64.size)
    (hgenerate : ∀ generate, t.call = .stylesheet generate → generate.Agrees css) :
    t.next.sheets.lastGood =
      (t.made?.map fun store =>
        ⟨pageOf css s₀.config.annotateSources store, store.revision⟩).or
        t.before.sheets.lastGood := by
  by_cases hcall : ∃ generate, t.call = .stylesheet generate
  · obtain ⟨s, call⟩ := t
    obtain ⟨generate, rfl⟩ := hcall
    rcases stylesheet_cases s generate with ⟨failure, hvalue, -⟩ | ⟨text, sheets, hvalue, hkept⟩
    · simp only [next, made?, perform, hvalue, Except.toOption, Option.map_none, Option.none_or]
    · have hpage := ht.stylesheet_eq_pageOf hlt (hgenerate generate rfl) (congrArg Prod.fst hvalue)
      simp only [next, made?, perform, hvalue, Except.toOption, Option.map_some, Option.some_or,
        hkept, hpage]
  · have hother : ∀ generate, t.call ≠ .stylesheet generate := fun generate h => hcall ⟨generate, h⟩
    have hnone : t.made? = none := by
      unfold made?
      split
      · next generate h => exact absurd h (hother generate)
      · rfl
    rw [Turn.sheets hother, hnone, Option.map_none, Option.none_or]

section Runs

variable (h₀ : s₀.Starts lifecycle) {calls : List Call}
  (hgenerators : ∀ generate, Call.stylesheet generate ∈ calls → generate.Agrees css)
  (hlt : mutations (s₀.history calls) < UInt64.size)
include h₀ hgenerators hlt

/-- **What is kept after a run** is the complete stylesheet of the store at the last success. -/
theorem lastGood_after :
    (s₀.after calls).sheets.lastGood = (s₀.made calls).getLast?.map fun store =>
      ⟨pageOf css s₀.config.annotateSources store, store.revision⟩ := by
  induction calls using List.reverseRecOn with
  | nil =>
    obtain ⟨-, -, -, hsheets, -⟩ := h₀.fields
    rw [after, hsheets]
    rfl
  | append_singleton before call ih =>
    obtain ⟨hbefore, hfew⟩ := beginning_of_run hgenerators hlt
    have hlast := Turn.lastGood ⟨s₀.after before, call⟩ (faithful_after h₀ hbefore) hfew
      fun generate hcall => hgenerators generate (by simp [← hcall])
    rw [ih hbefore hfew] at hlast
    rw [after_append, made_append, made_singleton]
    refine hlast.trans ?_
    cases Turn.made? ⟨s₀.after before, call⟩ with
    | none => rw [Option.map_none, Option.none_or, Option.toList_none, List.append_nil]
    | some store => rw [Option.map_some, Option.some_or, Option.toList_some, List.getLast?_concat,
        Option.map_some]

/-- **The stores of a run come in the order of their revisions**, and none is newer than the present
one. -/
theorem made_ordered :
    (s₀.made calls).Pairwise (·.revision ≤ ·.revision) ∧
      ∀ store ∈ s₀.made calls, store.revision ≤ (s₀.after calls).store.revision := by
  induction calls using List.reverseRecOn with
  | nil => exact ⟨.nil, fun store hstore => absurd hstore List.not_mem_nil⟩
  | append_singleton before call ih =>
    obtain ⟨hbefore, hfew⟩ := beginning_of_run hgenerators hlt
    obtain ⟨hordered, hold⟩ := ih hbefore hfew
    have hle := revision_le_after h₀ hgenerators hlt
    have hpast : ∀ store ∈ s₀.made before, store.revision ≤ (s₀.after (before ++ [call])).store.revision :=
      fun store hstore => UInt64.le_trans (hold store hstore) hle
    rw [made_append, made_singleton]
    cases hmade : Turn.made? ⟨s₀.after before, call⟩ with
    | none =>
      rw [Option.toList_none, List.append_nil]
      exact ⟨hordered, hpast⟩
    | some new =>
      cases store_of_made? hmade
      rw [Option.toList_some]
      refine ⟨List.pairwise_append.mpr ⟨hordered, List.pairwise_singleton _ _, ?_⟩, ?_⟩
      · exact fun store hstore other hother => List.mem_singleton.mp hother ▸ hold store hstore
      · intro store hstore
        rcases List.mem_append.mp hstore with hstore | hstore
        · exact hpast store hstore
        · exact List.mem_singleton.mp hstore ▸ hle

end Runs

end LayeredCss.Session

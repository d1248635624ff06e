import LayeredCss.Proofs.Plugin.Calls
import LayeredCss.Proofs.Session.StableBases
import Mathlib.Data.List.TakeWhile

/-!
# Modules and their ids

A bundler may know one file by several ids, which differ in their queries.  The filter and the loader
see the path alone, so they treat all these ids alike.  What is remembered of a module, its rules and
its slot, goes by the id as it stands: each id has its own, and a call about one id leaves those of
every other alone, also if both are ids of one path.

* `SourceFilter.skip?_withQuery`, `Loader.ofPath_withQuery`: the query does not count;
* `answer_elsewhere`: calls leave the modules alone that they are not about;
* `layerBase_of_record`: a module has the same layer base throughout a watching session;
* `module_of_id`: what becomes of a module that has stored rules, by its own id and by others;
* `not_module_of_path`: two ids of one path.
-/

namespace LayeredCss

/-! ## Queries -/

namespace SourcePath

/-- The id of a path with a query. -/
def withQuery (path query : String) : String := path ++ "?" ++ query

variable {path : String} (hpath : '?' ∉ path.toList)
include hpath

theorem kept_of_not_mem : ∀ c ∈ path.toList, (c != '?') = true := by
  intro c hc
  have hne : c ≠ '?' := fun heq => hpath (heq ▸ hc)
  simpa using hne

theorem withoutQuery_withQuery (query : String) : withoutQuery (withQuery path query) = path := by
  have htext : (withQuery path query).toList = path.toList ++ '?' :: query.toList := by
    simp [withQuery, String.toList_append]
  rw [withoutQuery, Text.beforeFirst, htext, List.takeWhile_append_of_pos (kept_of_not_mem hpath)]
  simp

theorem withoutQuery_of_not_mem : withoutQuery path = path := by
  have hwhole := List.takeWhile_eq_self_iff.mpr (kept_of_not_mem hpath)
  rw [withoutQuery, Text.beforeFirst, hwhole, String.ofList_toList]

theorem extension?_withQuery (query : String) :
    extension? (withQuery path query) = extension? path := by
  rw [extension?, extension?, withoutQuery_withQuery hpath, withoutQuery_of_not_mem hpath]

end SourcePath

open SourcePath (withQuery)

section Query

variable {path : String} (hpath : '?' ∉ path.toList) (query : String)
include hpath

theorem SourceFilter.skip?_withQuery (filter : SourceFilter) (source : String) :
    filter.skip? ⟨withQuery path query⟩ source = filter.skip? ⟨path⟩ source := by
  simp only [skip?, supports, isExcluded, SourcePath.extension?_withQuery hpath,
    SourcePath.withoutQuery_withQuery hpath, SourcePath.withoutQuery_of_not_mem hpath]

theorem Loader.ofPath_withQuery : ofPath (withQuery path query) = ofPath path := by
  rw [ofPath, ofPath, SourcePath.extension?_withQuery hpath]

end Query

/-! ## Calls about other modules -/

/-- The id of the module that a call is about. -/
def ModuleCall.moduleId : ModuleCall → String
  | transform moduleId _ => moduleId
  | remove moduleId => moduleId

namespace Session

/-- **A file has one layer base** throughout the run of a watching session: two records of it have the
same one, however many calls lie between them. -/
theorem layerBase_of_record {s₀ : Session} (h₀ : s₀.Starts .watch) {calls more : List Call}
    {file : FileId} {record record' : FileRecord}
    (hr : (s₀.after calls).store.record? file = some record)
    (hr' : (s₀.after (calls ++ more)).store.record? file = some record') :
    record'.layerBase = record.layerBase := by
  have hlast := pinned_after h₀ (calls ++ more)
  obtain ⟨e, result, output, hmem, hfile, hbase, -⟩ := (pinned_after h₀ calls).record file record hr
  obtain ⟨e', result', output', hmem', hfile', hbase', -⟩ := hlast.record file record' hr'
  have hearlier : Event.processed e (.transformed result) ∈ s₀.history (calls ++ more) := by
    rw [history_append]
    exact List.mem_append_left _ hmem
  have howned := hlast.stableBase?_iff.mpr ⟨e, result, hearlier, hfile, hbase⟩
  have howned' := hlast.stableBase?_iff.mpr ⟨e', result', hmem', hfile', hbase'⟩
  exact Option.some.inj (howned'.symm.trans howned)

end Session

namespace Plugin

variable {transformer : Transform} {p next : Plugin}

/-- **A call leaves the modules alone that it is not about.** -/
theorem answer_elsewhere {call : ModuleCall} {moduleId : String} (h : call.moduleId ≠ moduleId) :
    (p.answer transformer call).2.session.store.record? ⟨moduleId⟩ =
      p.session.store.record? ⟨moduleId⟩ := by
  have hfile : ∀ other : String, other ≠ moduleId → (⟨other⟩ : FileId) ≠ ⟨moduleId⟩ :=
    fun other hne heq => hne (congrArg FileId.name heq)
  rcases call with ⟨other, code⟩ | other
  · cases hvalue : (p.session.process transformer ⟨other⟩ code).value with
    | mk outcome s =>
      rw [answer_transform hvalue]
      rcases Session.store_process (e := ⟨⟨other⟩, code, transformer⟩) hvalue with
        ⟨-, hstore⟩ | ⟨-, record, hstore⟩
      · rw [hstore]
      · rw [hstore, RuleStore.record?_putRecord, if_neg (hfile other h)]
  · change (p.session.store.remove ⟨other⟩).record? ⟨moduleId⟩ = _
    rw [RuleStore.record?_remove, if_neg (hfile other h)]

theorem isHot_of_record {moduleId : String}
    (h : next.session.store.record? ⟨moduleId⟩ = p.session.store.record? ⟨moduleId⟩) :
    next.isHot moduleId = p.isHot moduleId := by
  rw [isHot, isHot, RuleStore.rulesOf, RuleStore.rulesOf, h]

/-- A module whose output is marked has got a new record, and nothing else has changed in the
store. -/
theorem store_of_marked {moduleId code : String} {m : ModuleSource}
    (hvalue : (p.transform transformer moduleId code).value = (some m, next))
    (hm : m.mutated = true) :
    next.session = (p.session.perform (.process ⟨⟨moduleId⟩, code, transformer⟩)).2 ∧
      ∃ record, next.session.store = p.session.store.putRecord ⟨moduleId⟩ record := by
  cases hprocess : (p.session.process transformer ⟨moduleId⟩ code).value with
  | mk outcome s =>
    rw [value_transform hprocess] at hvalue
    obtain ⟨hm', rfl⟩ := Prod.mk.inj hvalue
    have hmutated : outcome.mutated = true := by
      rw [← p.mutated_outputOf ⟨moduleId⟩ outcome, hm']
      exact hm
    refine ⟨?_, ?_⟩
    · rw [Session.perform_process (e := ⟨⟨moduleId⟩, code, transformer⟩) hprocess]
    · rcases Session.store_process (e := ⟨⟨moduleId⟩, code, transformer⟩) hprocess with
        ⟨hnot, -⟩ | ⟨-, record, hstore⟩
      · rw [hmutated] at hnot
        cases hnot
      · exact ⟨record, hstore⟩

/-- **What is remembered of a module goes by its id.**  When a module has stored rules under an id, with
a query or without, then by this id it is hot, its removal takes these rules and no others out of the
store, and in a watching session its next successful transform has the same layer base and replaces
these rules in their place.  Any other id, also one of the same path, is the id of another module: it
is as hot as it was before, and a call about it leaves the rules where they are.  The filter and the
loader do not see the query. -/
theorem module_of_id {lifecycle : Lifecycle} {s₀ : Session} (h₀ : s₀.Starts lifecycle)
    {calls : List Session.Call} (hp : p.session = s₀.after calls) {moduleId code : String}
    {m : ModuleSource}
    (hvalue : (p.transform transformer moduleId code).value = (some m, next))
    (hm : m.mutated = true) (hrules : next.session.store.rulesOf ⟨moduleId⟩ ≠ []) :
    next.isHot moduleId = true ∧
    (next.remove moduleId).2.session.store.toList =
      next.session.store.toList.filter (·.1 ≠ ⟨moduleId⟩) ∧
    (lifecycle = .watch → ∀ (transformer' : Transform) code' m' last,
      (next.transform transformer' moduleId code').value = (some m', last) → m'.mutated = true →
      ∃ record record', next.session.store.record? ⟨moduleId⟩ = some record ∧
        record'.layerBase = record.layerBase ∧
        last.session.store.toList = next.session.store.toList.map fun entry =>
          if entry.1 = ⟨moduleId⟩ then (⟨moduleId⟩, record') else entry) ∧
    (∀ other, other ≠ moduleId → next.isHot other = p.isHot other ∧
      ∀ (transformer' : Transform) call, call.moduleId = other →
        (next.answer transformer' call).2.session.store.record? ⟨moduleId⟩ =
          next.session.store.record? ⟨moduleId⟩) ∧
    ∀ path query source, '?' ∉ path.toList →
      Loader.ofPath (withQuery path query) = Loader.ofPath path ∧
        next.session.filter.skip? ⟨withQuery path query⟩ source =
          next.session.filter.skip? ⟨path⟩ source := by
  obtain ⟨hsession, record, hstore⟩ := store_of_marked hvalue hm
  have hrecord : next.session.store.record? ⟨moduleId⟩ = some record := by
    rw [hstore, RuleStore.record?_putRecord, if_pos rfl]
  refine ⟨?_, RuleStore.toList_remove _ _, ?_, fun other hother => ⟨?_, ?_⟩,
    fun path query source hpath => ⟨Loader.ofPath_withQuery hpath query,
      SourceFilter.skip?_withQuery hpath query _ source⟩⟩
  · rw [isHot]
    simpa using hrules
  · rintro rfl transformer' code' m' last hvalue' hm'
    obtain ⟨hsession', record', hstore'⟩ := store_of_marked hvalue' hm'
    have hknown := RuleStore.contains_iff.mpr ⟨record, hrecord⟩
    refine ⟨record, record', hrecord, ?_, by rw [hstore', RuleStore.toList_putRecord hknown]⟩
    -- both records are of one run, which goes on by one call
    have hafter : next.session =
        s₀.after (calls ++ [.process ⟨⟨moduleId⟩, code, transformer⟩]) := by
      rw [hsession, hp, Session.after_append]
      rfl
    have hafter' : last.session = s₀.after ((calls ++ [.process ⟨⟨moduleId⟩, code, transformer⟩]) ++
        [.process ⟨⟨moduleId⟩, code', transformer'⟩]) := by
      rw [hsession', hafter, Session.after_append _ (calls ++ _)]
      rfl
    have hrecord' : last.session.store.record? ⟨moduleId⟩ = some record' := by
      rw [hstore', RuleStore.record?_putRecord, if_pos rfl]
    rw [hafter] at hrecord
    rw [hafter'] at hrecord'
    exact Session.layerBase_of_record h₀ hrecord hrecord'
  · refine isHot_of_record ?_
    have hfile : (⟨moduleId⟩ : FileId) ≠ ⟨other⟩ := fun heq => hother (congrArg FileId.name heq).symm
    rw [hstore, RuleStore.record?_putRecord, if_neg hfile]
  · rintro transformer' call rfl
    exact answer_elsewhere hother

/-- A module whose id has a query, after another of the same path has failed: by its id it is hot and
can be removed, and another source of it takes its place at the same base. -/
theorem module_of_id_query :
    let calls : List Session.Call := [.process ⟨⟨"a.ts?v=0"⟩, "strata", Session.failing⟩]
    let p := ofSession ((Session.blank .watch).after calls)
    let next := (p.transform Session.oneRule "a.ts?v=1" "strata").value.2
    let last := (next.transform Session.oneRule "a.ts?v=1" "strata again").value.2
    next.isHot "a.ts?v=1" = true ∧ next.isHot "a.ts?v=0" = p.isHot "a.ts?v=0" ∧
      (next.remove "a.ts?v=1").2.session.store.toList =
        next.session.store.toList.filter (·.1 ≠ ⟨"a.ts?v=1"⟩) ∧
      ∃ record record', next.session.store.record? ⟨"a.ts?v=1"⟩ = some record ∧
        record'.layerBase = record.layerBase ∧
        last.session.store.toList = next.session.store.toList.map fun entry =>
          if entry.1 = ⟨"a.ts?v=1"⟩ then (⟨"a.ts?v=1"⟩, record') else entry := by
  intro calls p next last
  have hfirst : (p.transform Session.oneRule "a.ts?v=1" "strata").value.1.any (·.mutated) = true := by
    decide +kernel
  have hagain : (next.transform Session.oneRule "a.ts?v=1" "strata again").value.1.any
      (·.mutated) = true := by decide +kernel
  have hrules : next.session.store.rulesOf ⟨"a.ts?v=1"⟩ ≠ [] := by decide +kernel
  obtain ⟨m, hm, hmutated⟩ := (Option.any_eq_true _ _).mp hfirst
  obtain ⟨m', hm', hmutated'⟩ := (Option.any_eq_true _ _).mp hagain
  have hsession : p.session = (Session.blank .watch).after calls := rfl
  have hvalue : (p.transform Session.oneRule "a.ts?v=1" "strata").value = (some m, next) :=
    Prod.ext hm rfl
  obtain ⟨hhot, hremove, hreplace, hothers, -⟩ :=
    module_of_id (Session.starts_blank .watch) hsession hvalue hmutated hrules
  exact ⟨hhot, (hothers "a.ts?v=0" (by decide)).1, hremove,
    hreplace rfl Session.oneRule "strata again" m' last (Prod.ext hm' rfl) hmutated'⟩

/-- **Two ids of one path are two modules.**  A module has stored a rule under an id with a query.  By
its path it is not hot, removing the path leaves the rule where it is, and under another query the
module gets another layer base and a second copy of the rule. -/
theorem not_module_of_path :
    let p := ofSession (Session.blank .watch)
    let next := (p.transform Session.oneRule (withQuery "a.ts" "v=1") "strata").value.2
    let last := (next.transform Session.oneRule (withQuery "a.ts" "v=2") "strata").value.2
    next.session.store.allRules = [".a\x7b\x7d"] ∧ ¬next.isHot "a.ts" = true ∧
      (next.remove "a.ts").2.session.store.allRules = [".a\x7b\x7d"] ∧
      last.session.store.toList.map (fun entry => (entry.1.name, entry.2.layerBase)) =
        [("a.ts?v=1", 0), ("a.ts?v=2", 1000)] ∧
      last.session.store.allRules = [".a\x7b\x7d", ".a\x7b\x7d"] := by
  decide +kernel

end Plugin

end LayeredCss

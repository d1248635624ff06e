import LayeredCss.Proofs.Session.Batch
import LayeredCss.Proofs.Session.StableBases

/-!
# Edits in another order

A watching session keeps the base of every file that it has a record of.  So an edit of such a file,
whatever comes of it, is an effect on its record, on its mark in the set of fallbacks and on the
counter; and what comes of it depends on nothing that edits of other files touch.  The counter only
rises to the highest bound that was reported, and a record that is replaced keeps its place, so the
effects of different files may come in any order.

* `Knows`: a file with a record and a slot of its own; `Session.knows_of_contains`: after every run of
  a watching session each file that has a record is one;
* `Effect.apply_comm`: effects on two known files commute;
* `outcomes_processEach`: each edit comes to what it comes to in the session before them all;
* `session_processEach_perm`: the session afterwards does not depend on their order;
* `processEach_of_perm`: both, for edits one after the other and in a batch.
-/

namespace LayeredCss.Session

variable {s t : Session} {file : FileId}

/-- The outcome of an edit. -/
def outcomeOf (s : Session) (e : Entry) : Outcome := (s.process e.transform e.file e.source).value.1

/-- The session after an edit. -/
def edited (s : Session) (e : Entry) : Session := (s.process e.transform e.file e.source).value.2

theorem value_process (s : Session) (e : Entry) :
    (s.process e.transform e.file e.source).value = (s.outcomeOf e, s.edited e) :=
  (Prod.eta _).symm

theorem session_processEach (s : Session) (entries : List Entry) :
    (s.processEach entries).value.2 = entries.foldl edited s := by
  induction entries generalizing s with
  | nil => rfl
  | cons e rest ih => rw [value_processEach_cons (s.value_process e), ih, List.foldl_cons]

/-! ## Known files -/

/-- The session has a record of the file, which owns a slot. -/
structure Knows (s : Session) (file : FileId) : Prop where
  record : s.store.contains file = true
  base : ∃ base, s.layers.stableBase? file = some base

/-- **After every run of a watching session** the files that have a record own a slot. -/
theorem knows_of_contains {s₀ : Session} (h₀ : s₀.Starts .watch) {calls : List Call}
    (hs : s₀.after calls = s) (h : s.store.contains file = true) : s.Knows file := by
  have hpinned : Pinned s₀ (s₀.history calls) ⟨s, []⟩ := hs ▸ pinned_after h₀ calls
  obtain ⟨record, hrecord⟩ := RuleStore.contains_iff.mp h
  obtain ⟨e, result, output, hmem, hfile, hbase, -⟩ := hpinned.record file record hrecord
  have hgives : Gives (s₀.history calls) file record.layerBase := ⟨e, result, hmem, hfile, hbase⟩
  exact ⟨h, record.layerBase, hpinned.stableBase?_iff.mpr hgives⟩

/-- The session after an effect, if there is any. -/
def applyAny (s : Session) (effect : Option Effect) : Session := effect.elim s fun x => x.apply s

theorem Effect.contains_apply (effect : Effect) (h : s.store.contains file = true) :
    (effect.apply s).store.contains file = true := by
  cases effect with
  | put other record => exact RuleStore.contains_putRecord.mpr (Or.inr h)
  | _ => exact h

theorem Knows.applyAny (h : s.Knows file) (effect : Option Effect) :
    (s.applyAny effect).Knows file := by
  cases effect with
  | none => exact h
  | some x =>
    obtain ⟨base, hbase⟩ := h.base
    exact ⟨x.contains_apply h.record, base, Effect.apply_stableBase?.trans hbase⟩

theorem alike_applyAny {effect : Option Effect} (h : ∀ x ∈ effect, x.file ≠ file) :
    Alike file s (s.applyAny effect) := by
  cases effect with
  | none => exact .refl file s
  | some x => exact Effect.alike (h x rfl)

/-- **An edit of a known file is an effect on it, or none**, with the same outcome in sessions that are
alike. -/
theorem Knows.edit {e : Entry} (h : s.Knows e.file) (hpolicy : s.layers.policy = .stable) :
    ∃ effect : Option Effect, (∀ x ∈ effect, x.file = e.file) ∧
      ∀ t, Alike e.file s t → t.outcomeOf e = s.outcomeOf e ∧ t.edited e = t.applyAny effect := by
  obtain ⟨base, hbase⟩ := h.base
  cases hskip : s.filter.skip? e.file e.source with
  | some reason =>
    have hvalue : ∀ t, Alike e.file s t →
        (t.process e.transform e.file e.source).value = (.skipped reason, t) :=
      fun t ht => value_process_of_skipped (ht.filter ▸ hskip)
    refine ⟨none, by simp, fun t ht => ?_⟩
    simp only [outcomeOf, edited, hvalue t ht, hvalue s (.refl _ s)]
    exact ⟨trivial, rfl⟩
  | none =>
    obtain ⟨outcome, effect, hfile, hvalue⟩ := process_effect hpolicy hbase hskip
    refine ⟨some effect, by simpa using hfile, fun t ht => ?_⟩
    simp only [outcomeOf, edited, hvalue t ht, hvalue s (.refl _ s)]
    exact ⟨trivial, rfl⟩

/-! ## Two edits -/

/-- **Effects on two known files commute.** -/
theorem Effect.apply_comm {effect other : Effect} (hne : effect.file ≠ other.file)
    (hfile : s.store.contains effect.file = true) (hother : s.store.contains other.file = true) :
    other.apply (effect.apply s) = effect.apply (other.apply s) := by
  cases other with
  | reuse file' => exact apply_reuse hne
  | fallBack file' =>
    cases effect with
    | reuse file =>
      have hne' : file' ≠ file := Ne.symm hne
      simp only [apply, OrderedMap.erase_insert_comm _ () hne']
    | fallBack file =>
      have hne' : file ≠ file' := hne
      simp only [apply, OrderedMap.insert_comm _ () () hne']
    | put file record =>
      have hne' : file' ≠ file := Ne.symm hne
      simp only [apply, OrderedMap.erase_insert_comm _ () hne']
  | put file' record' =>
    cases effect with
    | reuse file => simp only [apply, OrderedMap.erase_comm _ file file']
    | fallBack file =>
      have hne' : file ≠ file' := hne
      simp only [apply, OrderedMap.erase_insert_comm _ () hne']
    | put file record =>
      have hstore : (s.store.putRecord file record).putRecord file' record' =
          (s.store.putRecord file' record').putRecord file record :=
        RuleStore.putRecord_comm hne hfile hother record record'
      simp only [apply, OrderedMap.erase_comm _ file file', Layers.settle_comm _ record.nextLayer,
        hstore]

theorem applyAny_comm {effect other : Option Effect} {file' : FileId} (hne : file ≠ file')
    (h : s.Knows file) (h' : s.Knows file') (heffect : ∀ x ∈ effect, x.file = file)
    (hother : ∀ x ∈ other, x.file = file') :
    (s.applyAny effect).applyAny other = (s.applyAny other).applyAny effect := by
  cases effect with
  | none => rfl
  | some x =>
    cases other with
    | none => rfl
    | some y =>
      obtain rfl := heffect x rfl
      obtain rfl := hother y rfl
      exact Effect.apply_comm hne h.record h'.record

section Two

variable {e e' : Entry} (hpolicy : s.layers.policy = .stable) (hne : e.file ≠ e'.file)
  (he : s.Knows e.file)
include hpolicy he

/-- An edit leaves the policy and the known files. -/
theorem Knows.edited (h : s.Knows file) :
    (s.edited e).layers.policy = .stable ∧ (s.edited e).Knows file := by
  obtain ⟨effect, -, hedit⟩ := he.edit hpolicy
  rw [(hedit s (.refl _ s)).2]
  refine ⟨?_, h.applyAny effect⟩
  cases effect with
  | none => exact hpolicy
  | some x => exact Effect.framed.policy.trans hpolicy

include hne

/-- **An edit has no part in what comes of the edit of another file.** -/
theorem Knows.outcomeOf_edited (he' : s.Knows e'.file) :
    (s.edited e).outcomeOf e' = s.outcomeOf e' := by
  obtain ⟨effect, hfile, hedit⟩ := he.edit hpolicy
  obtain ⟨other, -, hedit'⟩ := he'.edit hpolicy
  have halike : Alike e'.file s (s.edited e) := by
    rw [(hedit s (.refl _ s)).2]
    exact alike_applyAny fun x hx => hfile x hx ▸ hne
  exact (hedit' _ halike).1

/-- **Two edits of known files commute.** -/
theorem Knows.edited_comm (he' : s.Knows e'.file) :
    (s.edited e).edited e' = (s.edited e').edited e := by
  obtain ⟨effect, hfile, hedit⟩ := he.edit hpolicy
  obtain ⟨other, hother, hedit'⟩ := he'.edit hpolicy
  have hfirst := (hedit s (.refl _ s)).2
  have hsecond := (hedit' s (.refl _ s)).2
  have halike : Alike e'.file s (s.applyAny effect) :=
    alike_applyAny fun x hx => hfile x hx ▸ hne
  have halike' : Alike e.file s (s.applyAny other) :=
    alike_applyAny fun x hx => hother x hx ▸ Ne.symm hne
  calc (s.edited e).edited e' = (s.applyAny effect).applyAny other := by
        rw [hfirst, (hedit' _ halike).2]
    _ = (s.applyAny other).applyAny effect := applyAny_comm hne he he' hfile hother
    _ = (s.edited e').edited e := by rw [hsecond, (hedit _ halike').2]

end Two

/-! ## Any number of edits -/

/-- **Each edit comes to what it comes to in the session before them all.** -/
theorem outcomes_processEach {entries : List Entry} (hpolicy : s.layers.policy = .stable)
    (hknown : ∀ e ∈ entries, s.Knows e.file) (hdistinct : (entries.map (·.file)).Nodup) :
    (s.processEach entries).value.1 = entries.map s.outcomeOf := by
  induction entries generalizing s with
  | nil => rfl
  | cons e rest ih =>
    rw [List.map_cons, List.nodup_cons] at hdistinct
    obtain ⟨hnew, hdistinct⟩ := hdistinct
    have he := hknown e List.mem_cons_self
    have hrest : ∀ e' ∈ rest, s.Knows e'.file := fun e' h => hknown e' (List.mem_cons_of_mem _ h)
    have hnext : (s.edited e).layers.policy = .stable := (he.edited hpolicy he).1
    have hothers := ih hnext (fun e' h => (he.edited hpolicy (hrest e' h)).2) hdistinct
    have hunmoved : rest.map (s.edited e).outcomeOf = rest.map s.outcomeOf := by
      refine List.map_congr_left fun e' h => ?_
      have hne : e.file ≠ e'.file := fun heq => hnew (List.mem_map.mpr ⟨e', h, heq.symm⟩)
      exact he.outcomeOf_edited hpolicy hne (hrest e' h)
    rw [value_processEach_cons (s.value_process e), List.map_cons, hothers, hunmoved]

/-- **The session after edits of known files does not depend on their order.** -/
theorem session_processEach_perm {entries order : List Entry} (hperm : entries.Perm order)
    (hpolicy : s.layers.policy = .stable) (hknown : ∀ e ∈ entries, s.Knows e.file)
    (hdistinct : (entries.map (·.file)).Nodup) :
    (s.processEach entries).value.2 = (s.processEach order).value.2 := by
  rw [session_processEach, session_processEach]
  induction hperm generalizing s with
  | nil => rfl
  | cons e hperm ih =>
    rw [List.map_cons, List.nodup_cons] at hdistinct
    have he := hknown e List.mem_cons_self
    rw [List.foldl_cons, List.foldl_cons]
    refine ih (he.edited hpolicy he).1 (fun e' h => ?_) hdistinct.2
    exact (he.edited hpolicy (hknown e' (List.mem_cons_of_mem _ h))).2
  | swap e e' rest =>
    have he := hknown e (List.mem_cons_of_mem _ List.mem_cons_self)
    have he' := hknown e' List.mem_cons_self
    rw [List.map_cons, List.nodup_cons, List.map_cons] at hdistinct
    have hne : e'.file ≠ e.file := fun heq => hdistinct.1 (heq ▸ List.mem_cons_self)
    simp only [List.foldl_cons, he'.edited_comm hpolicy hne he]
  | trans hperm _ ih ih' =>
    have hmiddle := (hperm.map (·.file)).nodup_iff.mp hdistinct
    exact (ih hpolicy hknown hdistinct).trans
      (ih' hpolicy (fun e h => hknown e (hperm.mem_iff.mpr h)) hmiddle)

/-- A batch of known files is its files one after the other. -/
theorem processEntries_of_knows {entries : List Entry} (hpolicy : s.layers.policy = .stable)
    (hknown : ∀ e ∈ entries, s.Knows e.file) :
    (s.processEntries entries).value = (s.processEach entries).value := by
  refine processEntries_eq_processEach hpolicy fun p hp hnew => ?_
  obtain ⟨e, he, hfile⟩ := List.mem_map.mp (List.of_mem_zip hp).1
  obtain ⟨base, hbase⟩ := (hknown e he).base
  rw [← hfile, hbase] at hnew
  cases hnew

/-- **Edits of different files that are known may come in any order.**  Whatever calls a watching
session has had, if it has records of all the files, then each edit has the outcome that it would have
alone, whichever of them fail, are skipped or are answered from their records, and the session
afterwards is the same one; and a batch does what the edits do one after the other. -/
theorem processEach_of_perm {s₀ s : Session} (h₀ : s₀.Starts .watch) {calls : List Call}
    (hs : s₀.after calls = s) (transform : Transform) {edits order : List (FileId × String)}
    (hdistinct : (edits.map (·.1)).Nodup)
    (hknown : ∀ edit ∈ edits, s.store.contains edit.1 = true) (hperm : order.Perm edits) :
    (s.processEach (entriesOf transform order)).value =
      (order.map fun edit => (s.process transform edit.1 edit.2).value.1,
        (s.processEach (entriesOf transform edits)).value.2) ∧
    (s.processBatch transform order).value = (s.processEach (entriesOf transform order)).value := by
  have hpolicy : s.layers.policy = .stable := hs ▸ policy_after h₀ calls
  have hentries : (entriesOf transform order).Perm (entriesOf transform edits) := hperm.map _
  have hfiles : ∀ files, (entriesOf transform files).map (·.file) = files.map (·.1) := fun files => by
    unfold entriesOf
    rw [List.map_map]
    rfl
  have horder : ((entriesOf transform order).map (·.file)).Nodup := by
    rw [hfiles]
    exact (hperm.map (·.1)).nodup_iff.mpr hdistinct
  have hknows : ∀ e ∈ entriesOf transform order, s.Knows e.file := by
    intro e he
    obtain ⟨edit, hedit, rfl⟩ := List.mem_map.mp he
    exact knows_of_contains h₀ hs (hknown edit (hperm.mem_iff.mp hedit))
  refine ⟨Prod.ext ?_ ?_, processEntries_of_knows hpolicy hknows⟩
  · rw [outcomes_processEach hpolicy hknows horder]
    simp only [entriesOf, List.map_map, Function.comp_def, outcomeOf]
  · exact session_processEach_perm hentries hpolicy hknows horder

/-- An edit that fails, one that succeeds with a higher bound, one that is skipped and one that comes
back to the source of the record, in one order one by one and in the other as a batch. -/
theorem processEach_of_perm_mixed :
    let transform : Transform := fun input =>
      if input.source = "strata!" then .failed (.ofText "no such style") else oneRule input
    let files : List FileId := [⟨"a.ts"⟩, ⟨"b.ts"⟩, ⟨"c.ts"⟩, ⟨"d.ts"⟩]
    let s := (blank .watch).after [.batch (entriesOf transform (files.map (·, "strata")))]
    let edits := files.zip ["strata!", "strata?", "plain", "strata"]
    (s.processBatch transform edits.reverse).value.1.map Outcome.attempted =
        [false, false, true, true] ∧
      (s.processBatch transform edits.reverse).value.1.map Outcome.mutated =
        [false, false, true, false] ∧
      (s.processBatch transform edits.reverse).value.2 =
        (s.processEach (entriesOf transform edits)).value.2 := by
  intro transform files s edits
  have hdistinct : (edits.map (·.1)).Nodup := by decide
  have hknown : ∀ edit ∈ edits, s.store.contains edit.1 = true := by decide +kernel
  obtain ⟨heach, hbatch⟩ := processEach_of_perm (starts_blank .watch) (s := s) rfl transform
    hdistinct hknown edits.reverse_perm
  refine ⟨by decide +kernel, by decide +kernel, ?_⟩
  rw [hbatch, heach]

end LayeredCss.Session

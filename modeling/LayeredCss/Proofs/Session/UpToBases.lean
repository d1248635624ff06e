import LayeredCss.Proofs.Session.Fallbacks
import LayeredCss.Proofs.Session.Run

/-!
# A batch and its files one by one, up to the bases

A batch reserves all its bases first, so a file whose first transform fails keeps a slot from the files
behind it, which would have got it if they had come one after the other.  The bases are then others, but
nothing else is, if the transform takes no notice of the base.

* `Mirrors`: two sessions that differ in nothing but the bases;
* `Mirrors.finish`, `Mirrors.process`: ending and processing a file keeps that;
* `Ready.mirrors_step`, `Ready.mirrors`: so does ending a prepared batch on the one side and processing
  its files on the other;
* `processBatch_like_processEach`: so a batch gives what its files give one after the other, whichever
  of them fail.
-/

namespace LayeredCss

/-! ## Without bases -/

/-- Answers of a transform that differ in nothing but layers. -/
inductive Transform.Agree :
    Except Failure Transform.Output → Except Failure Transform.Output → Prop
  | failed (failure failure' : Failure) : Agree (.error failure) (.error failure')
  | done {output output' : Transform.Output} (hcode : output'.code = output.code)
    (hrules : output'.cssTexts = output.cssTexts)
    (hdiagnostics : output'.diagnostics = output.diagnostics) : Agree (.ok output) (.ok output')

/-- Whether the transform fails, the code, the texts of the rules and the diagnostics do not depend on
the layer base. -/
def Transform.BaseFree (transform : Transform) : Prop :=
  ∀ input base, Agree (transform input).outcome
    (transform { input with layerBase := base }).outcome

/-- The record without its layers. -/
def FileRecord.bare (record : FileRecord) : FileRecord := { record with layerBase := 0, nextLayer := 0 }

/-- The outcome as far as it is known without the base: its kind, and code, diagnostics, errors and
number of rules. -/
def Outcome.bare : Outcome → Outcome
  | transformed result => transformed { result with layerBase := 0, hasDynamic := false }
  | fallback code _ => fallback code (.ofText "")
  | outcome => outcome

theorem Outcome.mark_bare (file : FileId) (fallbacks : OrderedSet FileId) (outcome : Outcome) :
    outcome.bare.mark file fallbacks = outcome.mark file fallbacks := by
  cases outcome <;> rfl

theorem Outcome.marks_bare (fallbacks : OrderedSet FileId) (files : List FileId)
    (outcomes : List Outcome) :
    marks fallbacks files (outcomes.map bare) = marks fallbacks files outcomes := by
  induction files generalizing fallbacks outcomes with
  | nil => cases outcomes <;> rfl
  | cons file rest ih =>
    cases outcomes with
    | nil => rfl
    | cons outcome outcomes =>
      rw [List.map_cons, marks, marks, mark_bare]
      exact ih _ _

namespace Session

/-- **The session `b` is `t` up to the bases**, and the files `ahead` have come to own a slot in `b`
already. -/
structure Mirrors (ahead : List FileId) (b t : Session) : Prop extends Framed t b where
  order : b.store.order = t.store.order
  revision : b.store.revision = t.store.revision
  record : ∀ file, (b.store.record? file).map (·.bare) = (t.store.record? file).map (·.bare)
  owns : ∀ file, (b.layers.stableBase? file).isSome = true ↔
    file ∈ ahead ∨ (t.layers.stableBase? file).isSome = true

variable {ahead : List FileId} {b t : Session} {e : Entry}

namespace Mirrors

theorem of_prepares {s : Session} {results : List (Entry × BatchResult)}
    (h : Prepares s b results) : Mirrors (freshFiles results) b s where
  toFramed := h.toFramed
  order := by rw [h.store]
  revision := by rw [h.store]
  record file := by rw [h.store]
  owns := h.owns

variable (hm : Mirrors ahead b t)
include hm

theorem contains (file : FileId) : b.store.contains file = t.store.contains file := by
  have hrecord := congrArg Option.isSome (hm.record file)
  rw [Option.isSome_map, Option.isSome_map] at hrecord
  exact hrecord

/-- A record answers for the same sources on both sides. -/
theorem cached? (file : FileId) (fingerprint : Fingerprint) :
    b.cached? file fingerprint = t.cached? file fingerprint := by
  have hrecord := hm.record file
  unfold Session.cached?
  cases hb : b.store.record? file with
  | none =>
    rw [hb, Option.map_none, eq_comm, Option.map_eq_none_iff] at hrecord
    rw [hrecord]
  | some record =>
    rw [hb, Option.map_some, eq_comm, Option.map_eq_some_iff] at hrecord
    obtain ⟨record', ht, hbare⟩ := hrecord
    have hfingerprint : record'.fingerprint = record.fingerprint :=
      (congrArg FileRecord.fingerprint hbare :)
    have hcode : record'.code = record.code := (congrArg FileRecord.code hbare :)
    have hdiagnostics : record'.diagnostics = record.diagnostics :=
      (congrArg FileRecord.diagnostics hbare :)
    rw [ht]
    simp only [Option.bind_eq_bind, Option.bind_some, hfingerprint, hcode, hdiagnostics]

/-- The sets of fallbacks have no part in this. -/
theorem withFallbacks (fallbacks fallbacks' : OrderedSet FileId) :
    Mirrors ahead { b with fallbacks } { t with fallbacks := fallbacks' } :=
  ⟨⟨hm.lifecycle, hm.config, hm.filter, hm.theme, hm.policy, hm.sheets⟩, hm.order, hm.revision,
    hm.record, hm.owns⟩

/-- **Putting records that differ in their layers alone.** -/
theorem put {record record' : FileRecord} (hrecord : record.bare = record'.bare)
    (nextLayer nextLayer' : UInt32) (file : FileId) :
    Mirrors ahead
      { b with layers := b.layers.settle nextLayer, store := b.store.putRecord file record }
      { t with layers := t.layers.settle nextLayer', store := t.store.putRecord file record' } where
  toFramed := ⟨hm.lifecycle, hm.config, hm.filter, hm.theme, hm.policy, hm.sheets⟩
  order := by
    simp only [RuleStore.putRecord, hm.contains file, hm.order]
  revision := by
    simp only [RuleStore.putRecord, hm.revision]
  record other := by
    rw [RuleStore.record?_putRecord, RuleStore.record?_putRecord]
    split
    · rw [Option.map_some, Option.map_some, hrecord]
    · exact hm.record other
  owns := hm.owns

/-- **Releasing** takes the slot from the file on both sides, or on neither. -/
theorem release (hpolicy : t.layers.policy = .stable) {file : FileId} (hfile : file ∉ ahead)
    {r r' : Reservation} (hr : r.file = file) (hr' : r'.file = file) (hfresh : r.fresh = r'.fresh) :
    Mirrors ahead { b with layers := b.layers.release r } { t with layers := t.layers.release r' } where
  toFramed := by
    refine ⟨hm.lifecycle, hm.config, hm.filter, hm.theme, ?_, hm.sheets⟩
    exact (Layers.policy_release _ _).trans (hm.policy.trans (Layers.policy_release _ _).symm)
  order := hm.order
  revision := hm.revision
  record := hm.record
  owns other := by
    rw [Layers.stableBase?_release (hm.policy.trans hpolicy), Layers.stableBase?_release hpolicy,
      hr, hr', hfresh]
    by_cases hgone : r'.fresh = true ∧ file = other
    · rw [if_pos hgone, if_pos hgone, ← hgone.2]
      simp only [Option.isSome_none, Bool.false_eq_true, or_false, hfile]
    · rw [if_neg hgone, if_neg hgone]
      exact hm.owns other

/-! ## One file -/

/-- **Ending a file** gives the same but for the bases. -/
theorem finish (hpolicy : t.layers.policy = .stable) (hfile : e.file ∉ ahead) {r r' : Reservation}
    (hr : r.file = e.file) (hr' : r'.file = e.file) (hfresh : r.fresh = r'.fresh)
    {answer answer' : Except Failure Transform.Output} (hagree : Transform.Agree answer' answer) :
    ∃ outcome outcome' next next',
      (b.finish e.file e.source (.of e.source) r answer).value = (outcome, next) ∧
      (t.finish e.file e.source (.of e.source) r' answer').value = (outcome', next') ∧
      outcome.bare = outcome'.bare ∧ Mirrors ahead next next' := by
  cases hagree with
  | failed failure failure' =>
    refine ⟨_, _, _, _, value_finish_error .., value_finish_error .., ?_, ?_⟩
    · rw [Outcome.bare, Outcome.bare, hm.config]
    · exact (hm.release hpolicy hfile hr hr' hfresh).withFallbacks _ _
  | @done output' output hcode hrules hdiagnostics =>
    have hcount : output.rules.length = output'.rules.length := by
      have hlength := congrArg List.length hrules
      simpa only [Transform.Output.cssTexts, List.length_map] using hlength
    refine ⟨_, _, _, _, value_finish_ok .., value_finish_ok .., ?_, ?_⟩
    · simp only [Outcome.bare, transformedOf, hcode, hdiagnostics, hcount]
    · refine (hm.put ?_ _ _ _).withFallbacks _ _
      simp only [FileRecord.bare, recordOf, hcode, hrules, hdiagnostics]

/-- **Reserving** gives a file a slot on both sides, or on neither. -/
theorem reserve (hpolicy : t.layers.policy = .stable) {file : FileId} (hfile : file ∉ ahead) :
    ∃ r r' layers layers', b.layers.reserve file = .ok (r, layers) ∧
      t.layers.reserve file = .ok (r', layers') ∧ r.fresh = r'.fresh ∧
      Mirrors ahead { b with layers } { t with layers := layers' } := by
  have hpolicy' : b.layers.policy = .stable := hm.policy.trans hpolicy
  obtain ⟨r, layers, hr⟩ := Layers.reserve_of_stable hpolicy' file
  obtain ⟨r', layers', hr'⟩ := Layers.reserve_of_stable hpolicy file
  have hbase := hm.owns file
  rw [or_iff_right hfile, ← Bool.eq_iff_iff] at hbase
  refine ⟨r, r', layers, layers', hr, hr', ?_, ?_, hm.order, hm.revision, hm.record, fun other => ?_⟩
  · rw [Layers.fresh_reserve hpolicy' hr, Layers.fresh_reserve hpolicy hr', ← Option.not_isSome,
      ← Option.not_isSome, hbase]
  · refine ⟨hm.lifecycle, hm.config, hm.filter, hm.theme, ?_, hm.sheets⟩
    exact (Layers.policy_reserve hr).trans (hm.policy.trans (Layers.policy_reserve hr').symm)
  · rw [Layers.stableBase?_reserve hpolicy' hr, Layers.stableBase?_reserve hpolicy hr']
    by_cases heq : file = other
    · simp only [if_pos heq, Option.isSome_some, or_true]
    · rw [if_neg heq, if_neg heq]
      exact hm.owns other

/-- **Processing a file** gives the same but for the bases. -/
theorem process (hpolicy : t.layers.policy = .stable) (hfile : e.file ∉ ahead)
    (hfree : e.transform.BaseFree) :
    ∃ outcome outcome' next next',
      (b.process e.transform e.file e.source).value = (outcome, next) ∧
      (t.process e.transform e.file e.source).value = (outcome', next') ∧
      outcome.bare = outcome'.bare ∧ Mirrors ahead next next' := by
  cases hskip : t.filter.skip? e.file e.source with
  | some reason =>
    have hskip' := hm.filter ▸ hskip
    exact ⟨_, _, _, _, value_process_of_skipped hskip', value_process_of_skipped hskip, rfl, hm⟩
  | none =>
    have hskip' := hm.filter ▸ hskip
    cases hcached : t.cached? e.file (.of e.source) with
    | some answer =>
      have hcached' := (hm.cached? e.file (.of e.source)).trans hcached
      exact ⟨_, _, _, _, value_process_of_done hskip' (value_consider_of_cached hcached'),
        value_process_of_done hskip (value_consider_of_cached hcached), rfl, hm.withFallbacks _ _⟩
    | none =>
      have hcached' := (hm.cached? e.file (.of e.source)).trans hcached
      obtain ⟨r, r', layers, layers', hr, hr', hfresh, hreserved⟩ := hm.reserve hpolicy hfile
      have hpolicy' : layers'.policy = .stable := (Layers.policy_reserve hr').trans hpolicy
      have hagree : Transform.Agree (t.ask e r'.base) (b.ask e r.base) := by
        rw [hm.ask]
        exact hfree _ r.base
      obtain ⟨outcome, outcome', next, next', hfinish, hfinish', hbare, hnext⟩ :=
        hreserved.finish hpolicy' hfile (Layers.reserve_file hr) (Layers.reserve_file hr') hfresh
          hagree
      refine ⟨outcome, outcome', next, next', ?_, ?_, hbare, hnext⟩
      · rw [value_process_of_pending hskip' (value_consider_of_reserved hcached' hr),
          Layers.reserve_file hr]
        exact hfinish
      · rw [value_process_of_pending hskip (value_consider_of_reserved hcached hr'),
          Layers.reserve_file hr']
        exact hfinish'

omit hm in
/-- A file that owns its slot ahead of time has it on both sides once a base is reserved for it. -/
theorem reserved {r r' : Reservation} {layers : Layers}
    (hm : Mirrors (if r.fresh then r.file :: ahead else ahead) b t)
    (hpolicy : t.layers.policy = .stable) (hfresh : r.fresh = (t.layers.stableBase? r.file).isNone)
    (hr : t.layers.reserve r.file = .ok (r', layers)) : Mirrors ahead b { t with layers } where
  toFramed := by
    refine ⟨hm.lifecycle, hm.config, hm.filter, hm.theme, ?_, hm.sheets⟩
    exact hm.policy.trans (Layers.policy_reserve hr).symm
  order := hm.order
  revision := hm.revision
  record := hm.record
  owns other := by
    rw [hm.owns, Layers.stableBase?_reserve hpolicy hr, hfresh]
    by_cases heq : r.file = other
    · subst heq
      cases hold : t.layers.stableBase? r.file <;> simp
    · cases hold : t.layers.stableBase? r.file <;> simp [heq, Ne.symm heq]

end Mirrors

/-! ## Batches -/

/-- **Ending one file of a prepared batch** gives what processing it gives, but for the bases, and the
rest of the batch stays ready. -/
theorem Ready.mirrors_step {pending : List FileId} {result : BatchResult}
    {results : List (Entry × BatchResult)} (hready : Ready t pending ((e, result) :: results))
    (hm : Mirrors (freshFiles ((e, result) :: results)) b t) (hpolicy : t.layers.policy = .stable)
    (hfree : e.transform.BaseFree) :
    ∃ outcome outcome' b' t' pending', (b.finishEntry e result).value = (outcome, b') ∧
      (t.process e.transform e.file e.source).value = (outcome', t') ∧
      outcome.bare = outcome'.bare ∧ Mirrors (freshFiles results) b' t' ∧
      Ready t' pending' results := by
  cases hready with
  | skipped hskip hrest =>
    exact ⟨_, _, b, t, pending, rfl, value_process_of_skipped hskip, rfl, hm, hrest⟩
  | reused hskip _ hcached hrest =>
    refine ⟨_, _, b, _, pending, rfl, value_process_of_done hskip (value_consider_of_cached hcached),
      rfl, hm.withFallbacks b.fallbacks _, hrest.congr ?_ fun _ _ => ⟨rfl, rfl⟩⟩
    exact ⟨rfl, rfl, rfl, rfl, rfl, rfl⟩
  | @attempted _ _ _ r hskip _ hcached hfile hfresh hrest =>
    obtain ⟨-, hnew⟩ := hrest.not_mem List.mem_cons_self
    obtain ⟨r', layers, hr⟩ := Layers.reserve_of_stable hpolicy e.file
    have hpolicy' : layers.policy = .stable := (Layers.policy_reserve hr).trans hpolicy
    have hfresh' : r.fresh = r'.fresh := hfresh.trans (Layers.fresh_reserve hpolicy hr).symm
    have hreserved : Mirrors (freshFiles results) b { t with layers } :=
      Mirrors.reserved hm hpolicy (hfile ▸ hfresh) (hfile ▸ hr)
    have hagree : Transform.Agree (t.ask e r'.base) (t.ask e r.base) := hfree _ r.base
    obtain ⟨outcome, outcome', b', t', hfinish, hfinish', hbare, hnext⟩ :=
      hreserved.finish hpolicy' hnew hfile (Layers.reserve_file hr) hfresh' hagree
    have hprocess : (t.process e.transform e.file e.source).value = (outcome', t') := by
      rw [value_process_of_pending hskip (value_consider_of_reserved hcached hr),
        Layers.reserve_file hr]
      exact hfinish'
    refine ⟨outcome, outcome', b', t', e.file :: pending, hfinish, hprocess, hbare, hnext, ?_⟩
    refine hrest.congr (framed_process hprocess) fun file hrest => ?_
    exact process_elsewhere hpolicy hprocess fun heq => hrest (heq ▸ List.mem_cons_self)
  | deferred _ hold hrest =>
    obtain ⟨-, hnew⟩ := hrest.not_mem hold
    obtain ⟨outcome, outcome', b', t', hb, ht, hbare, hnext⟩ := hm.process hpolicy hnew hfree
    refine ⟨outcome, outcome', b', t', pending, hb, ht, hbare, hnext, ?_⟩
    refine hrest.congr (framed_process ht) fun file hrest => ?_
    exact process_elsewhere hpolicy ht fun heq => hrest (heq ▸ hold)

/-- **Ending a prepared batch** gives what processing its files one after the other gives, but for the
bases. -/
theorem Ready.mirrors {pending : List FileId} {results : List (Entry × BatchResult)}
    (hready : Ready t pending results) (hm : Mirrors (freshFiles results) b t)
    (hpolicy : t.layers.policy = .stable) (hfree : ∀ p ∈ results, p.1.transform.BaseFree) :
    (b.finishBatch results).value.1.map Outcome.bare =
        (t.processEach (results.map (·.1))).value.1.map Outcome.bare ∧
      Mirrors [] (b.finishBatch results).value.2 (t.processEach (results.map (·.1))).value.2 := by
  induction results generalizing b t pending with
  | nil => exact ⟨rfl, hm⟩
  | cons first rest ih =>
    obtain ⟨e, result⟩ := first
    obtain ⟨outcome, outcome', b', t', pending', hb, ht, hbare, hnext, hrest⟩ :=
      hready.mirrors_step hm hpolicy (hfree _ List.mem_cons_self)
    obtain ⟨houtcomes, hlast⟩ := ih hrest hnext ((framed_process ht).policy.trans hpolicy)
      fun p hp => hfree p (List.mem_cons_of_mem _ hp)
    have hentries : ((e, result) :: rest).map (·.1) = e :: rest.map (·.1) := rfl
    rw [value_finishBatch_cons hb, hentries, value_processEach_cons ht, List.map_cons, List.map_cons,
      hbare, houtcomes]
    exact ⟨rfl, hlast⟩

/-- **A batch is its files one after the other, but for the bases.**  Whatever calls a watching session
has had, whatever files come in the batch and whichever of them fail: if the transform takes no notice
of the base, then the outcomes are those that the files give when they are processed in their order,
each without its base; and afterwards the files of the store stand in the same order at the same
revision, with the same records up to their layers, the same files own a slot, and the same files need
a fallback. -/
theorem processBatch_like_processEach {s₀ s : Session} (h₀ : s₀.Starts .watch) {calls : List Call}
    (hs : s₀.after calls = s) {transform : Transform} (hfree : transform.BaseFree)
    (files : List (FileId × String)) :
    let batch := (s.processBatch transform files).value
    let each := (s.processEach (entriesOf transform files)).value
    batch.1.map Outcome.bare = each.1.map Outcome.bare ∧
      batch.2.store.order = each.2.store.order ∧
      (∀ file, (batch.2.store.record? file).map (·.bare) = (each.2.store.record? file).map (·.bare)) ∧
      batch.2.store.revision = each.2.store.revision ∧
      (∀ file, (batch.2.layers.stableBase? file).isSome = (each.2.layers.stableBase? file).isSome) ∧
      batch.2.fallbacks = each.2.fallbacks := by
  intro batch each
  have hpolicy : s.layers.policy = .stable := hs ▸ policy_after h₀ calls
  obtain ⟨b, results, hready, hb, hentries, hvalue⟩ :=
    processEntries_ready hpolicy (entriesOf transform files)
  have hfree' : ∀ p ∈ results, p.1.transform.BaseFree := by
    intro p hp
    have hmem : p.1 ∈ entriesOf transform files := hentries ▸ List.mem_map_of_mem hp
    obtain ⟨f, -, heq⟩ := List.mem_map.mp hmem
    rw [← heq]
    exact hfree
  obtain ⟨houtcomes, hlast⟩ := hready.mirrors (.of_prepares hb) hpolicy hfree'
  rw [hentries, ← hvalue] at houtcomes hlast
  refine ⟨houtcomes, hlast.order, hlast.record, hlast.revision, fun file => ?_, ?_⟩
  · rw [Bool.eq_iff_iff]
    exact (hlast.owns file).trans (or_iff_right List.not_mem_nil)
  · have hbatch := fallbacks_processEntries s (entriesOf transform files)
    have heach := fallbacks_processEach s (entriesOf transform files)
    rw [← Outcome.marks_bare, houtcomes, Outcome.marks_bare] at hbatch
    exact hbatch.trans heach.symm

/-- A new file that fails, another that takes its slot only if the batch is split, the first file with
a source that succeeds, and a known file that is reused. -/
theorem processBatch_like_processEach_displaced :
    let transform : Transform := fun input =>
      if input.source = "strata!" then .failed (.ofText "no such style") else oneRule input
    let s := (blank .watch).after [.process ⟨⟨"k.ts"⟩, "strata", transform⟩]
    let files : List (FileId × String) := [(⟨"a.ts"⟩, "strata!"), (⟨"b.ts"⟩, "strata"),
      (⟨"a.ts"⟩, "strata"), (⟨"k.ts"⟩, "strata"), (⟨"k.ts"⟩, "strata!")]
    transform.BaseFree ∧
      (s.processBatch transform files).value.2.layers.stableBase? ⟨"b.ts"⟩ = some 2000 ∧
      (s.processEach (entriesOf transform files)).value.2.layers.stableBase? ⟨"b.ts"⟩ = some 1000 ∧
      (s.processBatch transform files).value.1.map Outcome.bare =
        (s.processEach (entriesOf transform files)).value.1.map Outcome.bare ∧
      (s.processBatch transform files).value.2.fallbacks =
        (s.processEach (entriesOf transform files)).value.2.fallbacks := by
  intro transform s files
  have hfree : transform.BaseFree := by
    intro input base
    by_cases hsource : input.source = "strata!"
    · simp only [transform, hsource, if_true]
      exact .failed _ _
    · simp only [transform, hsource, if_false]
      exact .done rfl rfl rfl
  obtain ⟨houtcomes, -, -, -, -, hfallbacks⟩ :=
    processBatch_like_processEach (starts_blank .watch) (s := s) rfl hfree files
  exact ⟨hfree, by decide +kernel, by decide +kernel, houtcomes, hfallbacks⟩

end Session

end LayeredCss

import LayeredCss.Proofs.Session.Run

/-!
# A batch and its files one by one

Under the stable policy a batch prepares all its files before it ends the first.  What ending a file
does to a session in which the file owns a slot is an *effect*: it touches the record of this file
and the set of fallbacks, and moves the counter on, but no slot.  Preparing the files behind it is
not disturbed by that (`prepareBatch_apply`), so the effect may as well come first, as it does when
the files are processed one after the other.

* `process_effect`, `finish_effect`: ending a file that owns a slot is an effect;
* `prepareBatch_apply`: preparing a batch commutes with the effects of files that are pending;
* `processBatch_eq_processEach`: a batch gives what its files give one after the other, unless a
  file that owns no slot fails at its first transform.
-/

namespace LayeredCss.Session

/-! ## What preparing leaves alone -/

/-- Sessions in which processing the file comes to the same, if it owns a slot. -/
structure Alike (file : FileId) (s t : Session) : Prop extends Framed s t where
  record : t.store.record? file = s.store.record? file
  base : ∀ base, s.layers.stableBase? file = some base → t.layers.stableBase? file = some base

namespace Alike

variable {file : FileId} {s t u : Session}

theorem refl (file : FileId) (s : Session) : Alike file s s :=
  ⟨.refl s, rfl, fun _ h => h⟩

theorem trans (h : Alike file s t) (h' : Alike file t u) : Alike file s u :=
  ⟨h.toFramed.trans h'.toFramed, h'.record.trans h.record,
    fun base hb => h'.base base (h.base base hb)⟩

theorem cached? (h : Alike file s t) (fingerprint : Fingerprint) :
    t.cached? file fingerprint = s.cached? file fingerprint := cached?_congr h.record fingerprint

theorem new (h : Alike file s t) (hnew : t.layers.stableBase? file = none) :
    s.layers.stableBase? file = none := by
  refine Option.eq_none_iff_forall_ne_some.mpr fun base hbase => ?_
  cases hnew.symm.trans (h.base base hbase)

end Alike

theorem alike_prepareEntry (s : Session) (pending : List FileId) (e : Entry) (file : FileId) :
    Alike file s (s.prepareEntry pending e).value.2 := by
  have hbase : ∀ base, s.layers.stableBase? file = some base →
      (s.prepareEntry pending e).value.2.layers.stableBase? file = some base :=
    fun base => stableBase?_prepareEntry pending e
  rcases s.prepareEntry_cases pending e with ⟨_, -, h⟩ | ⟨-, -, h⟩ | ⟨-, -, ⟨_, -, h⟩ | ⟨-,
    ⟨_, -, h⟩ | ⟨r, layers, hr, h⟩⟩⟩ <;> rw [h] at hbase ⊢
  · exact .refl file s
  · exact .refl file s
  · exact ⟨⟨rfl, rfl, rfl, rfl, rfl, rfl⟩, rfl, hbase⟩
  · exact ⟨⟨rfl, rfl, rfl, rfl, rfl, rfl⟩, rfl, hbase⟩
  · exact ⟨⟨rfl, rfl, rfl, rfl, Layers.policy_reserve hr, rfl⟩, rfl, hbase⟩

theorem alike_prepareBatch (s : Session) (pending : List FileId) (entries : List Entry)
    (file : FileId) : Alike file s (s.prepareBatch pending entries).value.2 := by
  induction entries generalizing s pending with
  | nil => exact .refl file s
  | cons e rest ih =>
    have hentry := s.alike_prepareEntry pending e file
    cases hvalue : (s.prepareEntry pending e).value with
    | mk step next =>
      rw [hvalue] at hentry
      rw [value_prepareBatch_cons hvalue]
      exact hentry.trans (ih next _)

/-! ## Effects -/

/-- What ending a file that owns a slot does to the session. -/
inductive Effect
  | reuse (file : FileId)
  | fallBack (file : FileId)
  | put (file : FileId) (record : FileRecord)

namespace Effect

def file : Effect → FileId
  | reuse file => file
  | fallBack file => file
  | put file _ => file

def apply (s : Session) : Effect → Session
  | reuse file => { s with fallbacks := s.fallbacks.erase file }
  | fallBack file => { s with fallbacks := s.fallbacks.insert file () }
  | put file record =>
    { s with
      layers := s.layers.settle record.nextLayer
      store := s.store.putRecord file record
      fallbacks := s.fallbacks.erase file }

variable {effect : Effect} {s : Session} {file : FileId}

theorem framed : Framed s (effect.apply s) := by
  cases effect <;> exact ⟨rfl, rfl, rfl, rfl, rfl, rfl⟩

@[simp] theorem apply_stableBase? :
    (effect.apply s).layers.stableBase? file = s.layers.stableBase? file := by
  cases effect <;> rfl

theorem alike (hfile : effect.file ≠ file) : Alike file s (effect.apply s) := by
  refine ⟨framed, ?_, fun base hbase => by rw [apply_stableBase?, hbase]⟩
  cases effect with
  | reuse | fallBack => rfl
  | put other record => exact (s.store.record?_putRecord other record file).trans (if_neg hfile)

/-- Effects on one file and the reuse of the record of another commute. -/
theorem apply_reuse (hfile : effect.file ≠ file) :
    { effect.apply s with fallbacks := (effect.apply s).fallbacks.erase file } =
      effect.apply { s with fallbacks := s.fallbacks.erase file } := by
  cases effect with
  | reuse other => simp only [apply, OrderedMap.erase_comm _ other file]
  | fallBack other =>
    have hne : other ≠ file := hfile
    simp only [apply, OrderedMap.erase_insert_comm _ () hne]
  | put other record => simp only [apply, OrderedMap.erase_comm _ other file]

/-- Effects on one file and reservations of another commute. -/
theorem apply_reserve (effect : Effect) (hpolicy : s.layers.policy = .stable) {r : Reservation}
    {layers : Layers} (hr : s.layers.reserve file = .ok (r, layers)) :
    ∃ layers', (effect.apply s).layers.reserve file = .ok (r, layers') ∧
      { effect.apply s with layers := layers' } = effect.apply { s with layers } := by
  cases effect with
  | reuse | fallBack => exact ⟨layers, hr, rfl⟩
  | put other record =>
    exact ⟨layers.settle record.nextLayer, Layers.reserve_settle hpolicy hr _, rfl⟩

end Effect

/-! ## Preparing a batch -/

theorem prepareEntry_apply {s : Session} {pending : List FileId} {effect : Effect}
    (hpolicy : s.layers.policy = .stable) (hfile : effect.file ∈ pending) (e : Entry) :
    ((effect.apply s).prepareEntry pending e).value =
      ((s.prepareEntry pending e).value.1, effect.apply (s.prepareEntry pending e).value.2) := by
  have hfilter : (effect.apply s).filter = s.filter := Effect.framed.filter
  rcases s.prepareEntry_cases pending e with ⟨reason, hskip, h⟩ | ⟨hskip, hp, h⟩ |
    ⟨hskip, hp, ⟨answer, hcached, h⟩ | ⟨hcached, ⟨failure, hr, -⟩ | ⟨r, layers, hr, h⟩⟩⟩
  · rw [h, value_prepareEntry_of_skipped (hfilter ▸ hskip)]
  · rw [h, value_prepareEntry_of_pending (hfilter ▸ hskip) hp]
  · have hne : effect.file ≠ e.file := fun heq => hp (heq ▸ hfile)
    have hcached' := ((Effect.alike (s := s) hne).cached? _).trans hcached
    rw [h, value_prepareEntry_of_new (hfilter ▸ hskip) hp, value_consider_of_cached hcached',
      Effect.apply_reuse hne]
  · exact absurd hr (Layers.reserve_ne_error hpolicy)
  · have hne : effect.file ≠ e.file := fun heq => hp (heq ▸ hfile)
    have hcached' := ((Effect.alike (s := s) hne).cached? _).trans hcached
    obtain ⟨layers', hr', heq⟩ := effect.apply_reserve hpolicy hr
    rw [h, value_prepareEntry_of_new (hfilter ▸ hskip) hp, value_consider_of_reserved hcached' hr',
      heq]

/-- **Preparing a batch commutes with the effects of files that are pending.** -/
theorem prepareBatch_apply {s : Session} {pending : List FileId} {effect : Effect}
    (hpolicy : s.layers.policy = .stable) (hfile : effect.file ∈ pending) (entries : List Entry) :
    ((effect.apply s).prepareBatch pending entries).value =
      ((s.prepareBatch pending entries).value.1,
        effect.apply (s.prepareBatch pending entries).value.2) := by
  induction entries generalizing s pending with
  | nil => rfl
  | cons e rest ih =>
    have happly := prepareEntry_apply hpolicy hfile e
    have hnext := (s.alike_prepareEntry pending e e.file).policy
    cases hvalue : (s.prepareEntry pending e).value with
    | mk step next =>
      rw [hvalue] at happly hnext
      have hmark : effect.file ∈ step.mark e.file pending := by
        unfold BatchStep.mark
        split
        · exact List.mem_cons_of_mem _ hfile
        · exact hfile
      rw [value_prepareBatch_cons happly, value_prepareBatch_cons hvalue,
        ih (hnext.trans hpolicy) hmark]

/-! ## Ending files -/

/-- Ending a file is an effect, unless it gives a slot back; sessions with the same settings agree
on outcome and effect. -/
theorem finish_effect (s : Session) (e : Entry) (r : Reservation)
    (result : Except Failure Transform.Output)
    (hkept : ∀ failure, result = .error failure → r.fresh = false) :
    ∃ (outcome : Outcome) (effect : Effect), effect.file = e.file ∧
      ∀ t : Session, t.config = s.config → t.layers.policy = .stable →
        (t.finish e.file e.source (.of e.source) r result).value = (outcome, effect.apply t) := by
  cases result with
  | error failure =>
    refine ⟨.fallback (fallbackCode s.config e.source) failure, .fallBack e.file, rfl,
      fun t hconfig hpolicy => ?_⟩
    rw [value_finish_error, Layers.release_of_not_fresh hpolicy (hkept failure rfl), ← hconfig]
    rfl
  | ok output =>
    refine ⟨.transformed (transformedOf r output (Diagnostic.errors output.diagnostics).length),
      .put e.file (recordOf (.of e.source) r output), rfl, fun t _ _ => ?_⟩
    rw [value_finish_ok]
    rfl

/-- **Processing a file that owns a slot is an effect**, with the same outcome in sessions that are
alike. -/
theorem process_effect {s : Session} {e : Entry} {base : UInt32}
    (hpolicy : s.layers.policy = .stable) (hbase : s.layers.stableBase? e.file = some base)
    (hskip : s.filter.skip? e.file e.source = none) :
    ∃ (outcome : Outcome) (effect : Effect), effect.file = e.file ∧
      ∀ t : Session, Alike e.file s t →
        (t.process e.transform e.file e.source).value = (outcome, effect.apply t) := by
  cases hcached : s.cached? e.file (.of e.source) with
  | some answer =>
    refine ⟨.unchanged answer.1 answer.2, .reuse e.file, rfl, fun t ht => ?_⟩
    refine value_process_of_done (ht.filter ▸ hskip) (value_consider_of_cached ?_)
    rw [ht.cached?, hcached]
  | none =>
    obtain ⟨outcome, effect, hfile, hfinish⟩ := finish_effect s e ⟨e.file, base, false⟩
      (s.ask e base) fun _ _ => rfl
    refine ⟨outcome, effect, hfile, fun t ht => ?_⟩
    have hpolicy' : t.layers.policy = .stable := ht.policy.trans hpolicy
    have hreserve : t.layers.reserve e.file = .ok (⟨e.file, base, false⟩, t.layers) := by
      rcases Layers.reserve_cases hpolicy' e.file with ⟨base', hbase', hr⟩ | ⟨hnew, -⟩
      · cases hbase'.symm.trans (ht.base base hbase)
        exact hr
      · cases hnew.symm.trans (ht.base base hbase)
    rw [value_process_of_pending (ht.filter ▸ hskip)
      (value_consider_of_reserved (by rw [ht.cached?, hcached]) hreserve)]
    rw [← ht.ask] at hfinish
    exact hfinish t ht.config hpolicy'

/-! ## Batches -/

section Entry

variable {s next : Session} {pending : List FileId} {e : Entry} {step : BatchStep}
  (hpolicy : s.layers.policy = .stable)
  (howned : ∀ file ∈ pending, ∃ base, s.layers.stableBase? file = some base)
  (hprepare : (s.prepareEntry pending e).value = (step, next))
include hpolicy howned hprepare

/-- Every file that is pending owns a slot. -/
theorem owned_mark : ∀ file ∈ step.mark e.file pending,
    ∃ base, next.layers.stableBase? file = some base := by
  have hold : ∀ file ∈ pending, ∃ base, next.layers.stableBase? file = some base := by
    intro file hfile
    obtain ⟨base, hbase⟩ := howned file hfile
    have hnext := stableBase?_prepareEntry pending e hbase
    rw [hprepare] at hnext
    exact ⟨base, hnext⟩
  rcases s.prepareEntry_cases pending e with ⟨_, -, h⟩ | ⟨-, -, h⟩ | ⟨-, -, ⟨_, -, h⟩ | ⟨-,
    ⟨_, -, h⟩ | ⟨r, layers, hr, h⟩⟩⟩ <;> cases hprepare.symm.trans h
  · exact hold
  · exact hold
  · exact hold
  · exact hold
  · intro file hfile
    rcases List.mem_cons.mp hfile with rfl | hfile
    · exact ⟨r.base, by rw [Layers.stableBase?_reserve hpolicy hr, if_pos rfl]⟩
    · exact hold file hfile

/-- **Ending a file of a batch** does to the prepared batch what processing the file does to the
session in which only this file is prepared. -/
theorem finishEntry_cases {u : Session} (hask : u.ask = s.ask) {rest : List Entry}
    {steps : List (Entry × BatchStep)} {b : Session}
    (hrest : (next.prepareBatch (step.mark e.file pending) rest).value = (steps, b))
    (hfirst : s.layers.stableBase? e.file = none →
      (b.finishEntry e (u.attemptEntry e step).value).value.1.attempted = true →
      (b.finishEntry e (u.attemptEntry e step).value).value.1.mutated = true) :
    ∃ outcome : Outcome,
      ((s.process e.transform e.file e.source).value = (outcome, next) ∧
        (b.finishEntry e (u.attemptEntry e step).value).value = (outcome, b) ∧
        outcome.attempted = false) ∨
      ∃ effect : Effect, effect.file = e.file ∧ effect.file ∈ step.mark e.file pending ∧
        (s.process e.transform e.file e.source).value = (outcome, effect.apply next) ∧
        (b.finishEntry e (u.attemptEntry e step).value).value = (outcome, effect.apply b) := by
  have halike : Alike e.file next b := by
    have halike := next.alike_prepareBatch (step.mark e.file pending) rest e.file
    rw [hrest] at halike
    exact halike
  rcases s.prepareEntry_cases pending e with ⟨reason, hskip, h⟩ | ⟨hskip, hp, h⟩ |
    ⟨hskip, -, ⟨answer, hcached, h⟩ | ⟨hcached, ⟨failure, hr, -⟩ | ⟨r, layers, hr, h⟩⟩⟩
  · cases hprepare.symm.trans h
    exact ⟨.skipped reason, Or.inl ⟨value_process_of_skipped hskip, rfl, rfl⟩⟩
  · cases hprepare.symm.trans h
    obtain ⟨base, hbase⟩ := howned e.file hp
    obtain ⟨outcome, effect, hfile, hprocess⟩ := process_effect hpolicy hbase hskip
    exact ⟨outcome, Or.inr ⟨effect, hfile, hfile ▸ hp, hprocess s (.refl _ _), hprocess b halike⟩⟩
  · cases hprepare.symm.trans h
    exact ⟨.unchanged answer.1 answer.2,
      Or.inl ⟨value_process_of_done hskip (value_consider_of_cached hcached), rfl, rfl⟩⟩
  · exact absurd hr (Layers.reserve_ne_error hpolicy)
  · cases hprepare.symm.trans h
    have hfile := Layers.reserve_file hr
    rw [value_attemptEntry_pending hfile, value_finishEntry_attempted] at hfirst ⊢
    have hkept : ∀ failure, u.ask e r.base = .error failure → r.fresh = false := by
      intro failure hfailure
      rcases Layers.reserve_cases hpolicy e.file with ⟨base, -, hr'⟩ | ⟨hnew, -⟩
      · cases hr.symm.trans hr'
        rfl
      · -- a slot that is given back would be one of a first transform that failed
        have hmutated := hfirst hnew
        rw [hfailure] at hmutated
        cases hmutated rfl
    have hlayers : layers.policy = .stable := (Layers.policy_reserve hr).trans hpolicy
    obtain ⟨outcome, effect, heffect, hfinish⟩ := finish_effect s e r (u.ask e r.base) hkept
    refine ⟨outcome, Or.inr ⟨effect, heffect, heffect ▸ List.mem_cons_self, ?_, ?_⟩⟩
    · rw [value_process_of_pending hskip (value_consider_of_reserved hcached hr), hfile]
      rw [hask] at hfinish
      exact hfinish { s with layers } rfl hlayers
    · exact hfinish b halike.config (halike.policy.trans hlayers)

end Entry

/-- Each file that owns no slot is given an output when its transform is called for the first
time. -/
def FirstsSucceed (s : Session) (outcomes : List (FileId × Outcome)) : Prop :=
  ∀ p ∈ outcomes, s.layers.stableBase? p.1 = none →
    (outcomes.find? fun q => q.1 = p.1 && q.2.attempted).all (·.2.mutated) = true

instance (s : Session) (outcomes : List (FileId × Outcome)) :
    Decidable (s.FirstsSucceed outcomes) :=
  inferInstanceAs (Decidable (∀ p ∈ outcomes, s.layers.stableBase? p.1 = none →
    (outcomes.find? fun q => q.1 = p.1 && q.2.attempted).all (·.2.mutated) = true))

theorem FirstsSucceed.head {s : Session} {file : FileId} {outcome : Outcome}
    {rest : List (FileId × Outcome)} (h : s.FirstsSucceed ((file, outcome) :: rest))
    (hnew : s.layers.stableBase? file = none) (ho : outcome.attempted = true) :
    outcome.mutated = true := by
  have hfile := h (file, outcome) List.mem_cons_self hnew
  rw [List.find?_cons_of_pos (by simpa using ho)] at hfile
  exact hfile

theorem FirstsSucceed.tail {s t : Session} {file : FileId} {outcome : Outcome}
    {rest : List (FileId × Outcome)} (h : s.FirstsSucceed ((file, outcome) :: rest))
    (ht : ∀ other, t.layers.stableBase? other = none → s.layers.stableBase? other = none)
    (ho : outcome.attempted = true → t.layers.stableBase? file ≠ none) : t.FirstsSucceed rest := by
  intro p hp hnew
  have hfile := h p (List.mem_cons_of_mem _ hp) (ht p.1 hnew)
  rw [List.find?_cons_of_neg ?_] at hfile
  · exact hfile
  · simp only [Bool.and_eq_true, decide_eq_true_eq]
    rintro ⟨heq, hattempted⟩
    exact ho hattempted (heq ▸ hnew)

/-- **Ending a prepared batch** gives what processing its files one after the other gives. -/
theorem finishBatch_eq_processEach {s u b : Session} {pending : List FileId} {entries : List Entry}
    {steps : List (Entry × BatchStep)} (hpolicy : s.layers.policy = .stable)
    (howned : ∀ file ∈ pending, ∃ base, s.layers.stableBase? file = some base)
    (hask : u.ask = s.ask) (hprepare : (s.prepareBatch pending entries).value = (steps, b))
    (hfirst : s.FirstsSucceed ((entries.map (·.file)).zip
      (b.finishBatch (u.attemptBatch steps).value).value.1)) :
    (b.finishBatch (u.attemptBatch steps).value).value = (s.processEach entries).value := by
  induction entries generalizing s b pending steps with
  | nil =>
    cases hprepare
    rfl
  | cons e rest ih =>
    have halike := s.alike_prepareEntry pending e
    cases hentry : (s.prepareEntry pending e).value with
    | mk step next =>
      rw [hentry] at halike
      have hnext : next.layers.policy = .stable := (halike e.file).policy.trans hpolicy
      have hmark := owned_mark hpolicy howned hentry
      cases hrest : (next.prepareBatch (step.mark e.file pending) rest).value with
      | mk steps' b' =>
        rw [value_prepareBatch_cons hentry, hrest] at hprepare
        cases hprepare
        have hcases := finishEntry_cases hpolicy howned hentry hask hrest
        rw [value_attemptBatch_cons] at hfirst ⊢
        cases hfinish : (b'.finishEntry e (u.attemptEntry e step).value).value with
        | mk outcome after =>
          rw [hfinish] at hcases
          rw [value_finishBatch_cons hfinish] at hfirst ⊢
          rw [List.map_cons, List.zip_cons_cons] at hfirst
          obtain ⟨o, ⟨hprocess, heq, ho⟩ | ⟨effect, heffect, hmem, hprocess, heq⟩⟩ :=
            hcases hfirst.head
          · cases heq
            rw [value_processEach_cons hprocess,
              ih hnext hmark (hask.trans (halike e.file).ask.symm) hrest]
            refine hfirst.tail (fun other => (halike other).new) fun hattempted => ?_
            cases ho.symm.trans hattempted
          · cases heq
            have hcommute := prepareBatch_apply hnext hmem rest
            rw [hrest] at hcommute
            have hframed : Framed next (effect.apply next) := Effect.framed
            rw [value_processEach_cons hprocess,
              ih (hframed.policy.trans hnext) ?_ ?_ hcommute]
            · refine hfirst.tail (fun other hnew => ?_) fun _ hnew => ?_
              · exact (halike other).new (Effect.apply_stableBase?.symm.trans hnew)
              · obtain ⟨base, hbase⟩ := hmark effect.file hmem
                rw [Effect.apply_stableBase?, ← heffect, hbase] at hnew
                cases hnew
            · intro file hfile
              rw [Effect.apply_stableBase?]
              exact hmark file hfile
            · rw [hframed.ask, (halike e.file).ask, hask]

theorem processEntries_eq_processEach {s : Session} {entries : List Entry}
    (hpolicy : s.layers.policy = .stable)
    (hfirst : s.FirstsSucceed
      ((entries.map (·.file)).zip (s.processEntries entries).value.1)) :
    (s.processEntries entries).value = (s.processEach entries).value := by
  cases hprepare : (s.prepareBatch [] entries).value with
  | mk steps b =>
    have halike := s.alike_prepareBatch [] entries default
    rw [hprepare] at halike
    rw [value_processEntries_of_stable hpolicy hprepare] at hfirst ⊢
    exact finishBatch_eq_processEach hpolicy (fun _ h => absurd h List.not_mem_nil) halike.ask
      hprepare hfirst

/-- **A batch is its files one after the other.**  Whatever calls a watching session has had, a
batch gives the outcomes and the session, slots and counter included, that its files give when they
are processed in their order, if each file that owns no slot yet is given an output when its
transform is first called. -/
theorem processBatch_eq_processEach {s₀ s : Session} (h₀ : s₀.Starts .watch) {calls : List Call}
    (hs : s₀.after calls = s) (transform : Transform) {files : List (FileId × String)}
    (hfirst : s.FirstsSucceed
      ((files.map (·.1)).zip (s.processBatch transform files).value.1)) :
    (s.processBatch transform files).value =
      (s.processEach (entriesOf transform files)).value := by
  have hpolicy : s.layers.policy = .stable := hs ▸ policy_after h₀ calls
  have hfiles : (entriesOf transform files).map (·.file) = files.map (·.1) := by
    unfold entriesOf
    rw [List.map_map]
    rfl
  rw [← hfiles] at hfirst
  exact processEntries_eq_processEach hpolicy hfirst

/-- A batch of a known file, a new one that comes twice and fails the second time, a file that is
skipped and the known file with another source. -/
theorem processBatch_eq_processEach_repeated :
    let transform : Transform := fun input =>
      if input.source = "strata!" then .failed (.ofText "no such style") else oneRule input
    let s := (blank .watch).after [.process ⟨⟨"a.ts"⟩, "strata", transform⟩]
    let files : List (FileId × String) := [(⟨"a.ts"⟩, "strata"), (⟨"b.ts"⟩, "strata"),
      (⟨"b.ts"⟩, "strata!"), (⟨"c.css"⟩, "strata"), (⟨"a.ts"⟩, "strata?")]
    (s.processBatch transform files).value.1.map Outcome.mutated =
        [false, true, false, false, true] ∧
      (s.processBatch transform files).value =
        (s.processEach (entriesOf transform files)).value := by
  intro transform s files
  have hfirst : s.FirstsSucceed
      ((files.map (·.1)).zip (s.processBatch transform files).value.1) := by
    decide +kernel
  refine ⟨by decide +kernel, ?_⟩
  exact processBatch_eq_processEach (starts_blank .watch) (s := s) rfl transform hfirst

end LayeredCss.Session

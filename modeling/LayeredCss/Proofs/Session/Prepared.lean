import LayeredCss.Proofs.Session.Moves

/-!
# A batch that has been prepared

Under the stable policy a batch looks at all its files and calls their transforms before it ends the
first of them.  What it has found out then, it has found out in the session as it was before the
batch, and yet it is right at the time at which the file is ended: a file is looked at again, when its
turn comes, once a transform of it has been called.

* `Ready`: how the results of a batch come about, as seen by a session in which the files behind have
  not been processed;
* `Ready.congr`: the results stand as long as nothing but the files that are pending changes;
* `prepareBatch_ready`, `processEntries_ready`: what a batch is when it has been prepared.
-/

namespace LayeredCss.Session

/-- **The results of a batch that have not been ended**, in the session `t`.  `pending` holds the files
whose transforms have been called for the results before. -/
inductive Ready (t : Session) : List FileId → List (Entry × BatchResult) → Prop
  | nil (pending : List FileId) : Ready t pending []
  | skipped {pending : List FileId} {results : List (Entry × BatchResult)} {e : Entry}
    {reason : SkipReason} (hskip : t.filter.skip? e.file e.source = some reason)
    (rest : Ready t pending results) : Ready t pending ((e, .done (.skipped reason)) :: results)
  | reused {pending : List FileId} {results : List (Entry × BatchResult)} {e : Entry}
    {answer : String × List Diagnostic} (hskip : t.filter.skip? e.file e.source = none)
    (hfile : e.file ∉ pending) (hcached : t.cached? e.file (.of e.source) = some answer)
    (rest : Ready t pending results) :
    Ready t pending ((e, .done (.unchanged answer.1 answer.2)) :: results)
  | attempted {pending : List FileId} {results : List (Entry × BatchResult)} {e : Entry}
    {r : Reservation} (hskip : t.filter.skip? e.file e.source = none) (hfile : e.file ∉ pending)
    (hcached : t.cached? e.file (.of e.source) = none) (hr : r.file = e.file)
    (hfresh : r.fresh = (t.layers.stableBase? e.file).isNone)
    (rest : Ready t (e.file :: pending) results) :
    Ready t pending ((e, .attempted (.of e.source) r (t.ask e r.base)) :: results)
  | deferred {pending : List FileId} {results : List (Entry × BatchResult)} {e : Entry}
    (hskip : t.filter.skip? e.file e.source = none) (hfile : e.file ∈ pending)
    (rest : Ready t pending results) : Ready t pending ((e, .deferred) :: results)

/-- The files that are answered from their records. -/
def reusedFiles : List (Entry × BatchResult) → List FileId
  | [] => []
  | (e, .done (.unchanged _ _)) :: rest => e.file :: reusedFiles rest
  | _ :: rest => reusedFiles rest

/-- The files that have come to own a slot by their reservations. -/
def freshFiles : List (Entry × BatchResult) → List FileId
  | [] => []
  | (_, .attempted _ r _) :: rest => if r.fresh then r.file :: freshFiles rest else freshFiles rest
  | _ :: rest => freshFiles rest

variable {s t : Session} {pending : List FileId} {results : List (Entry × BatchResult)}

/-- A file that is pending is neither answered from its record nor given a slot by the batch. -/
theorem Ready.not_mem (h : Ready t pending results) {file : FileId} (hfile : file ∈ pending) :
    file ∉ reusedFiles results ∧ file ∉ freshFiles results := by
  induction h with
  | nil => exact ⟨List.not_mem_nil, List.not_mem_nil⟩
  | skipped _ _ ih => exact ih hfile
  | reused _ hnew _ _ ih =>
    obtain ⟨hreused, hfresh⟩ := ih hfile
    refine ⟨fun hmem => ?_, hfresh⟩
    rcases List.mem_cons.mp hmem with rfl | hmem
    · exact hnew hfile
    · exact hreused hmem
  | @attempted pending results e r _ hnew _ hr _ _ ih =>
    obtain ⟨hreused, hfresh⟩ := ih (List.mem_cons_of_mem _ hfile)
    refine ⟨hreused, fun hmem => ?_⟩
    unfold freshFiles at hmem
    split at hmem
    · rcases List.mem_cons.mp hmem with rfl | hmem
      · exact hnew (hr ▸ hfile)
      · exact hfresh hmem
    · exact hfresh hmem
  | deferred _ _ _ ih => exact ih hfile

/-- **Results stand** as long as nothing but the files that are pending changes. -/
theorem Ready.congr (h : Ready s pending results) (hframed : Framed s t)
    (hrest : ∀ file, file ∉ pending → t.store.record? file = s.store.record? file ∧
      t.layers.stableBase? file = s.layers.stableBase? file) : Ready t pending results := by
  induction h with
  | nil => exact .nil _
  | skipped hskip _ ih => exact .skipped (hframed.filter ▸ hskip) (ih hrest)
  | reused hskip hnew hcached _ ih =>
    obtain ⟨hrecord, -⟩ := hrest _ hnew
    exact .reused (hframed.filter ▸ hskip) hnew ((cached?_congr hrecord _).trans hcached) (ih hrest)
  | @attempted pending results e r hskip hnew hcached hr hfresh _ ih =>
    obtain ⟨hrecord, hbase⟩ := hrest e.file hnew
    rw [← hframed.ask]
    refine .attempted (hframed.filter ▸ hskip) hnew ((cached?_congr hrecord _).trans hcached) hr
      (hbase ▸ hfresh) (ih fun file hfile => hrest file ?_)
    exact fun hmem => hfile (List.mem_cons_of_mem _ hmem)
  | deferred hskip hold _ ih => exact .deferred (hframed.filter ▸ hskip) hold (ih hrest)

/-- **What preparing a batch does to the session**: files come to own slots, and files that are
answered from their records need no fallback any more. -/
structure Prepares (s b : Session) (results : List (Entry × BatchResult)) : Prop
    extends Framed s b where
  store : b.store = s.store
  owns : ∀ file, (b.layers.stableBase? file).isSome = true ↔
    file ∈ freshFiles results ∨ (s.layers.stableBase? file).isSome = true
  marks : ∀ file, b.fallbacks.contains file = true ↔
    file ∉ reusedFiles results ∧ s.fallbacks.contains file = true

/-- **A batch that has been prepared** is ready in the session as it was before. -/
theorem prepareBatch_ready {u : Session} (hpolicy : s.layers.policy = .stable) (hask : u.ask = s.ask)
    (pending : List FileId) (entries : List Entry) :
    Ready s pending (u.attemptBatch (s.prepareBatch pending entries).value.1).value ∧
      Prepares s (s.prepareBatch pending entries).value.2
        (u.attemptBatch (s.prepareBatch pending entries).value.1).value := by
  induction entries generalizing s pending with
  | nil => exact ⟨.nil _, .refl s, rfl, fun file => by simp [prepareBatch, attemptBatch, freshFiles],
      fun file => by simp [prepareBatch, attemptBatch, reusedFiles]⟩
  | cons e rest ih =>
    rcases s.prepareEntry_cases pending e with ⟨reason, hskip, hvalue⟩ | ⟨hskip, hp, hvalue⟩ |
      ⟨hskip, hp, ⟨answer, hcached, hvalue⟩ | ⟨hcached, ⟨failure, hr, -⟩ | ⟨r, layers, hr, hvalue⟩⟩⟩
    · obtain ⟨hready, hb⟩ := ih hpolicy hask pending
      rw [value_prepareBatch_cons hvalue, value_attemptBatch_cons]
      exact ⟨.skipped hskip hready, hb.toFramed, hb.store, hb.owns, hb.marks⟩
    · obtain ⟨hready, hb⟩ := ih hpolicy hask pending
      rw [value_prepareBatch_cons hvalue, value_attemptBatch_cons]
      exact ⟨.deferred hskip hp hready, hb.toFramed, hb.store, hb.owns, hb.marks⟩
    · have hframed : Framed { s with fallbacks := s.fallbacks.erase e.file } s :=
        ⟨rfl, rfl, rfl, rfl, rfl, rfl⟩
      obtain ⟨hready, hb⟩ :=
        ih (s := { s with fallbacks := s.fallbacks.erase e.file }) hpolicy hask pending
      rw [value_prepareBatch_cons hvalue, value_attemptBatch_cons]
      refine ⟨.reused hskip hp hcached (hready.congr hframed fun _ _ => ⟨rfl, rfl⟩),
        hframed.symm.trans hb.toFramed, hb.store, hb.owns, fun file => ?_⟩
      refine (hb.marks file).trans ?_
      change _ ↔ file ∉ e.file :: _ ∧ _
      rw [OrderedMap.contains_erase, List.mem_cons, not_or, and_left_comm, and_assoc, ne_comm]
      exact Iff.rfl
    · exact absurd hr (Layers.reserve_ne_error hpolicy)
    · have hlayers : layers.policy = .stable := (Layers.policy_reserve hr).trans hpolicy
      have hframed : Framed { s with layers } s :=
        ⟨rfl, rfl, rfl, rfl, hpolicy.trans hlayers.symm, rfl⟩
      have hbase := Layers.stableBase?_reserve hpolicy hr
      have hfile := Layers.reserve_file hr
      obtain ⟨hready, hb⟩ := ih (s := { s with layers }) hlayers hask (e.file :: pending)
      rw [value_prepareBatch_cons hvalue, value_attemptBatch_cons, value_attemptEntry_pending hfile,
        hask]
      have hfresh := Layers.fresh_reserve hpolicy hr
      refine ⟨.attempted hskip hp hcached hfile hfresh (hready.congr hframed fun file hrest => ?_),
        hframed.symm.trans hb.toFramed, hb.store, fun file => ?_, hb.marks⟩
      · refine ⟨rfl, (hbase file).trans (if_neg fun heq => ?_) |>.symm⟩
        exact hrest (heq ▸ List.mem_cons_self)
      · refine (hb.owns file).trans ?_
        change _ ↔ file ∈ (if r.fresh = true then r.file :: _ else _) ∨ _
        rw [hbase, hfresh, hfile]
        by_cases heq : e.file = file
        · subst heq
          cases hold : s.layers.stableBase? e.file <;> simp
        · cases hold : s.layers.stableBase? e.file <;> simp [heq, Ne.symm heq, BatchStep.mark]

/-- **What a batch does**: it is prepared, and then its results are ended in their order. -/
theorem processEntries_ready (hpolicy : s.layers.policy = .stable) (entries : List Entry) :
    ∃ b results, Ready s [] results ∧ Prepares s b results ∧ results.map (·.1) = entries ∧
      (s.processEntries entries).value = (b.finishBatch results).value := by
  have hentries := s.map_fst_prepareBatch [] entries
  cases hprepare : (s.prepareBatch [] entries).value with
  | mk steps b =>
    rw [hprepare] at hentries
    obtain ⟨-, hframed⟩ := prepareBatch_ready (u := s) hpolicy rfl [] entries
    have hask := hframed.toFramed.ask
    rw [hprepare] at hask
    obtain ⟨hready, hb⟩ := prepareBatch_ready hpolicy hask [] entries
    rw [hprepare] at hready hb
    refine ⟨b, _, hready, hb, ?_, value_processEntries_of_stable hpolicy hprepare⟩
    rw [map_fst_attemptBatch, hentries]

end LayeredCss.Session

import LayeredCss.Proofs.Session.History
import LayeredCss.Proofs.Session.Reservations

/-!
# Stable bases over a run

Under the stable policy a file comes to own a slot when a base is reserved for it, and keeps it if
the transform succeeds.  So a file owns a slot exactly when a transform of it has succeeded or its
first one is under way (`Pinned`), and between the calls of a run only the former is left.

* `Move.pinned`: every move keeps the owned slots in step with the history;
* `stableBase?_of_history`: over every run the base of a file is that of all its successful
  transforms, and the layers of two files do not meet.
-/

namespace LayeredCss

/-- Whether a layer lies in the range of a file. -/
def FileRecord.Uses (record : FileRecord) (layer : UInt32) : Prop :=
  record.layerBase ≤ layer ∧ layer < record.nextLayer

namespace Session

/-- The history has a successful transform of the file at the base. -/
def Gives (h : List Event) (file : FileId) (base : UInt32) : Prop :=
  ∃ e result, Event.processed e (.transformed result) ∈ h ∧ e.file = file ∧
    result.layerBase = base

variable {K : List FileId} {s₀ : Session} {h : List Event} {x y : Stage} {l : List Event}
  {file : FileId} {base : UInt32}

theorem gives_transformed {e : Entry} {result : Transformed} :
    Gives (h ++ [.processed e (.transformed result)]) file base ↔
      Gives h file base ∨ e.file = file ∧ result.layerBase = base := by
  constructor
  · rintro ⟨e', result', hmem, hfile, hbase⟩
    rcases List.mem_append.mp hmem with hmem | hmem
    · exact Or.inl ⟨e', result', hmem, hfile, hbase⟩
    · cases List.mem_singleton.mp hmem
      exact Or.inr ⟨hfile, hbase⟩
  · rintro (⟨e', result', hmem, hfile, hbase⟩ | ⟨hfile, hbase⟩)
    · exact ⟨e', result', List.mem_append_left _ hmem, hfile, hbase⟩
    · exact ⟨e, result, List.mem_append_right _ List.mem_cons_self, hfile, hbase⟩

theorem gives_idle {event : Event} (hevent : event.brings = none) :
    Gives (h ++ [event]) file base ↔ Gives h file base := by
  constructor
  · rintro ⟨e, result, hmem, hfile, hbase⟩
    rcases List.mem_append.mp hmem with hmem | hmem
    · exact ⟨e, result, hmem, hfile, hbase⟩
    · cases List.mem_singleton.mp hmem
      cases hevent
  · rintro ⟨e, result, hmem, hfile, hbase⟩
    exact ⟨e, result, List.mem_append_left _ hmem, hfile, hbase⟩

/-- The file has got a slot by a held reservation. -/
def Fresh (held : List Reservation) (file : FileId) (base : UInt32) : Prop :=
  ∃ q ∈ held, q.fresh = true ∧ q.file = file ∧ q.base = base

theorem fresh_middle {before after : List Reservation} {r : Reservation} :
    Fresh (before ++ r :: after) file base ↔
      Fresh (before ++ after) file base ∨ r.fresh = true ∧ r.file = file ∧ r.base = base := by
  unfold Fresh
  simp only [List.mem_append, List.mem_cons]
  constructor
  · rintro ⟨q, hq | rfl | hq, hrest⟩
    · exact Or.inl ⟨q, Or.inl hq, hrest⟩
    · exact Or.inr hrest
    · exact Or.inl ⟨q, Or.inr hq, hrest⟩
  · rintro (⟨q, hq | hq, hrest⟩ | hrest)
    · exact ⟨q, Or.inl hq, hrest⟩
    · exact ⟨q, Or.inr (Or.inr hq), hrest⟩
    · exact ⟨r, Or.inr (Or.inl rfl), hrest⟩

/-- A file that has a held reservation has no slot by another. -/
theorem Holding.ne_of_fresh {s : Session} {before after : List Reservation} {r : Reservation}
    (hx : Holding ⟨s, before ++ r :: after⟩) (hf : Fresh (before ++ after) file base) :
    r.file ≠ file := by
  obtain ⟨q, hq, -, rfl, -⟩ := hf
  exact hx.ne_of_mem hq

/-- The record of a file is that of one of its transforms. -/
def Backed (s₀ : Session) (h : List Event) (file : FileId) (record : FileRecord) : Prop :=
  ∃ e result output, Event.processed e (.transformed result) ∈ h ∧ e.file = file ∧
    result.layerBase = record.layerBase ∧ s₀.ask e result.layerBase = .ok output ∧
    output.nextLayer = record.nextLayer

theorem Backed.append {record : FileRecord} (hr : Backed s₀ h file record) (l : List Event) :
    Backed s₀ (h ++ l) file record := by
  obtain ⟨e, result, output, hmem, hrest⟩ := hr
  exact ⟨e, result, output, List.mem_append_left _ hmem, hrest⟩

/-- **The owned slots are those of the history** and of the first transforms under way. -/
structure Pinned (s₀ : Session) (h : List Event) (x : Stage) : Prop where
  ask : x.session.ask = s₀.ask
  holding : Holding x
  base_iff : ∀ file base, x.session.layers.stableBase? file = some base ↔
    Gives h file base ∨ Fresh x.held file base
  fresh_new : ∀ file base base', Fresh x.held file base → ¬ Gives h file base'
  record : ∀ file record, x.session.store.record? file = some record → Backed s₀ h file record

/-- An event that transforms nothing leaves a pinned stage pinned. -/
theorem Pinned.idle (hx : Pinned s₀ h x) {event : Event} (hevent : event.brings = none)
    {t : Session} (hask : t.ask = x.session.ask) (hlayers : t.layers = x.session.layers)
    (hstore : ∀ file record, t.store.record? file = some record →
      x.session.store.record? file = some record) : Pinned s₀ (h ++ [event]) ⟨t, x.held⟩ := by
  refine ⟨hask.trans hx.ask, ?_, fun file base => ?_, fun file base base' hfresh => ?_,
    fun file record hr => ?_⟩
  · exact ⟨fun q hq => hlayers ▸ hx.holding.owned q hq, hx.holding.distinct⟩
  · rw [gives_idle hevent, ← hx.base_iff, hlayers]
  · rw [gives_idle hevent]
    exact hx.fresh_new file base base' hfresh
  · exact (hx.record file record (hstore file record hr)).append _

theorem Pinned.reserve {s : Session} {held : List Reservation} {r : Reservation} {layers : Layers}
    (hx : Pinned s₀ h ⟨s, held⟩) (hpolicy : s.layers.policy = .stable)
    (hr : s.layers.reserve file = .ok (r, layers))
    (hy : Holding ⟨{ s with layers }, held ++ [r]⟩) :
    Pinned s₀ h ⟨{ s with layers }, held ++ [r]⟩ := by
  have hfile := Layers.reserve_file hr
  have hfresh : ∀ other base, Fresh (held ++ [r]) other base ↔
      Fresh held other base ∨ r.fresh = true ∧ file = other ∧ r.base = base := by
    intro other base
    rw [fresh_middle, List.append_nil, hfile]
  rcases Layers.reserve_eq_ok hr with ⟨hmonotonic, -⟩ | ⟨-, base, hbase, rfl, rfl⟩ |
    ⟨-, hnew, hrfresh, -⟩
  · cases hmonotonic.symm.trans hpolicy
  · refine ⟨hx.ask, hy, fun other base' => ?_, fun other base' base'' hf => ?_, hx.record⟩
    · rw [hfresh, hx.base_iff]
      simp only [Bool.false_eq_true, false_and, or_false]
    · rw [hfresh] at hf
      simp only [Bool.false_eq_true, false_and, or_false] at hf
      exact hx.fresh_new other base' base'' hf
  · have hgives : ∀ base, ¬ Gives h file base := fun base hg => by
      cases hnew.symm.trans ((hx.base_iff file base).mpr (Or.inl hg))
    refine ⟨hx.ask, hy, fun other base' => ?_, fun other base' base'' hf => ?_, hx.record⟩
    · rw [hfresh, ← or_assoc, ← hx.base_iff, Layers.stableBase?_reserve hpolicy hr]
      by_cases heq : file = other
      · rw [if_pos heq, ← heq, hnew]
        simp [hrfresh]
      · rw [if_neg heq]
        simp only [heq, false_and, and_false, or_false]
    · rcases (hfresh other base').mp hf with hf | ⟨-, rfl, -⟩
      · exact hx.fresh_new other base' base'' hf
      · exact hgives base''

theorem Pinned.commit {s : Session} {before after : List Reservation} {r : Reservation} {e : Entry}
    {output : Transform.Output} (hx : Pinned s₀ h ⟨s, before ++ r :: after⟩) (hr : r.file = e.file)
    (hok : s.ask e r.base = .ok output) (errorCount : Nat) :
    Pinned s₀ (h ++ [.processed e (.transformed (transformedOf r output errorCount))])
      ⟨{ s with
          layers := s.layers.settle output.nextLayer
          store := s.store.putRecord e.file (recordOf (.of e.source) r output)
          fallbacks := s.fallbacks.erase e.file }, before ++ after⟩ := by
  have howned := hx.holding.owned_middle
  refine ⟨hx.ask, hx.holding.settle fun _ _ => rfl, fun file base => ?_,
    fun file base base' hf => ?_, fun file record hrecord => ?_⟩
  · -- the committed reservation passes from those held to the history
    refine (hx.base_iff file base).trans ?_
    rw [fresh_middle, gives_transformed]
    constructor
    · rintro (hg | hf | ⟨-, hfile, hbase⟩)
      · exact Or.inl (Or.inl hg)
      · exact Or.inr hf
      · exact Or.inl (Or.inr ⟨hr.symm.trans hfile, hbase⟩)
    · rintro ((hg | ⟨hfile, hbase⟩) | hf)
      · exact Or.inl hg
      · rw [← fresh_middle, ← hx.base_iff, ← hfile, ← hr]
        exact hbase ▸ howned
      · exact Or.inr (Or.inl hf)
  · rw [gives_transformed]
    rintro (hg | ⟨hfile, -⟩)
    · exact hx.fresh_new file base base' (fresh_middle.mpr (Or.inl hf)) hg
    · exact hx.holding.ne_of_fresh hf (hr.trans hfile)
  · rw [RuleStore.record?_putRecord] at hrecord
    split at hrecord
    · next hfile =>
      cases hrecord
      have hmem := List.mem_append_right h (List.mem_singleton_self
        (Event.processed e (.transformed (transformedOf r output errorCount))))
      exact ⟨e, _, output, hmem, hfile, rfl, hx.ask ▸ hok, rfl⟩
    · exact (hx.record file record hrecord).append _

theorem Pinned.release {s : Session} {before after : List Reservation} {r : Reservation} {e : Entry}
    (hx : Pinned s₀ h ⟨s, before ++ r :: after⟩) (hpolicy : s.layers.policy = .stable)
    (code : String) (failure : Failure) :
    Pinned s₀ (h ++ [.processed e (.fallback code failure)])
      ⟨{ s with
          layers := s.layers.release r
          fallbacks := s.fallbacks.insert e.file () }, before ++ after⟩ := by
  have hrelease := Layers.stableBase?_release hpolicy r
  refine ⟨hx.ask, hx.holding.settle fun file hne => ?_, fun file base => ?_,
    fun file base base' hf => ?_, fun file record hr => (hx.record file record hr).append _⟩
  · rw [hrelease, if_neg fun hfile => hne hfile.2]
  · rw [gives_idle rfl]
    by_cases hfile : r.fresh = true ∧ r.file = file
    · -- the file owned its slot by this reservation alone
      have hfresh : Fresh (before ++ r :: after) file r.base :=
        fresh_middle.mpr (Or.inr ⟨hfile.1, hfile.2, rfl⟩)
      simp only [hrelease, if_pos hfile, reduceCtorEq, false_iff]
      rintro (hg | hf)
      · exact hx.fresh_new file _ _ hfresh hg
      · exact hx.holding.ne_of_fresh hf hfile.2
    · simp only [hrelease, if_neg hfile]
      refine (hx.base_iff file base).trans ?_
      rw [fresh_middle]
      constructor
      · rintro (hg | hf | ⟨hfresh, heq, -⟩)
        · exact Or.inl hg
        · exact Or.inr hf
        · exact absurd ⟨hfresh, heq⟩ hfile
      · rintro (hg | hf)
        · exact Or.inl hg
        · exact Or.inr (Or.inl hf)
  · rw [gives_idle rfl]
    exact hx.fresh_new file base base' (fresh_middle.mpr (Or.inl hf))

/-- **Every move keeps the owned slots in step with the history.** -/
theorem Move.pinned (m : Move K x l y) (hpolicy : x.session.layers.policy = .stable)
    (hx : Pinned s₀ h x) : Pinned s₀ (h ++ l) y := by
  have hy := m.holding hpolicy hx.holding
  cases m with
  | @note _ e outcome ho =>
    have hmutated := Outcome.mutated_of_not_attempted ho
    exact hx.idle (Event.brings_of_not_mutated hmutated) rfl rfl fun _ _ hr => hr
  | reuse =>
    rw [List.append_nil]
    exact ⟨hx.ask, hy, hx.base_iff, hx.fresh_new, hx.record⟩
  | reserve _ hr _ =>
    rw [List.append_nil]
    exact hx.reserve hpolicy hr hy
  | refuse => exact hx.idle rfl rfl rfl fun _ _ hr => hr
  | commit hr hok => exact hx.commit hr hok _
  | release => exact hx.release hpolicy _ _

/-! ## Runs -/

theorem Turn.pinned (t : Turn) (hpolicy : t.before.layers.policy = .stable)
    (ht : Pinned s₀ h ⟨t.before, []⟩) : Pinned s₀ (h ++ t.events) ⟨t.next, []⟩ := by
  rcases turn_cases t with m | ⟨file, -, hevents, hnext⟩ | ⟨generate, -, hevents, hnext⟩
  · have hinv := m.preserves
      (I := fun h x => x.session.layers.policy = .stable ∧ Pinned s₀ h x)
      (fun _ _ _ _ hx m => ⟨m.framed.policy.trans hx.1, m.pinned hx.1 hx.2⟩) h ⟨hpolicy, ht⟩
    exact hinv.2
  · rw [hevents, hnext]
    refine ht.idle rfl rfl rfl fun other record hr => ?_
    rw [RuleStore.record?_remove] at hr
    split at hr
    · cases hr
    · exact hr
  · rw [hevents, hnext, List.append_nil]
    exact ⟨ht.ask, holding_nil _, ht.base_iff, ht.fresh_new, ht.record⟩

theorem Starts.pinned {lifecycle : Lifecycle} (h₀ : s₀.Starts lifecycle) :
    Pinned s₀ [] ⟨s₀, []⟩ := by
  obtain ⟨-, hlayers, hstore, -, -⟩ := h₀.fields
  refine ⟨rfl, holding_nil _, fun file base => ?_, fun file base base' hf => ?_,
    fun file record hr => ?_⟩
  · rw [hlayers]
    constructor
    · intro hbase
      cases hbase
    · rintro (⟨_, _, hmem, -⟩ | ⟨_, hmem, -⟩) <;> cases hmem
  · obtain ⟨_, hmem, -⟩ := hf
    cases hmem
  · rw [hstore] at hr
    cases hr

/-- **After every run** the owned slots are those of the history. -/
theorem pinned_after (h₀ : s₀.Starts .watch) (calls : List Call) :
    Pinned s₀ (s₀.history calls) ⟨s₀.after calls, []⟩ := by
  have hpolicy : s₀.layers.policy = .stable := by
    rw [h₀.fields.2.1]
    rfl
  have hrun := run_preserves (I := fun h s => s.layers.policy = .stable ∧ Pinned s₀ h ⟨s, []⟩)
    (fun h t ht => ⟨t.policy.trans ht.1, t.pinned ht.1 ht.2⟩) ⟨hpolicy, h₀.pinned⟩ calls
  exact hrun.2

/-- When no reservation is held, the history alone says who owns a slot. -/
theorem Pinned.stableBase?_iff {s : Session} (hs : Pinned s₀ h ⟨s, []⟩) :
    s.layers.stableBase? file = some base ↔ Gives h file base := by
  refine (hs.base_iff file base).trans (or_iff_left ?_)
  rintro ⟨_, hmem, -⟩
  cases hmem

/-- The layers of a record lie in the slot of its file. -/
theorem Pinned.slot_of_record {s : Session} (hs : Pinned s₀ h ⟨s, []⟩)
    (hnarrow : ∀ event ∈ h, event.narrow s₀ = true) {record : FileRecord}
    (hr : s.store.record? file = some record) :
    s.layers.stableBase? file = some record.layerBase ∧
      record.nextLayer.toNat ≤ record.layerBase.toNat + Layers.slotWidth := by
  obtain ⟨e, result, output, hmem, hfile, hbase, hok, hnext⟩ := hs.record file record hr
  refine ⟨hs.stableBase?_iff.mpr ⟨e, result, hmem, hfile, hbase⟩, ?_⟩
  have hwidth := hnarrow _ hmem
  simp only [Event.narrow, hok, decide_eq_true_eq] at hwidth
  rw [← hbase, ← hnext]
  exact hwidth

/-- **Slots are permanent.**  Whatever calls a watching session has had, a file owns the slot at a
base exactly if some transform of it has succeeded, and then they all have been made at this base.
If no transform has used more layers than a slot has, the layers of two files do not meet. -/
theorem stableBase?_of_history {s : Session} (h₀ : s₀.Starts .watch) {calls : List Call}
    (hs : s₀.after calls = s) :
    (∀ file base, s.layers.stableBase? file = some base ↔
      ∃ e result, Event.processed e (.transformed result) ∈ s₀.history calls ∧ e.file = file ∧
        result.layerBase = base) ∧
    (s₀.Fits calls → (∀ event ∈ s₀.history calls, event.narrow s₀ = true) →
      ∀ file other record record', file ≠ other → s.store.record? file = some record →
        s.store.record? other = some record' →
        ∀ layer, ¬ (record.Uses layer ∧ record'.Uses layer)) := by
  have hpinned : Pinned s₀ (s₀.history calls) ⟨s, []⟩ := hs ▸ pinned_after h₀ calls
  refine ⟨fun file base => hpinned.stableBase?_iff, fun hfits hnarrow => ?_⟩
  intro file other record record' hne hr hr' layer
  have htidy : s.layers.Tidy := by
    have hsettled : s.layers.Settled := hs ▸ settled_after h₀ hfits
    exact (Layers.settled_iff_of_stable (hs ▸ policy_after h₀ calls)).mp hsettled
  obtain ⟨hbase, hwide⟩ := hpinned.slot_of_record hnarrow hr
  obtain ⟨hbase', hwide'⟩ := hpinned.slot_of_record hnarrow hr'
  have hdisjoint := htidy.base_disjoint hne hbase hbase'
  rintro ⟨⟨hle, hlt⟩, hle', hlt'⟩
  rw [UInt32.le_iff_toNat_le] at hle hle'
  rw [UInt32.lt_iff_toNat_lt] at hlt hlt'
  omega

/-- A file whose first transform failed in a batch gets a slot later, and one that was removed comes
back to its own. -/
theorem stableBase?_of_history_readded :
    let s₀ := blank .watch
    let calls : List Call := [.batch [⟨⟨"a.ts"⟩, "strata", failing⟩, ⟨⟨"b.ts"⟩, "strata", oneRule⟩],
      .process ⟨⟨"a.ts"⟩, "strata", oneRule⟩, .removeFile ⟨"b.ts"⟩,
      .process ⟨⟨"b.ts"⟩, "strata again", oneRule⟩]
    let store := (s₀.after calls).store
    (∃ e result, Event.processed e (.transformed result) ∈ s₀.history calls ∧
      e.file = ⟨"b.ts"⟩ ∧ result.layerBase = 1000) ∧
    (store.contains ⟨"a.ts"⟩ && store.contains ⟨"b.ts"⟩) = true ∧
    ∀ record record', store.record? ⟨"a.ts"⟩ = some record →
      store.record? ⟨"b.ts"⟩ = some record' →
      ∀ layer, ¬ (record.Uses layer ∧ record'.Uses layer) := by
  intro s₀ calls store
  obtain ⟨hbase, hdisjoint⟩ :=
    stableBase?_of_history (starts_blank .watch) (s := s₀.after calls) rfl
  have hfits : s₀.Fits calls := by decide +kernel
  have hnarrow : ∀ event ∈ s₀.history calls, event.narrow s₀ = true := by decide +kernel
  refine ⟨(hbase ⟨"b.ts"⟩ 1000).mp (by decide +kernel), by decide +kernel, ?_⟩
  intro record record' hr hr'
  exact hdisjoint hfits hnarrow ⟨"a.ts"⟩ ⟨"b.ts"⟩ record record' (by decide) hr hr'

end Session

end LayeredCss

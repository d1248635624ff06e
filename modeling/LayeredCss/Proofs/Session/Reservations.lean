import LayeredCss.Proofs.Session.Run

/-!
# Reservations over a run

Whatever the order in which a session reserves, commits and releases bases, the reservations that it
holds stay in step with its layers.  Under the monotonic policy it holds at most one, and exactly
while the flag `outstanding` is set (`Exclusive`); under the stable policy it holds at most one for
a file, and the file owns the slot of it (`Holding`).

* `Move.holding`, `Move.tidy`: the stable policy;
* `Move.exclusive`: the monotonic policy;
* `settled_after`: between the calls of a run no reservation is unsettled and stable slots are tidy,
  as long as no turn uses more than `Layers.capacity` slots;
* `process_of_failure`: so a transform that fails leaves no trace in layers and store.
-/

namespace LayeredCss.Session

variable {K : List FileId} {x y : Stage} {l : List Event}

/-! ## The stable policy -/

/-- A file has at most one of the held reservations, and it owns the slot that was reserved. -/
structure Holding (x : Stage) : Prop where
  owned : ∀ q ∈ x.held, x.session.layers.stableBase? q.file = some q.base
  distinct : x.held.Pairwise fun q q' => q.file ≠ q'.file

theorem holding_nil (s : Session) : Holding ⟨s, []⟩ :=
  ⟨fun _ hq => absurd hq List.not_mem_nil, .nil⟩

/-- The file of one held reservation has no other. -/
theorem Holding.ne_of_mem {s : Session} {before after : List Reservation} {r : Reservation}
    (hx : Holding ⟨s, before ++ r :: after⟩) {q : Reservation} (hq : q ∈ before ++ after) :
    r.file ≠ q.file := by
  have hmiddle := (List.pairwise_middle fun h => Ne.symm h).mp hx.distinct
  exact (List.pairwise_cons.mp hmiddle).1 q hq

/-- The other reservations stay in step when one of them is settled. -/
theorem Holding.settle {s : Session} {before after : List Reservation} {r : Reservation}
    (hx : Holding ⟨s, before ++ r :: after⟩) {t : Session}
    (ht : ∀ file, r.file ≠ file → t.layers.stableBase? file = s.layers.stableBase? file) :
    Holding ⟨t, before ++ after⟩ := by
  have hmiddle := (List.pairwise_middle fun h => Ne.symm h).mp hx.distinct
  refine ⟨fun q hq => ?_, (List.pairwise_cons.mp hmiddle).2⟩
  have hmem : q ∈ before ++ r :: after := by
    rcases List.mem_append.mp hq with h | h
    · exact List.mem_append_left _ h
    · exact List.mem_append_right _ (List.mem_cons_of_mem _ h)
  exact (ht q.file (hx.ne_of_mem hq)).trans (hx.owned q hmem)

theorem Holding.owned_middle {s : Session} {before after : List Reservation} {r : Reservation}
    (hx : Holding ⟨s, before ++ r :: after⟩) : s.layers.stableBase? r.file = some r.base :=
  hx.owned r (List.mem_append_right _ List.mem_cons_self)

theorem Move.holding (m : Move K x l y) (hpolicy : x.session.layers.policy = .stable)
    (hx : Holding x) : Holding y := by
  cases m with
  | note => exact hx
  | reuse => exact ⟨hx.owned, hx.distinct⟩
  | refuse => exact ⟨hx.owned, hx.distinct⟩
  | @reserve s held file r layers hheld h _ =>
    have hfile := Layers.reserve_file h
    constructor
    · intro q hq
      rcases List.mem_append.mp hq with hq | hq
      · exact Layers.stableBase?_reserve_of_some h (hx.owned q hq)
      · rw [List.mem_singleton.mp hq, hfile]
        simp only [Layers.stableBase?_reserve hpolicy h, if_true]
    · refine List.pairwise_append.mpr ⟨hx.distinct, List.pairwise_singleton _ _, ?_⟩
      intro q hq q' hq'
      rw [List.mem_singleton.mp hq', hfile]
      exact hheld q hq
  | commit => exact hx.settle fun _ _ => rfl
  | @release s before after r =>
    refine hx.settle fun file hne => ?_
    simp only [Layers.stableBase?_release hpolicy, hne, and_false, if_false]

/-- If a file is new to the layers and only files of the list come to own a slot, then fewer slots
are owned than the list is long. -/
theorem size_lt_of_reserve {a b : Layers} (hpolicy : a.policy = .stable) {file : FileId}
    {r : Reservation} (h : a.reserve file = .ok (r, b)) (hK : b.Within K)
    (hnew : a.stableBase? file = none) : a.bases.size < K.length := by
  have hfile : file ∈ K := hK file r.base (by rw [Layers.stableBase?_reserve hpolicy h, if_pos rfl])
  have hkeys : a.bases.keys ⊆ K := fun other hother => by
    obtain ⟨base, hbase⟩ := Option.isSome_iff_exists.mp (OrderedMap.mem_keys.mp hother)
    exact hK other base (Layers.stableBase?_reserve_of_some h hbase)
  have hnotin : file ∉ a.bases.keys := fun hmem => by
    obtain ⟨base, hbase⟩ := Option.isSome_iff_exists.mp (OrderedMap.mem_keys.mp hmem)
    cases hnew.symm.trans hbase
  have hnodup : (file :: a.bases.keys).Nodup := List.nodup_cons.mpr ⟨hnotin, a.bases.nodup_keys⟩
  have hlen := (hnodup.subperm (List.cons_subset.mpr ⟨hfile, hkeys⟩)).length_le
  rw [List.length_cons, OrderedMap.length_keys] at hlen
  exact hlen

/-- **A move keeps stable slots tidy** as long as the list of the files that may own one is not
longer than `Layers.capacity`. -/
theorem Move.tidy (m : Move K x l y) (hpolicy : x.session.layers.policy = .stable)
    (hroom : K.length ≤ Layers.capacity) (hx : Holding x) (ha : x.session.layers.Tidy) :
    y.session.layers.Tidy := by
  cases m with
  | note => exact ha
  | reuse => exact ha
  | refuse => exact ha
  | reserve _ h hK =>
    refine ha.reserve hpolicy h fun hnew => ?_
    exact Nat.lt_of_lt_of_le (size_lt_of_reserve hpolicy h hK hnew) hroom
  | commit => exact ha.settle _
  | release => exact ha.release hpolicy hx.owned_middle

/-! ## The monotonic policy -/

/-- At most one reservation is held, and exactly while the layers say so. -/
def Exclusive (x : Stage) : Prop :=
  (x.session.layers.outstanding = true ∧ ∃ r, x.held = [r]) ∨
    (x.session.layers.outstanding = false ∧ x.held = [])

/-- A held reservation is the only one. -/
theorem Exclusive.only {s : Session} {before after : List Reservation} {r : Reservation}
    (hx : Exclusive ⟨s, before ++ r :: after⟩) : before ++ after = [] := by
  rcases hx with ⟨-, q, hq⟩ | ⟨-, hnil⟩
  · have hlen := congrArg List.length hq
    simp only [List.length_append, List.length_cons, List.length_nil] at hlen
    apply List.eq_nil_of_length_eq_zero
    rw [List.length_append]
    omega
  · simp at hnil

theorem Move.exclusive (m : Move K x l y) (hpolicy : x.session.layers.policy = .monotonic)
    (hx : Exclusive x) : Exclusive y := by
  cases m with
  | note => exact hx
  | reuse => exact hx
  | refuse => exact hx
  | @reserve s held file r layers _ h _ =>
    rcases Layers.reserve_eq_ok h with ⟨-, hout, rfl, rfl⟩ | ⟨hstable, -⟩ | ⟨hstable, -⟩
    · rcases hx with ⟨hout', -⟩ | ⟨-, hheld⟩
      · cases hout'.symm.trans hout
      · refine Or.inl ⟨rfl, ⟨file, s.layers.counter, false⟩, ?_⟩
        simp only at hheld
        rw [hheld, List.nil_append]
    · cases hstable.symm.trans hpolicy
    · cases hstable.symm.trans hpolicy
  | @commit s =>
    refine Or.inr ⟨?_, hx.only⟩
    have hs : s.layers.policy = .monotonic := hpolicy
    simp only [Layers.settle, hs, bne_self_eq_false, Bool.and_false]
  | release =>
    refine Or.inr ⟨?_, hx.only⟩
    simp only [Layers.release_of_monotonic hpolicy]

/-! ## Runs -/

theorem stylesheet_eq (s : Session) (generate : Generator) :
    (s.stylesheet generate).value.2 =
      { s with sheets := (s.sheets.refresh generate s.store).value.2 } := rfl

/-- Moves from no reservation to none leave settled layers settled. -/
theorem Moves.settled {s t : Session} (m : Moves K ⟨s, []⟩ l ⟨t, []⟩)
    (hroom : K.length ≤ Layers.capacity) (hs : s.layers.Settled) : t.layers.Settled := by
  have hpolicy := m.framed.policy
  cases h : s.layers.policy with
  | monotonic =>
    rw [h] at hpolicy
    rw [Layers.settled_iff_of_monotonic h] at hs
    rw [Layers.settled_iff_of_monotonic hpolicy]
    have hinv := m.preserves (I := fun _ x => x.session.layers.policy = .monotonic ∧ Exclusive x)
      (fun _ _ _ _ hx m => ⟨m.framed.policy.trans hx.1, m.exclusive hx.1 hx.2⟩) []
      ⟨h, Or.inr ⟨hs, rfl⟩⟩
    rcases hinv.2 with ⟨-, r, hr⟩ | ⟨hout, -⟩
    · cases hr
    · exact hout
  | stable =>
    rw [h] at hpolicy
    rw [Layers.settled_iff_of_stable h] at hs
    rw [Layers.settled_iff_of_stable hpolicy]
    have hinv := m.preserves
      (I := fun _ x => x.session.layers.policy = .stable ∧ Holding x ∧ x.session.layers.Tidy)
      (fun _ _ _ _ hx m => ⟨m.framed.policy.trans hx.1, m.holding hx.1 hx.2.1,
        m.tidy hx.1 hroom hx.2.1 hx.2.2⟩) [] ⟨h, holding_nil s, hs⟩
    exact hinv.2.2

/-- **Between the calls of a run** no reservation is unsettled and stable slots are tidy. -/
theorem settled_after {lifecycle : Lifecycle} {s : Session} (h : s.Starts lifecycle)
    {calls : List Call} (hfits : s.Fits calls) : (s.after calls).layers.Settled := by
  refine run_preserves_of (I := fun _ s => s.layers.Settled)
    (P := fun t => t.slotsInUse ≤ Layers.capacity) ?_ hfits ?_
  · intro _ t ht hs
    rcases turn_cases t with m | ⟨file, -, -, hnext⟩ | ⟨generate, -, -, hnext⟩
    · refine m.settled ?_ hs
      rw [OrderedMap.length_keys]
      exact ht
    · rw [hnext]
      exact hs
    · rw [hnext, stylesheet_eq]
      exact hs
  · rw [h.fields.2.1]
    exact Layers.settled_new _

/-! ## Failed transforms -/

/-- **A failed transform changes nothing but the set of fallbacks.**  Whatever calls a session has
had, if it asks the transform for a file and gets no output, then store, stylesheet and layers,
counter and slots alike, are afterwards what they were before. -/
theorem process_of_failure {lifecycle : Lifecycle} {s₀ s : Session} (h₀ : s₀.Starts lifecycle)
    {calls : List Call} (hs : s₀.after calls = s) (hfits : s₀.Fits calls)
    (hfree : s.layers.bases.size < Layers.capacity) {e : Entry} {failure : Failure}
    (hskip : s.filter.skip? e.file e.source = none)
    (hcached : s.cached? e.file (.of e.source) = none)
    (hfails : s.ask e (s.layers.baseFor e.file).1 = .error failure) :
    (s.process e.transform e.file e.source).value =
      (.fallback (fallbackCode s.config e.source) failure,
        { s with fallbacks := s.fallbacks.insert e.file () }) := by
  have hsettled : s.layers.Settled := hs ▸ settled_after h₀ hfits
  obtain ⟨r, layers, hreserve, hrelease⟩ := hsettled.reserve_release hfree e.file
  rw [value_process_of_pending hskip (value_consider_of_reserved hcached hreserve)]
  rw [← Layers.base_of_reserve hreserve] at hfails
  unfold ask at hfails
  rw [Layers.reserve_file hreserve]
  simp only
  rw [hfails, value_finish_error]
  simp only
  rw [hrelease]

/-- After a batch whose first file failed and whose second did not, slot 0 is free and slot 1 is
owned; a third file takes slot 0 and gives it back. -/
theorem process_of_failure_after_batch :
    let s := (blank .watch).after
      [.batch [⟨⟨"a.ts"⟩, "strata", failing⟩, ⟨⟨"b.ts"⟩, "strata", oneRule⟩]]
    s.layers.freeSlots.contains 0 = true ∧ (s.process failing ⟨"c.ts"⟩ "strata").value =
      (.fallback (fallbackCode s.config "strata") (.ofText "no such style"),
        { s with fallbacks := s.fallbacks.insert ⟨"c.ts"⟩ () }) := by
  intro s
  refine ⟨by decide, ?_⟩
  exact process_of_failure (starts_blank .watch) (s := s) (e := ⟨⟨"c.ts"⟩, "strata", failing⟩) rfl
    (by decide) (by decide) (by decide) (by decide) rfl

end LayeredCss.Session

import LayeredCss.Proofs.Slots
import LayeredCss.Session

/-!
# The moves of a session

Processing files, one or many, is a sequence of few moves: a base is reserved, a reservation is
committed or released, a record is reused, or an outcome is noted that needed no transform.  A
batch under the stable policy makes many reservations before it settles the first, so a *stage* is a
session with the reservations that it holds.

* `Move`: what one move does, with the events that it reports;
* `Moves.preserves`: what each move keeps, a sequence of moves keeps;
* `process_moves`, `processEntries_moves`: processing is a sequence of moves, from no held
  reservation to none, that reports the outcomes in the order of the files.

The moves carry a list `K` of files outside of which nobody comes to own a slot.
-/

namespace LayeredCss

namespace Outcome

/-- Whether the outcome is that of a transform that was called, or refused. -/
def attempted : Outcome → Bool
  | transformed _ | fallback _ _ => true
  | _ => false

theorem mutated_of_not_attempted {outcome : Outcome} (h : outcome.attempted = false) :
    outcome.mutated = false := by
  cases outcome with
  | transformed => exact h
  | _ => rfl

end Outcome

namespace Layers

/-- Only files of the list own slots. -/
def Within (K : List FileId) (a : Layers) : Prop :=
  ∀ file base, a.stableBase? file = some base → file ∈ K

theorem within_keys (a : Layers) : a.Within a.bases.keys := fun _ base h =>
  OrderedMap.mem_keys.mpr (Option.isSome_iff_exists.mpr ⟨base, h⟩)

end Layers

namespace Session

/-- What a session reports while it is used. -/
inductive Event
  | processed (e : Entry) (outcome : Outcome)
  /-- A file was removed; there was a record of it or there was none. -/
  | removed (file : FileId) (known : Bool)

/-- What the transform of an entry answers when the session asks it at a base. -/
def ask (s : Session) (e : Entry) (base : UInt32) : Except Failure Transform.Output :=
  (e.transform ⟨e.source, e.file, base, s.theme, s.config.strict⟩).outcome

/-- A session with the reservations that it has made and not settled. -/
structure Stage where
  session : Session
  held : List Reservation

/-- **One move of a session**, with the events that it reports. -/
inductive Move (K : List FileId) : Stage → List Event → Stage → Prop
  /-- A file is skipped, or answered from its record. -/
  | note (x : Stage) (e : Entry) {outcome : Outcome} (h : outcome.attempted = false) :
    Move K x [.processed e outcome] x
  /-- A file whose record answers for its source needs no fallback. -/
  | reuse (s : Session) (held : List Reservation) (file : FileId) :
    Move K ⟨s, held⟩ [] ⟨{ s with fallbacks := s.fallbacks.erase file }, held⟩
  | reserve {s : Session} {held : List Reservation} {file : FileId} {r : Reservation}
    {layers : Layers} (hheld : ∀ q ∈ held, q.file ≠ file)
    (h : s.layers.reserve file = .ok (r, layers)) (hK : layers.Within K) :
    Move K ⟨s, held⟩ [] ⟨{ s with layers }, held ++ [r]⟩
  | refuse {s : Session} {held : List Reservation} {e : Entry} {failure : Failure}
    (h : s.layers.reserve e.file = .error failure) :
    Move K ⟨s, held⟩ [.processed e (.fallback (fallbackCode s.config e.source) failure)]
      ⟨{ s with fallbacks := s.fallbacks.insert e.file () }, held⟩
  | commit {s : Session} {before after : List Reservation} {r : Reservation} {e : Entry}
    {output : Transform.Output} (hr : r.file = e.file)
    (h : s.ask e r.base = .ok output) :
    Move K ⟨s, before ++ r :: after⟩
      [.processed e (.transformed
        (transformedOf r output (Diagnostic.errors output.diagnostics).length))]
      ⟨{ s with
          layers := s.layers.settle output.nextLayer
          store := s.store.putRecord e.file (recordOf (.of e.source) r output)
          fallbacks := s.fallbacks.erase e.file }, before ++ after⟩
  | release {s : Session} {before after : List Reservation} {r : Reservation} {e : Entry}
    {failure : Failure} (hr : r.file = e.file) (h : s.ask e r.base = .error failure) :
    Move K ⟨s, before ++ r :: after⟩
      [.processed e (.fallback (fallbackCode s.config e.source) failure)]
      ⟨{ s with
          layers := s.layers.release r
          fallbacks := s.fallbacks.insert e.file () }, before ++ after⟩

/-- A sequence of moves. -/
inductive Moves (K : List FileId) : Stage → List Event → Stage → Prop
  | nil (x : Stage) : Moves K x [] x
  | cons {x y z : Stage} {l l' : List Event} (first : Move K x l y) (rest : Moves K y l' z) :
    Moves K x (l ++ l') z

variable {K : List FileId}

theorem Moves.single {x y : Stage} {l : List Event} (m : Move K x l y) : Moves K x l y := by
  simpa using Moves.cons m (.nil y)

theorem Moves.append {x y z : Stage} {l l' : List Event} (m : Moves K x l y)
    (m' : Moves K y l' z) : Moves K x (l ++ l') z := by
  induction m with
  | nil x => exact m'
  | cons first _ ih => simpa [List.append_assoc] using Moves.cons first (ih m')

/-- **What each move keeps, a sequence of moves keeps.**  The invariant may speak of the events that
have been reported. -/
theorem Moves.preserves {I : List Event → Stage → Prop}
    (step : ∀ h x l y, I h x → Move K x l y → I (h ++ l) y) {x y : Stage} {l : List Event}
    (m : Moves K x l y) (h : List Event) (hx : I h x) : I (h ++ l) y := by
  induction m generalizing h with
  | nil x => simpa using hx
  | cons first _ ih => simpa [List.append_assoc] using ih _ (step _ _ _ _ hx first)

/-! ## What all moves keep -/

/-- Processing files leaves the settings, the policy and the kept stylesheet as they are. -/
structure Framed (s t : Session) : Prop where
  lifecycle : t.lifecycle = s.lifecycle
  config : t.config = s.config
  filter : t.filter = s.filter
  theme : t.theme = s.theme
  policy : t.layers.policy = s.layers.policy
  sheets : t.sheets = s.sheets

theorem Framed.refl (s : Session) : Framed s s := ⟨rfl, rfl, rfl, rfl, rfl, rfl⟩

theorem Framed.trans {s t u : Session} (h : Framed s t) (h' : Framed t u) : Framed s u :=
  ⟨h'.lifecycle.trans h.lifecycle, h'.config.trans h.config, h'.filter.trans h.filter,
    h'.theme.trans h.theme, h'.policy.trans h.policy, h'.sheets.trans h.sheets⟩

theorem Framed.symm {s t : Session} (h : Framed s t) : Framed t s :=
  ⟨h.lifecycle.symm, h.config.symm, h.filter.symm, h.theme.symm, h.policy.symm, h.sheets.symm⟩

theorem Framed.ask {s t : Session} (h : Framed s t) : t.ask = s.ask := by
  funext e base
  simp only [Session.ask, h.config, h.theme]

theorem Move.framed {x y : Stage} {l : List Event} (m : Move K x l y) :
    Framed x.session y.session := by
  cases m with
  | note | reuse | refuse | commit => exact ⟨rfl, rfl, rfl, rfl, rfl, rfl⟩
  | reserve _ h _ => exact ⟨rfl, rfl, rfl, rfl, Layers.policy_reserve h, rfl⟩
  | release => exact ⟨rfl, rfl, rfl, rfl, Layers.policy_release _ _, rfl⟩

theorem Moves.framed {x y : Stage} {l : List Event} (m : Moves K x l y) :
    Framed x.session y.session := by
  induction m with
  | nil x => exact .refl _
  | cons first _ ih => exact first.framed.trans ih

theorem Move.within {x y : Stage} {l : List Event} (m : Move K x l y)
    (hx : x.session.layers.Within K) : y.session.layers.Within K := by
  cases m with
  | note | reuse | refuse | commit => exact hx
  | reserve _ _ hK => exact hK
  | release => exact fun file base h => hx file base (Layers.stableBase?_of_release h)

theorem Moves.within {x y : Stage} {l : List Event} (m : Moves K x l y)
    (hx : x.session.layers.Within K) : y.session.layers.Within K :=
  m.preserves (I := fun _ x => x.session.layers.Within K) (fun _ _ _ _ h m => m.within h) [] hx

/-! ## One file -/

/-- **What preparing a file does**: it is skipped, or has to wait, or is answered from its record,
or is refused a base, or is given one. -/
theorem prepareEntry_cases (s : Session) (pending : List FileId) (e : Entry) :
    (∃ reason, s.filter.skip? e.file e.source = some reason ∧
      (s.prepareEntry pending e).value = (.prepared (.done (.skipped reason)), s)) ∨
    (s.filter.skip? e.file e.source = none ∧ e.file ∈ pending ∧
      (s.prepareEntry pending e).value = (.deferred, s)) ∨
    (s.filter.skip? e.file e.source = none ∧ e.file ∉ pending ∧
      ((∃ answer, s.cached? e.file (.of e.source) = some answer ∧
        (s.prepareEntry pending e).value = (.prepared (.done (.unchanged answer.1 answer.2)),
          { s with fallbacks := s.fallbacks.erase e.file })) ∨
      (s.cached? e.file (.of e.source) = none ∧
        ((∃ failure, s.layers.reserve e.file = .error failure ∧
          (s.prepareEntry pending e).value =
            (.prepared (.done (.fallback (fallbackCode s.config e.source) failure)),
              { s with fallbacks := s.fallbacks.insert e.file () })) ∨
        ∃ r layers, s.layers.reserve e.file = .ok (r, layers) ∧
          (s.prepareEntry pending e).value =
            (.prepared (.pending (.of e.source) r), { s with layers }))))) := by
  cases hskip : s.filter.skip? e.file e.source with
  | some reason => exact Or.inl ⟨reason, rfl, value_prepareEntry_of_skipped hskip pending⟩
  | none =>
    by_cases hp : e.file ∈ pending
    · exact Or.inr (Or.inl ⟨rfl, hp, value_prepareEntry_of_pending hskip hp⟩)
    · refine Or.inr (Or.inr ⟨rfl, hp, ?_⟩)
      rw [value_prepareEntry_of_new hskip hp]
      cases hcached : s.cached? e.file (.of e.source) with
      | some answer =>
        rw [value_consider_of_cached hcached]
        exact Or.inl ⟨answer, rfl, rfl⟩
      | none =>
        refine Or.inr ⟨rfl, ?_⟩
        cases hr : s.layers.reserve e.file with
        | error failure =>
          rw [value_consider_of_refused hcached hr]
          exact Or.inl ⟨failure, rfl, rfl⟩
        | ok made =>
          rw [value_consider_of_reserved hcached hr]
          exact Or.inr ⟨made.1, made.2, rfl, rfl⟩

/-- Preparing a file leaves the layers as they are, or reserves a base for it. -/
theorem layers_prepareEntry (s : Session) (pending : List FileId) (e : Entry) :
    (s.prepareEntry pending e).value.2.layers = s.layers ∨
      ∃ r, s.layers.reserve e.file = .ok (r, (s.prepareEntry pending e).value.2.layers) := by
  rcases s.prepareEntry_cases pending e with ⟨_, -, h⟩ | ⟨-, -, h⟩ | ⟨-, -, ⟨_, -, h⟩ | ⟨-,
    ⟨_, -, h⟩ | ⟨r, layers, hr, h⟩⟩⟩ <;> rw [h]
  · exact Or.inl rfl
  · exact Or.inl rfl
  · exact Or.inl rfl
  · exact Or.inl rfl
  · exact Or.inr ⟨r, hr⟩

/-- A base that a file has outlives the preparation of another. -/
theorem stableBase?_prepareEntry {s : Session} (pending : List FileId) (e : Entry)
    {file : FileId} {base : UInt32} (h : s.layers.stableBase? file = some base) :
    (s.prepareEntry pending e).value.2.layers.stableBase? file = some base := by
  rcases s.layers_prepareEntry pending e with hl | ⟨r, hr⟩
  · rw [hl]; exact h
  · exact Layers.stableBase?_reserve_of_some hr h

/-- Preparing a file of the list lets nobody outside of the list own a slot; under the monotonic
policy nobody owns one anyway. -/
theorem within_prepareEntry {s : Session} {e : Entry} {pending : List FileId}
    (hK : s.layers.Within K) (he : s.layers.policy = .stable → e.file ∈ K) :
    (s.prepareEntry pending e).value.2.layers.Within K := by
  rcases s.layers_prepareEntry pending e with hl | ⟨r, hr⟩
  · rw [hl]; exact hK
  · intro file base hbase
    rcases Layers.stableBase?_of_reserve hr hbase with ⟨hpolicy, rfl⟩ | hold
    · exact he hpolicy
    · exact hK file base hold

/-- **What processing a file does**: it is skipped, or answered from its record, or is refused a
base, or its transform is called at the base that it is given. -/
theorem process_cases (s : Session) (e : Entry) :
    (∃ reason, s.filter.skip? e.file e.source = some reason ∧
      (s.process e.transform e.file e.source).value = (.skipped reason, s)) ∨
    (s.filter.skip? e.file e.source = none ∧
      ((∃ answer, s.cached? e.file (.of e.source) = some answer ∧
        (s.process e.transform e.file e.source).value = (.unchanged answer.1 answer.2,
          { s with fallbacks := s.fallbacks.erase e.file })) ∨
      (s.cached? e.file (.of e.source) = none ∧
        ((∃ failure, s.layers.reserve e.file = .error failure ∧
          (s.process e.transform e.file e.source).value =
            (.fallback (fallbackCode s.config e.source) failure,
              { s with fallbacks := s.fallbacks.insert e.file () })) ∨
        ∃ r layers, s.layers.reserve e.file = .ok (r, layers) ∧
          (s.process e.transform e.file e.source).value =
            (Session.finish { s with layers } e.file e.source (.of e.source) r
              (s.ask e r.base)).value)))) := by
  cases hskip : s.filter.skip? e.file e.source with
  | some reason => exact Or.inl ⟨reason, rfl, value_process_of_skipped hskip⟩
  | none =>
    refine Or.inr ⟨rfl, ?_⟩
    cases hcached : s.cached? e.file (.of e.source) with
    | some answer =>
      exact Or.inl ⟨answer, rfl, value_process_of_done hskip (value_consider_of_cached hcached)⟩
    | none =>
      refine Or.inr ⟨rfl, ?_⟩
      cases hr : s.layers.reserve e.file with
      | error failure =>
        exact Or.inl ⟨failure, rfl,
          value_process_of_done hskip (value_consider_of_refused hcached hr)⟩
      | ok made =>
        obtain ⟨r, layers⟩ := made
        refine Or.inr ⟨r, layers, rfl, ?_⟩
        rw [value_process_of_pending hskip (value_consider_of_reserved hcached hr),
          Layers.reserve_file hr]
        rfl

/-- Settling a reservation is one move. -/
theorem finish_move (s : Session) (before after : List Reservation) {r : Reservation} {e : Entry}
    (hr : r.file = e.file) :
    Move K ⟨s, before ++ r :: after⟩
      [.processed e (s.finish e.file e.source (.of e.source) r (s.ask e r.base)).value.1]
      ⟨(s.finish e.file e.source (.of e.source) r (s.ask e r.base)).value.2, before ++ after⟩ := by
  cases hask : s.ask e r.base with
  | error failure => exact .release hr hask
  | ok output =>
    rw [value_finish_ok]
    exact .commit hr hask

/-- **Processing a file is a sequence of moves.** -/
theorem process_moves {s : Session} {e : Entry} {held : List Reservation}
    (hheld : ∀ q ∈ held, q.file ≠ e.file)
    (hK : (s.prepareEntry [] e).value.2.layers.Within K) :
    Moves K ⟨s, held⟩ [.processed e (s.process e.transform e.file e.source).value.1]
      ⟨(s.process e.transform e.file e.source).value.2, held⟩ := by
  rcases s.process_cases e with ⟨reason, -, h⟩ | ⟨hskip, ⟨answer, -, h⟩ | ⟨hcached,
    ⟨failure, hr, h⟩ | ⟨r, layers, hr, h⟩⟩⟩ <;> rw [h]
  · exact .single (.note _ e rfl)
  · exact .cons (.reuse s held e.file) (.single (.note _ e rfl))
  · exact .single (.refuse hr)
  · rw [value_prepareEntry_of_new hskip List.not_mem_nil,
      value_consider_of_reserved hcached hr] at hK
    have hreserve : Move K ⟨s, held⟩ [] ⟨{ s with layers }, held ++ [r]⟩ :=
      .reserve hheld hr hK
    have hsettle := finish_move (K := K) { s with layers } held [] (Layers.reserve_file hr)
    rw [List.append_nil] at hsettle
    exact .cons hreserve (.single hsettle)

/-- Processing a file leaves the settings, the policy and the kept stylesheet as they are. -/
theorem framed_process {s next : Session} {e : Entry} {outcome : Outcome}
    (h : (s.process e.transform e.file e.source).value = (outcome, next)) : Framed s next := by
  have m : Moves _ ⟨s, []⟩ _ _ := process_moves (fun _ hq => absurd hq List.not_mem_nil)
    (Layers.within_keys (s.prepareEntry [] e).value.2.layers)
  rw [h] at m
  exact m.framed

/-- **Processing a file leaves the store as it is, or replaces the record of the file**, and the
outcome tells which. -/
theorem store_process {s next : Session} {e : Entry} {outcome : Outcome}
    (h : (s.process e.transform e.file e.source).value = (outcome, next)) :
    (outcome.mutated = false ∧ next.store = s.store) ∨
    (outcome.mutated = true ∧ ∃ record, next.store = s.store.putRecord e.file record) := by
  rcases s.process_cases e with
    ⟨_, -, h'⟩ | ⟨-, ⟨_, -, h'⟩ | ⟨-, ⟨_, -, h'⟩ | ⟨r, layers, -, h'⟩⟩⟩ <;> rw [h] at h'
  · cases h'
    exact Or.inl ⟨rfl, rfl⟩
  · cases h'
    exact Or.inl ⟨rfl, rfl⟩
  · cases h'
    exact Or.inl ⟨rfl, rfl⟩
  · cases hask : s.ask e r.base with
    | error failure =>
      rw [hask, value_finish_error] at h'
      cases h'
      exact Or.inl ⟨rfl, rfl⟩
    | ok output =>
      rw [hask, value_finish_ok] at h'
      cases h'
      exact Or.inr ⟨rfl, _, rfl⟩

/-- **Processing a file leaves all other files alone.** -/
theorem process_elsewhere {s next : Session} {e : Entry} {outcome : Outcome}
    (hpolicy : s.layers.policy = .stable)
    (h : (s.process e.transform e.file e.source).value = (outcome, next)) {file : FileId}
    (hfile : e.file ≠ file) : next.store.record? file = s.store.record? file ∧
      next.layers.stableBase? file = s.layers.stableBase? file := by
  constructor
  · rcases store_process h with ⟨-, hstore⟩ | ⟨-, record, hstore⟩
    · rw [hstore]
    · rw [hstore, RuleStore.record?_putRecord, if_neg hfile]
  · rcases s.process_cases e with
      ⟨_, -, h'⟩ | ⟨-, ⟨_, -, h'⟩ | ⟨-, ⟨_, -, h'⟩ | ⟨r, layers, hr, h'⟩⟩⟩ <;> rw [h] at h'
    · cases h'
      rfl
    · cases h'
      rfl
    · cases h'
      rfl
    · have hbase := Layers.stableBase?_reserve hpolicy hr file
      rw [if_neg hfile] at hbase
      cases hask : s.ask e r.base with
      | error failure =>
        rw [hask, value_finish_error] at h'
        cases h'
        have hne : ¬(r.fresh = true ∧ r.file = file) := by
          rw [Layers.reserve_file hr]
          exact fun hgone => hfile hgone.2
        rw [Layers.stableBase?_release ((Layers.policy_reserve hr).trans hpolicy), if_neg hne, hbase]
      | ok output =>
        rw [hask, value_finish_ok] at h'
        cases h'
        exact hbase

/-- Processing files one after the other is a sequence of moves. -/
theorem processEach_moves {s : Session} {entries : List Entry}
    (hpolicy : s.layers.policy = .monotonic) (hK : s.layers.Within K) :
    Moves K ⟨s, []⟩ (List.zipWith .processed entries (s.processEach entries).value.1)
      ⟨(s.processEach entries).value.2, []⟩ := by
  induction entries generalizing s with
  | nil => exact .nil _
  | cons e rest ih =>
    have m : Moves K ⟨s, []⟩ _ _ := process_moves (e := e) (by simp)
      (within_prepareEntry hK fun hstable => by rw [hpolicy] at hstable; cases hstable)
    cases hvalue : (s.process e.transform e.file e.source).value with
    | mk outcome next =>
      rw [hvalue] at m
      rw [value_processEach_cons hvalue, List.zipWith_cons_cons, ← List.singleton_append]
      exact m.append (ih (m.framed.policy.trans hpolicy) (m.within hK))

/-! ## Batches -/

theorem value_attemptEntry_pending {s : Session} {e : Entry} {r : Reservation}
    (h : r.file = e.file) (fingerprint : Fingerprint) :
    (s.attemptEntry e (.prepared (.pending fingerprint r))).value =
      .attempted fingerprint r (s.ask e r.base) := by
  simp only [attemptEntry, Traced.value_map, value_attempt, h, ask]

/-- The results of a batch that have not been ended, with the reservations held for them: a file
that waits holds none any more, and no file holds two. -/
inductive Awaits (K : List FileId) (s : Session) :
    List Reservation → List (Entry × BatchResult) → Prop
  | nil : Awaits K s [] []
  | done {held : List Reservation} {results : List (Entry × BatchResult)} {e : Entry}
    {outcome : Outcome} (h : outcome.attempted = false) (rest : Awaits K s held results) :
    Awaits K s held ((e, .done outcome) :: results)
  | attempted {held : List Reservation} {results : List (Entry × BatchResult)} {e : Entry}
    {r : Reservation} (hr : r.file = e.file) (rest : Awaits K s held results) :
    Awaits K s (r :: held) ((e, .attempted (.of e.source) r (s.ask e r.base)) :: results)
  | deferred {held : List Reservation} {results : List (Entry × BatchResult)} {e : Entry}
    (hK : e.file ∈ K) (hheld : ∀ q ∈ held, q.file ≠ e.file) (rest : Awaits K s held results) :
    Awaits K s held ((e, .deferred) :: results)

/-- A base that a file has outlives the preparation of a batch. -/
theorem stableBase?_prepareBatch {s : Session} {pending : List FileId} {entries : List Entry}
    {file : FileId} {base : UInt32} (h : s.layers.stableBase? file = some base) :
    (s.prepareBatch pending entries).value.2.layers.stableBase? file = some base := by
  induction entries generalizing s pending with
  | nil => exact h
  | cons e rest ih =>
    have hnext := stableBase?_prepareEntry pending e h
    cases hvalue : (s.prepareEntry pending e).value with
    | mk step next =>
      rw [hvalue] at hnext
      rw [value_prepareBatch_cons hvalue]
      exact ih hnext

/-- If only files of the list own slots after a batch has been prepared, the same is true before
and on the way. -/
theorem within_of_prepareBatch {s : Session} {pending : List FileId} {entries : List Entry}
    (h : (s.prepareBatch pending entries).value.2.layers.Within K) : s.layers.Within K :=
  fun file base hbase => h file base (stableBase?_prepareBatch hbase)

/-- **Preparing a batch** makes reservations, one for each file that is to be transformed. -/
theorem prepareBatch_moves {s : Session} {entries : List Entry} (pending : List FileId)
    (held : List Reservation) (hpolicy : s.layers.policy = .stable)
    (hheld : ∀ q ∈ held, q.file ∈ pending) (hpending : pending ⊆ K)
    (hK : (s.prepareBatch pending entries).value.2.layers.Within K) :
    ∃ made : List Reservation, (∀ q ∈ made, q.file ∉ pending) ∧
      Moves K ⟨s, held⟩ [] ⟨(s.prepareBatch pending entries).value.2, held ++ made⟩ ∧
      ∀ t : Session,
        Awaits K t made (t.attemptBatch (s.prepareBatch pending entries).value.1).value := by
  induction entries generalizing s pending held with
  | nil =>
    refine ⟨[], by simp, ?_, fun t => .nil⟩
    rw [List.append_nil]
    exact .nil _
  | cons e rest ih =>
    rcases s.prepareEntry_cases pending e with ⟨reason, -, hvalue⟩ | ⟨-, hp, hvalue⟩ |
      ⟨-, hp, ⟨answer, -, hvalue⟩ | ⟨-, ⟨failure, hr, -⟩ | ⟨r, layers, hr, hvalue⟩⟩⟩
    · rw [value_prepareBatch_cons hvalue] at hK ⊢
      obtain ⟨made, hmade, hmoves, hawaits⟩ := ih pending held hpolicy hheld hpending hK
      refine ⟨made, hmade, hmoves, fun t => ?_⟩
      rw [value_attemptBatch_cons]
      exact .done rfl (hawaits t)
    · rw [value_prepareBatch_cons hvalue] at hK ⊢
      obtain ⟨made, hmade, hmoves, hawaits⟩ := ih pending held hpolicy hheld hpending hK
      refine ⟨made, hmade, hmoves, fun t => ?_⟩
      rw [value_attemptBatch_cons]
      exact .deferred (hpending hp) (fun q hq heq => hmade q hq (heq ▸ hp)) (hawaits t)
    · rw [value_prepareBatch_cons hvalue] at hK ⊢
      obtain ⟨made, hmade, hmoves, hawaits⟩ :=
        ih (s := { s with fallbacks := s.fallbacks.erase e.file }) pending held hpolicy hheld
          hpending hK
      refine ⟨made, hmade, .cons (.reuse s held e.file) hmoves, fun t => ?_⟩
      rw [value_attemptBatch_cons]
      exact .done rfl (hawaits t)
    · exact absurd hr (Layers.reserve_ne_error hpolicy)
    · rw [value_prepareBatch_cons hvalue] at hK ⊢
      have hfile := Layers.reserve_file hr
      have hwithin : layers.Within K := within_of_prepareBatch hK
      have hnew : e.file ∈ K := by
        refine hwithin e.file r.base ?_
        rw [Layers.stableBase?_reserve hpolicy hr, if_pos rfl]
      obtain ⟨made, hmade, hmoves, hawaits⟩ := ih (s := { s with layers })
        (e.file :: pending) (held ++ [r])
        ((Layers.policy_reserve hr).trans hpolicy)
        (fun q hq => by
          rcases List.mem_append.mp hq with hq | hq
          · exact List.mem_cons_of_mem _ (hheld q hq)
          · rw [List.mem_singleton.mp hq, hfile]
            exact List.mem_cons_self)
        (List.cons_subset.mpr ⟨hnew, hpending⟩) hK
      refine ⟨r :: made, fun q hq => ?_, ?_, fun t => ?_⟩
      · rcases List.mem_cons.mp hq with rfl | hq
        · rw [hfile]; exact hp
        · exact fun hmem => hmade q hq (List.mem_cons_of_mem _ hmem)
      · rw [List.append_assoc] at hmoves
        have hheld' : ∀ q ∈ held, q.file ≠ e.file := fun q hq heq => hp (heq ▸ hheld q hq)
        exact .cons (.reserve hheld' hr hwithin) hmoves
      · rw [value_attemptBatch_cons, value_attemptEntry_pending hfile]
        exact .attempted hfile (hawaits t)

/-- **Ending a batch** settles the reservations that it holds, in their order. -/
theorem finishBatch_moves {s t : Session} {held : List Reservation}
    {results : List (Entry × BatchResult)} (h : Awaits K s held results)
    (hask : t.ask = s.ask) (hpolicy : t.layers.policy = .stable) (hK : t.layers.Within K) :
    Moves K ⟨t, held⟩
      (List.zipWith .processed (results.map (·.1)) (t.finishBatch results).value.1)
      ⟨(t.finishBatch results).value.2, []⟩ := by
  induction h generalizing t with
  | nil => exact .nil _
  | @done held results e outcome h _ ih =>
    rw [value_finishBatch_cons (t.value_finishEntry_done e outcome), List.map_cons,
      List.zipWith_cons_cons, ← List.singleton_append]
    exact .cons (.note _ e h) (ih hask hpolicy hK)
  | @attempted held results e r hr _ ih =>
    have m := finish_move (K := K) t [] held hr
    have hvalue := t.value_finishEntry_attempted e (.of e.source) r (t.ask e r.base)
    cases hfinish : (t.finish e.file e.source (.of e.source) r (t.ask e r.base)).value with
    | mk outcome next =>
      rw [hfinish] at m hvalue
      rw [← hask, value_finishBatch_cons hvalue, List.map_cons, List.zipWith_cons_cons,
        ← List.singleton_append]
      exact .cons m (ih (m.framed.ask.trans hask) (m.framed.policy.trans hpolicy) (m.within hK))
  | @deferred held results e hfile hheld _ ih =>
    have m := process_moves hheld (within_prepareEntry hK fun _ => hfile)
    have hvalue := t.value_finishEntry_deferred e
    cases hprocess : (t.process e.transform e.file e.source).value with
    | mk outcome next =>
      rw [hprocess] at m hvalue
      rw [value_finishBatch_cons hvalue, List.map_cons, List.zipWith_cons_cons,
        ← List.singleton_append]
      exact m.append (ih (m.framed.ask.trans hask) (m.framed.policy.trans hpolicy) (m.within hK))

/-- **Processing files is a sequence of moves** that reports the outcomes in the order of the
files. -/
theorem processEntries_moves {s : Session} {entries : List Entry}
    (hK : (s.prepareBatch [] entries).value.2.layers.Within K) :
    Moves K ⟨s, []⟩ (List.zipWith .processed entries (s.processEntries entries).value.1)
      ⟨(s.processEntries entries).value.2, []⟩ := by
  cases hpolicy : s.layers.policy with
  | monotonic =>
    rw [value_processEntries_of_monotonic hpolicy]
    exact processEach_moves hpolicy (within_of_prepareBatch hK)
  | stable =>
    obtain ⟨made, -, hmoves, hawaits⟩ := prepareBatch_moves [] [] hpolicy (by simp)
      (List.nil_subset K) hK
    have hentries := s.map_fst_prepareBatch [] entries
    cases hprepare : (s.prepareBatch [] entries).value with
    | mk steps next =>
      rw [hprepare] at hK hmoves hawaits hentries
      have hfinish := finishBatch_moves (hawaits next) rfl (hmoves.framed.policy.trans hpolicy) hK
      rw [map_fst_attemptBatch, hentries] at hfinish
      rw [value_processEntries_of_stable hpolicy hprepare]
      exact hmoves.append hfinish

end Session

end LayeredCss

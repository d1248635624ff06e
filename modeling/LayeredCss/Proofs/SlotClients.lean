import Mathlib.Data.List.Pairwise
import LayeredCss.Proofs.Counter

/-!
# Slots among their clients

Clients that share layers of the stable policy are never refused.  Several of them may hold
reservations at a time, also for one file, and a client may ask for a base without reserving it.  The
first of them that asks for a file makes its slot.  If this was a reservation, the slot is given up
when it is released, whoever else has been told of the base by then.

* `Desk.Founded`: the slots are tidy, and a reservation that has made a slot and has not been released
  stands for the slot that its file owns;
* `slots_of_reachable`: the bases determine the slots, and a file without a base gets the least slot
  that no file holds;
* `grants_of_reachable`: a base is kept, unless the reservation that has made its slot is released;
* `not_grants_of_release`: and then it goes to another file, although a client has been told that it is
  the file's.
-/

namespace LayeredCss

/-- Under the stable policy asking for a base is reserving it, without the reservation. -/
theorem Layers.baseFor_of_reserve {a b : Layers} (hpolicy : a.policy = .stable) {file : FileId}
    {r : Reservation} (h : a.reserve file = .ok (r, b)) : a.baseFor file = (r.base, b) := by
  unfold reserve at h
  unfold baseFor
  rw [hpolicy] at h ⊢
  cases h
  rfl

namespace Desk

/-- New layers of the stable policy. -/
def openingStable : Desk := ⟨.new .stable, []⟩

/-- Fewer than `capacity` slots are in use. -/
def HasRoom (x : Desk) : Prop := x.layers.bases.size < Layers.capacity

/-- A step of a client while there is room. -/
def RoomyStep (x y : Desk) : Prop := x.HasRoom ∧ Step x y

abbrev RoomySteps : Desk → Desk → Prop := Relation.ReflTransGen RoomyStep

instance (x : Desk) : Decidable x.HasRoom :=
  inferInstanceAs (Decidable (x.layers.bases.size < Layers.capacity))

/-- A client asks for the base of a file. -/
def ask (x : Desk) (file : FileId) : Desk := { x with layers := (x.layers.baseFor file).2 }

/-- The client that holds the reservation at a place of the desk commits it. -/
def commitAt (x : Desk) (i : Nat) (r : Reservation) (nextLayer : UInt32) : Desk :=
  ⟨(x.layers.commit r nextLayer).value, x.issued.set i (r, .committed nextLayer)⟩

/-- The client that holds the reservation at a place of the desk releases it. -/
def releaseAt (x : Desk) (i : Nat) (r : Reservation) : Desk :=
  ⟨x.layers.release r, x.issued.set i (r, .released)⟩

/-- The reservation has made the slot of its file and has not been released. -/
def Founds (p : Reservation × Fate) : Prop := p.1.fresh = true ∧ p.2 ≠ .released

/-- Two reservations have not both made a slot of one file. -/
def Apart (p q : Reservation × Fate) : Prop := Founds p → Founds q → p.1.file ≠ q.1.file

instance : Std.Symm Apart := ⟨fun _ _ h hq hp => Ne.symm (h hp hq)⟩

/-- **The slots of a desk**: they are tidy, and of the reservations that have made slots and have not
been released each has a file of its own, which owns the slot. -/
structure Founded (x : Desk) : Prop where
  policy : x.layers.policy = .stable
  tidy : x.layers.Tidy
  owned : ∀ p ∈ x.issued, Founds p → x.layers.stableBase? p.1.file = some p.1.base
  apart : x.issued.Pairwise Apart

theorem founded_openingStable : openingStable.Founded where
  policy := rfl
  tidy := Layers.tidy_new .stable
  owned _ hp := absurd hp List.not_mem_nil
  apart := .nil

variable {x y : Desk}

/-- Settling the reservation at a place leaves those before and after it. -/
theorem issued_set {i : Nat} {r : Reservation} (h : x.issued[i]? = some (r, .unsettled))
    (fate : Fate) : ∃ before after, x = ⟨x.layers, before ++ (r, .unsettled) :: after⟩ ∧
      x.issued.set i (r, fate) = before ++ (r, fate) :: after := by
  obtain ⟨hlt, hi⟩ := List.getElem?_eq_some_iff.mp h
  obtain ⟨before, after, hissued, -, hset⟩ := @List.exists_of_set _ i (r, fate) x.issued hlt
  rw [hi] at hissued
  refine ⟨before, after, ?_, hset⟩
  rw [← hissued]

theorem step_commitAt {i : Nat} {r : Reservation} (h : x.issued[i]? = some (r, .unsettled))
    (nextLayer : UInt32) : Step x (x.commitAt i r nextLayer) := by
  obtain ⟨before, after, hx, hset⟩ := issued_set h (.committed nextLayer)
  rw [commitAt, hset]
  exact hx ▸ Step.commit nextLayer

theorem step_releaseAt {i : Nat} {r : Reservation} (h : x.issued[i]? = some (r, .unsettled)) :
    Step x (x.releaseAt i r) := by
  obtain ⟨before, after, hx, hset⟩ := issued_set h .released
  rw [releaseAt, hset]
  exact hx ▸ Step.release

/-! ## One step -/

/-- A base that somebody gets, with or without a reservation. -/
theorem Founded.reserve {file : FileId} {r : Reservation} {layers : Layers} (hx : x.Founded)
    (hroom : x.layers.stableBase? file = none → x.HasRoom)
    (h : x.layers.reserve file = .ok (r, layers)) :
    Founded ⟨layers, x.issued⟩ ∧ Founded ⟨layers, x.issued ++ [(r, .unsettled)]⟩ := by
  have hpolicy : layers.policy = .stable := (Layers.policy_reserve h).trans hx.policy
  have htidy : layers.Tidy := hx.tidy.reserve hx.policy h hroom
  have howned : ∀ p ∈ x.issued, Founds p → layers.stableBase? p.1.file = some p.1.base :=
    fun p hp hfounds => Layers.stableBase?_reserve_of_some h (hx.owned p hp hfounds)
  have hfile : r.file = file := Layers.reserve_file h
  refine ⟨⟨hpolicy, htidy, howned, hx.apart⟩, hpolicy, htidy, ?_, ?_⟩
  · intro p hp hfounds
    rcases List.mem_append.mp hp with hp | hp
    · exact howned p hp hfounds
    · rw [List.mem_singleton.mp hp]
      simp only [Layers.stableBase?_reserve hx.policy h, hfile, if_true]
  · refine List.pairwise_append.mpr ⟨hx.apart, List.pairwise_singleton _ _, ?_⟩
    intro p hp q hq hfounds hfresh heq
    rw [List.mem_singleton.mp hq] at hfresh heq
    have hnew : r.fresh = true := hfresh.1
    -- the file of a reservation that makes a slot had none
    rw [Layers.fresh_reserve hx.policy h, ← hfile, ← heq, hx.owned p hp hfounds] at hnew
    cases hnew

/-- Settling a reservation keeps the others, as long as they keep their bases. -/
theorem Founded.settle {layers layers' : Layers} {before after : List (Reservation × Fate)}
    {r : Reservation} {fate : Fate} (hx : Founded ⟨layers, before ++ (r, .unsettled) :: after⟩)
    (hpolicy : layers'.policy = .stable) (htidy : layers'.Tidy)
    (hself : Founds (r, fate) → layers'.stableBase? r.file = some r.base)
    (hothers : ∀ file base, (r.fresh = true → r.file ≠ file) →
      layers.stableBase? file = some base → layers'.stableBase? file = some base) :
    Founded ⟨layers', before ++ (r, fate) :: after⟩ := by
  have hfounds : Founds (r, fate) → Founds (r, .unsettled) := fun h => ⟨h.1, Fate.noConfusion⟩
  obtain ⟨hfirst, hrest⟩ :=
    List.pairwise_cons.mp ((List.pairwise_middle fun h => symm h).mp hx.apart)
  refine ⟨hpolicy, htidy, fun p hp hp' => ?_, ?_⟩
  · rcases List.mem_cons.mp (List.perm_middle.mem_iff.mp hp) with rfl | hp
    · exact hself hp'
    · have hmem : p ∈ before ++ (r, .unsettled) :: after :=
        List.perm_middle.mem_iff.mpr (List.mem_cons_of_mem _ hp)
      refine hothers _ _ (fun hfresh => ?_) (hx.owned p hmem hp')
      exact hfirst p hp ⟨hfresh, Fate.noConfusion⟩ hp'
  · refine (List.pairwise_middle fun h => symm h).mpr (List.pairwise_cons.mpr ⟨?_, hrest⟩)
    exact fun p hp hr => hfirst p hp (hfounds hr)

/-- **A step keeps the slots of a desk founded** if there is room for the file that it brings. -/
theorem Founded.keep (hx : x.Founded) (h : Step x y)
    (hroom : x.layers.bases.size < y.layers.bases.size → x.HasRoom) : y.Founded := by
  rcases h with ⟨_, file⟩ | ⟨_, file⟩ | nextLayer | -
  · obtain ⟨r, layers, hr⟩ := Layers.reserve_of_stable hx.policy file
    rw [Layers.baseFor_of_reserve hx.policy hr] at hroom ⊢
    refine (hx.reserve (fun hnew => hroom ?_) hr).1
    simp only [Layers.size_reserve hx.policy hr hnew, Nat.lt_succ_self]
  · obtain ⟨r, layers, hr⟩ := Layers.reserve_of_stable hx.policy file
    rw [Desk.reserve, hr] at hroom ⊢
    refine (hx.reserve (fun hnew => hroom ?_) hr).2
    simp only [Layers.size_reserve hx.policy hr hnew, Nat.lt_succ_self]
  · next layers before after r =>
    rw [Layers.value_commit]
    refine hx.settle hx.policy (hx.tidy.settle nextLayer) (fun hfounds => ?_) fun _ _ _ h => h
    exact hx.owned (r, .unsettled) (List.mem_append_right _ List.mem_cons_self)
      ⟨hfounds.1, Fate.noConfusion⟩
  · next layers before after r =>
    have hpolicy : layers.policy = .stable := hx.policy
    refine hx.settle ((Layers.policy_release layers r).trans hpolicy) ?_ (fun hfounds => ?_) ?_
    · cases hfresh : r.fresh with
      | false =>
        rw [Layers.release_of_not_fresh hpolicy hfresh]
        exact hx.tidy
      | true =>
        have hmem : (r, .unsettled) ∈ before ++ (r, Fate.unsettled) :: after :=
          List.mem_append_right _ List.mem_cons_self
        exact hx.tidy.release hpolicy (hx.owned _ hmem ⟨hfresh, Fate.noConfusion⟩)
    · exact absurd rfl hfounds.2
    · intro file base hne hbase
      rw [Layers.stableBase?_release hpolicy, if_neg fun h => hne h.1 h.2]
      exact hbase

/-- **Each step keeps the slots of a desk founded** while there is room. -/
theorem Founded.step (hx : x.Founded) (h : RoomyStep x y) : y.Founded := hx.keep h.2 fun _ => h.1

/-- **Each run keeps the slots of a desk founded.** -/
theorem Founded.steps (hx : x.Founded) (h : RoomySteps x y) : y.Founded := by
  induction h with
  | refl => exact hx
  | tail _ hstep ih => exact ih.step hstep

/-! ## The least slot -/

/-- What a file without a base gets, with or without a reservation. -/
theorem Founded.baseFor_new (hx : x.Founded) (hroom : x.HasRoom) {file : FileId}
    (hnew : x.layers.stableBase? file = none) :
    ∃ slot r layers, IsLeast { slot | ¬ x.layers.Held slot } slot ∧
      (x.layers.baseFor file).1.toNat = slot * Layers.slotWidth ∧
      x.layers.reserve file = .ok (r, layers) ∧ r.base = (x.layers.baseFor file).1 := by
  have hleast : IsLeast { slot | ¬ x.layers.Held slot } x.layers.takeSlot.1 := by
    simp only [← hx.tidy.owned_iff_held]
    exact hx.tidy.isLeast_takeSlot
  rcases Layers.reserve_cases hx.policy file with ⟨base, hbase, -⟩ | ⟨-, hr⟩
  · cases hnew.symm.trans hbase
  · refine ⟨_, _, _, hleast, ?_, hr, Layers.base_of_reserve hr⟩
    rw [Layers.baseFor_of_reserve hx.policy hr]
    exact Layers.toNat_slotBase_of_lt (hx.tidy.takeSlot_lt hroom)

/-- **The bases of the files determine the slots.**  However the calls of the clients are mixed, the
slots that the bases lie in belong to one file each and are, with the free ones, all slots below the
top, of which the highest is not free; so two desks with the same bases have the same slots.  A file
without a base gets the first layer of the least slot that no file holds. -/
theorem slots_of_reachable (hx : RoomySteps openingStable x) :
    (∀ file other base base', x.layers.stableBase? file = some base →
      x.layers.stableBase? other = some base' → Layers.slotOf base = Layers.slotOf base' →
      file = other) ∧
    (∀ slot, slot < x.layers.nextSlot ↔
      x.layers.freeSlots.contains slot = true ∨ x.layers.Held slot) ∧
    (∀ slot, x.layers.freeSlots.contains slot = true → ¬ x.layers.Held slot) ∧
    (∀ slot, x.layers.nextSlot = slot + 1 → x.layers.freeSlots.contains slot = false) ∧
    (∀ y, RoomySteps openingStable y → x.layers.bases = y.layers.bases →
      x.layers.nextSlot = y.layers.nextSlot ∧ x.layers.freeSlots = y.layers.freeSlots) ∧
    (x.HasRoom → ∀ file, x.layers.stableBase? file = none →
      ∃ slot r layers, IsLeast { slot | ¬ x.layers.Held slot } slot ∧
        (x.layers.baseFor file).1.toNat = slot * Layers.slotWidth ∧
        x.layers.reserve file = .ok (r, layers) ∧ r.base = (x.layers.baseFor file).1) := by
  have hx := founded_openingStable.steps hx
  have htidy := hx.tidy
  refine ⟨fun file other base base' h h' heq => ?_, fun slot => ?_, fun slot hfree => ?_,
    fun slot htop => ?_, fun y hy hbases => ?_, fun hroom file hnew => hx.baseFor_new hroom hnew⟩
  · refine htidy.distinct file other base h ?_
    rw [← htidy.slotBase_slotOf h, heq, htidy.slotBase_slotOf h']
    exact h'
  · rw [htidy.free_iff, ← htidy.owned_iff_held]
    constructor
    · intro hlt
      by_cases howned : x.layers.Owned slot
      · exact Or.inr howned
      · exact Or.inl ⟨hlt, howned⟩
    · rintro (⟨hlt, -⟩ | howned)
      · exact hlt
      · exact htidy.lt_of_owned howned
  · rw [← htidy.owned_iff_held]
    exact ((htidy.free_iff slot).mp hfree).2
  · exact (htidy.owned_iff.mp (htidy.top_owned slot htop)).2
  · exact htidy.eq_of_bases (founded_openingStable.steps hy).tidy hbases

/-- A first reservation is released while another of the same file is under way, its slot goes to
another file, and the other reservation is committed all the same; of the gaps that are left a new
file gets the least. -/
theorem slots_of_reachable_gap :
    let e : FileId := ⟨"e.ts"⟩
    ∃ x, RoomySteps openingStable x ∧ x.HasRoom ∧ x.layers.stableBase? e = none ∧
      x.layers.freeSlots.contains 1 = true ∧ x.layers.nextSlot = 3 ∧
      (x.layers.baseFor e).1 = 1000 ∧ IsLeast { slot | ¬ x.layers.Held slot } 1 := by
  intro e
  let a : FileId := ⟨"a.ts"⟩
  let b : FileId := ⟨"b.ts"⟩
  let x := (((((((openingStable.reserve a).2.reserve a).2.reserve b).2.ask ⟨"c.ts"⟩).releaseAt 0
    ⟨a, 0, true⟩).ask ⟨"d.ts"⟩).commitAt 1 ⟨a, 0, false⟩ 7).releaseAt 2 ⟨b, 1000, true⟩
  have hx : RoomySteps openingStable x :=
    .head ⟨by decide +kernel, .reserve _ a⟩ <|
    .head ⟨by decide +kernel, .reserve _ a⟩ <|
    .head ⟨by decide +kernel, .reserve _ b⟩ <|
    .head ⟨by decide +kernel, .baseFor _ ⟨"c.ts"⟩⟩ <|
    .head ⟨by decide +kernel, step_releaseAt (by decide +kernel)⟩ <|
    .head ⟨by decide +kernel, .baseFor _ ⟨"d.ts"⟩⟩ <|
    .head ⟨by decide +kernel, step_commitAt (by decide +kernel) 7⟩ <|
    .head ⟨by decide +kernel, step_releaseAt (by decide +kernel)⟩ .refl
  have hroom : x.HasRoom := by decide +kernel
  have hnew : x.layers.stableBase? e = none := by decide +kernel
  have hbase : (x.layers.baseFor e).1 = 1000 := by decide +kernel
  obtain ⟨-, -, -, -, -, hleast⟩ := slots_of_reachable hx
  obtain ⟨slot, r, layers, hslot, hfirst, -⟩ := hleast hroom e hnew
  have hone : slot = 1 := by
    have hthousand : (1000 : UInt32).toNat = 1000 := rfl
    rw [hbase, hthousand] at hfirst
    unfold Layers.slotWidth at hfirst
    omega
  exact ⟨x, hx, hroom, hnew, by decide +kernel, by decide +kernel, hbase, hone ▸ hslot⟩

/-! ## Permanence -/

/-- Whoever asks for the base of the file gets this one, and nobody gets it for another file. -/
structure Grants (x : Desk) (file : FileId) (base : UInt32) : Prop where
  asked : (x.layers.baseFor file).1 = base
  reserved : ∃ r layers, x.layers.reserve file = .ok (r, layers) ∧ r.base = base
  others_asked : ∀ other, other ≠ file → (x.layers.baseFor other).1 ≠ base
  others_reserved : ∀ other r layers, other ≠ file →
    x.layers.reserve other = .ok (r, layers) → r.base ≠ base

/-- A file that owns a slot is granted its base. -/
theorem Founded.grants (hx : x.Founded) {file : FileId} {base : UInt32}
    (h : x.layers.stableBase? file = some base) : x.Grants file base := by
  have hself : ∃ r layers, x.layers.reserve file = .ok (r, layers) ∧ r.base = base := by
    rcases Layers.reserve_cases hx.policy file with ⟨base', hbase', hr⟩ | ⟨hnew, -⟩
    · cases h.symm.trans hbase'
      exact ⟨_, _, hr, rfl⟩
    · cases h.symm.trans hnew
  have hothers : ∀ other r layers, other ≠ file →
      x.layers.reserve other = .ok (r, layers) → r.base ≠ base := by
    intro other r layers hne hr heq
    rcases Layers.reserve_cases hx.policy other with ⟨base', hbase', hr'⟩ | ⟨-, hr'⟩ <;>
      cases hr.symm.trans hr'
    · exact hne (hx.tidy.distinct other file base (heq ▸ hbase') h)
    · -- the slot that is taken is nobody's, that of the file is its own
      refine hx.tidy.isLeast_takeSlot.1 ⟨file, ?_⟩
      rw [h, ← heq]
  obtain ⟨r, layers, hr, hbase⟩ := hself
  refine ⟨?_, ⟨r, layers, hr, hbase⟩, fun other hne => ?_, hothers⟩
  · rw [← Layers.base_of_reserve hr, hbase]
  · obtain ⟨r', layers', hr'⟩ := Layers.reserve_of_stable hx.policy other
    rw [← Layers.base_of_reserve hr']
    exact hothers other r' layers' hne hr'

/-- Since the first desk the reservation that had made the slot of the file has been released. -/
def GivenUp (x y : Desk) (file : FileId) (base : UInt32) : Prop :=
  ∃ (i : Nat) (r : Reservation), x.issued[i]? = some (r, .unsettled) ∧
    y.issued[i]? = some (r, .released) ∧ r.fresh = true ∧ r.file = file ∧ r.base = base

/-- Reservations keep their places at the desk. -/
theorem issued_of_step (h : RoomyStep x y) {i : Nat} {r : Reservation} {fate : Fate}
    (hi : x.issued[i]? = some (r, fate)) : ∃ fate', y.issued[i]? = some (r, fate') := by
  have hsettle : ∀ (before after : List (Reservation × Fate)) (q : Reservation) (new : Fate),
      (before ++ (q, .unsettled) :: after)[i]? = some (r, fate) →
      ∃ fate', (before ++ (q, new) :: after)[i]? = some (r, fate') := by
    intro before after q new hi
    rcases Nat.lt_or_ge i before.length with hlt | hge
    · rw [List.getElem?_append_left hlt] at hi ⊢
      exact ⟨fate, hi⟩
    · rw [List.getElem?_append_right hge] at hi ⊢
      cases hk : i - before.length with
      | zero =>
        rw [hk, List.getElem?_cons_zero] at hi
        cases hi
        exact ⟨new, rfl⟩
      | succ k =>
        rw [hk] at hi
        exact ⟨fate, hi⟩
  rcases h.2 with ⟨_, file⟩ | ⟨_, file⟩ | nextLayer | -
  · exact ⟨fate, hi⟩
  · unfold Desk.reserve
    split
    · exact ⟨fate, hi⟩
    · have hlt := (List.getElem?_eq_some_iff.mp hi).1
      exact ⟨fate, (List.getElem?_append_left hlt).trans hi⟩
  · exact hsettle _ _ _ _ hi
  · exact hsettle _ _ _ _ hi

theorem issued_of_steps (h : RoomySteps x y) {i : Nat} {r : Reservation} {fate : Fate}
    (hi : x.issued[i]? = some (r, fate)) : ∃ fate', y.issued[i]? = some (r, fate') := by
  induction h with
  | refl => exact ⟨fate, hi⟩
  | tail _ hstep ih =>
    obtain ⟨fate', hi'⟩ := ih
    exact issued_of_step hstep hi'

/-- The file owns a slot, and nobody holds a reservation that has made it. -/
structure Rooted (x : Desk) (file : FileId) (base : UInt32) : Prop where
  base : x.layers.stableBase? file = some base
  settled : ∀ r, (r, .unsettled) ∈ x.issued → r.file = file → r.fresh = false

theorem unsettled_of_settle {before after : List (Reservation × Fate)} {q r : Reservation}
    {fate : Fate} (hfate : fate ≠ .unsettled)
    (h : (q, .unsettled) ∈ before ++ (r, fate) :: after) :
    (q, .unsettled) ∈ before ++ (r, Fate.unsettled) :: after := by
  rcases List.mem_cons.mp (List.perm_middle.mem_iff.mp h) with heq | hmem
  · cases heq
    exact absurd rfl hfate
  · exact List.perm_middle.mem_iff.mpr (List.mem_cons_of_mem _ hmem)

/-- **A slot whose maker has been settled stays with its file.** -/
theorem Rooted.step {file : FileId} {base : UInt32} (hpolicy : x.layers.policy = .stable)
    (hr : x.Rooted file base) (h : RoomyStep x y) : y.Rooted file base := by
  obtain ⟨hbase, hsettled⟩ := hr
  rcases h.2 with ⟨_, other⟩ | ⟨_, other⟩ | nextLayer | -
  · obtain ⟨r, layers, hreserve⟩ := Layers.reserve_of_stable hpolicy other
    rw [Layers.baseFor_of_reserve hpolicy hreserve]
    exact ⟨Layers.stableBase?_reserve_of_some hreserve hbase, hsettled⟩
  · obtain ⟨r, layers, hreserve⟩ := Layers.reserve_of_stable hpolicy other
    rw [Desk.reserve, hreserve]
    refine ⟨Layers.stableBase?_reserve_of_some hreserve hbase, fun q hq hfile => ?_⟩
    rcases List.mem_append.mp hq with hq | hq
    · exact hsettled q hq hfile
    · cases List.mem_singleton.mp hq
      rw [Layers.fresh_reserve hpolicy hreserve, ← Layers.reserve_file hreserve, hfile, hbase]
      rfl
  · rw [Layers.value_commit]
    exact ⟨hbase, fun q hq => hsettled q (unsettled_of_settle Fate.noConfusion hq)⟩
  · next layers before after r =>
    refine ⟨?_, fun q hq => hsettled q (unsettled_of_settle Fate.noConfusion hq)⟩
    rw [Layers.stableBase?_release hpolicy, if_neg, hbase]
    rintro ⟨hfresh, hfile⟩
    rw [hsettled r (List.mem_append_right _ List.mem_cons_self) hfile] at hfresh
    cases hfresh

theorem Rooted.steps {file : FileId} {base : UInt32} (hx : x.Founded) (hr : x.Rooted file base)
    (h : RoomySteps x y) : y.Rooted file base := by
  induction h with
  | refl => exact hr
  | tail hsteps hstep ih => exact ih.step (hx.steps hsteps).policy hstep

/-- A base that a file owns is kept, unless the reservation that has made the slot is released. -/
theorem Founded.kept (hx : x.Founded) {file : FileId} {base : UInt32}
    (hbase : x.layers.stableBase? file = some base) (h : RoomySteps x y) :
    y.layers.stableBase? file = some base ∨ GivenUp x y file base := by
  by_cases hmaker : ∃ r, (r, .unsettled) ∈ x.issued ∧ r.file = file ∧ r.fresh = true
  · obtain ⟨r, hmem, rfl, hfresh⟩ := hmaker
    have howned := hx.owned _ hmem ⟨hfresh, Fate.noConfusion⟩
    cases hbase.symm.trans howned
    obtain ⟨i, hi⟩ := List.mem_iff_getElem?.mp hmem
    obtain ⟨fate, hi'⟩ := issued_of_steps h hi
    by_cases hreleased : fate = .released
    · exact Or.inr ⟨i, r, hi, hreleased ▸ hi', hfresh, rfl, rfl⟩
    · exact Or.inl ((hx.steps h).owned (r, fate) (List.mem_of_getElem? hi') ⟨hfresh, hreleased⟩)
  · have hrooted : x.Rooted file base := ⟨hbase, fun r hmem hfile => by
      rw [← Bool.not_eq_true]
      exact fun hfresh => hmaker ⟨r, hmem, hfile, hfresh⟩⟩
    exact Or.inl (hrooted.steps hx h).base

/-- The slot of a reservation that made it and was committed has no maker who could release it. -/
theorem Founded.rooted (hx : x.Founded) {r : Reservation} {nextLayer : UInt32}
    (hmem : (r, .committed nextLayer) ∈ x.issued) (hfresh : r.fresh = true) :
    x.Rooted r.file r.base := by
  refine ⟨hx.owned _ hmem ⟨hfresh, Fate.noConfusion⟩, fun q hq hfile => ?_⟩
  rw [← Bool.not_eq_true]
  intro hq'
  have hne : (q, Fate.unsettled) ≠ (r, .committed nextLayer) := fun heq => by cases heq
  have hapart : Apart (q, .unsettled) (r, .committed nextLayer) :=
    hx.apart.forall hq hmem hne
  exact hapart ⟨hq', Fate.noConfusion⟩ ⟨hfresh, Fate.noConfusion⟩ hfile

/-- **A base that has been given is kept, unless the reservation that has made its slot is
released.**  A client that has asked for the base of a file, or has committed a reservation of it,
can rely on it as long as the file owns it; nothing but the release of that one reservation takes
it away, and once that has been committed nothing does. -/
theorem grants_of_reachable (hx : RoomySteps openingStable x) :
    (∀ file y, x.HasRoom → RoomySteps (x.ask file) y →
      y.Grants file (x.layers.baseFor file).1 ∨ GivenUp x y file (x.layers.baseFor file).1) ∧
    (∀ r nextLayer y, (r, .committed nextLayer) ∈ x.issued →
      x.layers.stableBase? r.file = some r.base → RoomySteps x y →
      y.Grants r.file r.base ∨ GivenUp x y r.file r.base) ∧
    ∀ r nextLayer y, (r, .committed nextLayer) ∈ x.issued → r.fresh = true → RoomySteps x y →
      y.Grants r.file r.base := by
  have hx := founded_openingStable.steps hx
  refine ⟨fun file y hroom hsteps => ?_, fun r nextLayer y hmem hbase hsteps => ?_,
    fun r nextLayer y hmem hfresh hsteps => ?_⟩
  · have hasked : (x.ask file).Founded := hx.step ⟨hroom, .baseFor x file⟩
    obtain ⟨r, layers, hr⟩ := Layers.reserve_of_stable hx.policy file
    have hbase : (x.ask file).layers.stableBase? file = some (x.layers.baseFor file).1 := by
      rw [ask, Layers.baseFor_of_reserve hx.policy hr, Layers.stableBase?_reserve hx.policy hr,
        if_pos rfl]
    exact (hasked.kept hbase hsteps).imp_left (hasked.steps hsteps).grants
  · exact (hx.kept hbase hsteps).imp_left (hx.steps hsteps).grants
  · exact (hx.steps hsteps).grants ((hx.rooted hmem hfresh).steps hx hsteps).base

/-- The first reservation of a file is under way when somebody asks for its base: committed it roots
the slot, whatever becomes of further reservations, and released it takes the slot with it. -/
theorem grants_of_reachable_overlapping :
    let a : FileId := ⟨"a.ts"⟩
    let r : Reservation := ⟨a, 0, true⟩
    let x := (openingStable.reserve a).2
    let y := (((x.ask a).commitAt 0 r 5).reserve a).2.releaseAt 1 ⟨a, 0, false⟩
    let z := (x.ask a).releaseAt 0 r
    RoomySteps openingStable x ∧ x.HasRoom ∧ RoomySteps (x.ask a) y ∧ y.Grants a 0 ∧
      RoomySteps (x.ask a) z ∧ GivenUp x z a 0 := by
  intro a r x y z
  have hx : RoomySteps openingStable x := .single ⟨by decide +kernel, .reserve _ a⟩
  have hroom : x.HasRoom := by decide +kernel
  have hcommit : RoomySteps (x.ask a) ((x.ask a).commitAt 0 r 5) :=
    .single ⟨by decide +kernel, step_commitAt (by decide +kernel) 5⟩
  have hy : RoomySteps ((x.ask a).commitAt 0 r 5) y :=
    .head ⟨by decide +kernel, .reserve _ a⟩ <|
    .head ⟨by decide +kernel, step_releaseAt (by decide +kernel)⟩ .refl
  have hz : RoomySteps (x.ask a) z :=
    .single ⟨by decide +kernel, step_releaseAt (by decide +kernel)⟩
  obtain ⟨hasked, -, -⟩ := grants_of_reachable hx
  have hgiven := hasked a z hroom hz
  have hzero : (x.layers.baseFor a).1 = 0 := by decide +kernel
  rw [hzero] at hgiven
  obtain ⟨-, -, hcommitted⟩ :=
    grants_of_reachable (hx.trans (.head ⟨hroom, .baseFor _ a⟩ hcommit))
  have hlost : ¬ z.Grants a 0 := fun h =>
    h.others_asked ⟨"b.ts"⟩ (by decide +kernel) (by decide +kernel)
  exact ⟨hx, hroom, hcommit.trans hy, hcommitted r 5 y (by decide +kernel) rfl hy, hz,
    hgiven.resolve_left hlost⟩

/-- **A base is not permanent once it has been given.**  Another file gets the base that a client has
been told, or has committed, and its own file gets another one, when the first reservation of the
file is released. -/
theorem not_grants_of_release :
    let a : FileId := ⟨"a.ts"⟩
    let b : FileId := ⟨"b.ts"⟩
    let r : Reservation := ⟨a, 0, true⟩
    let x := (openingStable.reserve a).2
    let y := (x.ask a).releaseAt 0 r
    let z := (x.reserve a).2.commitAt 1 ⟨a, 0, false⟩ 3
    (RoomySteps openingStable x ∧ (x.layers.baseFor a).1 = 0 ∧ RoomySteps (x.ask a) y ∧
      (y.layers.baseFor b).1 = 0 ∧ ((y.ask b).layers.baseFor a).1 = 1000) ∧
    RoomySteps openingStable z ∧ (⟨a, 0, false⟩, .committed 3) ∈ z.issued ∧
      RoomySteps z (z.releaseAt 0 r) ∧ ((z.releaseAt 0 r).layers.baseFor b).1 = 0 := by
  intro a b r x y z
  have hx : RoomySteps openingStable x := .single ⟨by decide +kernel, .reserve _ a⟩
  have hy : RoomySteps (x.ask a) y :=
    .single ⟨by decide +kernel, step_releaseAt (by decide +kernel)⟩
  have hz : RoomySteps x z :=
    .head ⟨by decide +kernel, .reserve _ a⟩ <|
    .head ⟨by decide +kernel, step_commitAt (by decide +kernel) 3⟩ .refl
  have hreleased : RoomySteps z (z.releaseAt 0 r) :=
    .single ⟨by decide +kernel, step_releaseAt (by decide +kernel)⟩
  exact ⟨⟨hx, by decide +kernel, hy, by decide +kernel, by decide +kernel⟩,
    hx.trans hz, by decide +kernel, hreleased, by decide +kernel⟩

end Desk

end LayeredCss

import Mathlib
import LayeredCss.Proofs.SlotClients

/-!
# Slots at the limit of their numbers

The base of a slot is the number of the slot times the width, and the slot of a base is found by
dividing again.  Products saturate at the greatest number of 32 bits, so this finds the slot again
only if it is one of the first `capacity` slots.

* `slotOf_slotBase_iff`: which slots are found again;
* `slots_of_fitting`: as long as no more than `capacity` files own a slot at a time, a release gives
  back the slot that the reservation took, and no free slot is anybody's;
* `crowd`: a desk where so many files have come;
* `not_slots_of_crowd`: with one file more, a release gives back the slot of another file.
-/

namespace LayeredCss

namespace Layers

/-- The slot that is found from a base: above the first `capacity` slots it is the last of them. -/
theorem slotOf_slotBase_eq (slot : Nat) : slotOf (slotBase slot) = min slot (capacity - 1) := by
  have hlimit : limit = 4294967295 := rfl
  rw [slotOf, toNat_slotBase, hlimit]
  unfold slotWidth capacity
  omega

/-- **A slot is found again from its base** if it is one of the first `capacity` slots. -/
theorem slotOf_slotBase_iff {slot : Nat} : slotOf (slotBase slot) = slot ↔ slot < capacity := by
  rw [slotOf_slotBase_eq]
  unfold capacity
  omega

end Layers

namespace Desk

variable {x y : Desk}

/-- A step after which no more than `capacity` files own a slot. -/
def FittingStep (x y : Desk) : Prop := Step x y ∧ y.layers.bases.size ≤ Layers.capacity

abbrev FittingSteps : Desk → Desk → Prop := Relation.ReflTransGen FittingStep

theorem Founded.fittingSteps (hx : x.Founded) (h : FittingSteps x y) : y.Founded := by
  induction h with
  | refl => exact hx
  | tail _ hstep ih => exact ih.keep hstep.1 fun hlt => Nat.lt_of_lt_of_le hlt hstep.2

/-- What a release gives back is the slot of the reservation, and no other. -/
theorem Founded.held_release (hx : x.Founded) {r : Reservation} (hmem : (r, .unsettled) ∈ x.issued)
    (hfresh : r.fresh = true) (slot : Nat) :
    (x.layers.release r).Held slot ↔ x.layers.Held slot ∧ slot ≠ Layers.slotOf r.base := by
  have howned : x.layers.stableBase? r.file = some r.base :=
    hx.owned _ hmem ⟨hfresh, Fate.noConfusion⟩
  unfold Layers.Held
  simp only [Layers.stableBase?_release hx.policy, hfresh, true_and]
  constructor
  · rintro ⟨file, base, hbase, rfl⟩
    split at hbase
    · cases hbase
    · next hne =>
      refine ⟨⟨file, base, hbase, rfl⟩, fun heq => hne ?_⟩
      -- the base is the first layer of its slot, so two files in one slot have one base
      refine hx.tidy.distinct _ _ _ howned ?_
      rw [hbase, ← hx.tidy.slotBase_slotOf hbase, heq, hx.tidy.slotBase_slotOf howned]
  · rintro ⟨⟨file, base, hbase, rfl⟩, hne⟩
    refine ⟨file, base, ?_, rfl⟩
    rw [if_neg, hbase]
    rintro rfl
    cases howned.symm.trans hbase
    exact hne rfl

/-- **Slots come back to where they were taken from.**  However the calls of the clients are mixed, as
long as no more than `capacity` files own a slot at a time: no free slot is held by a file; a new file
for which there is room reserves a base in the slot that it takes, and releasing it at once restores
the layers; and whenever a reservation that has made a slot is released, what is given back is the slot
that its base lies in, and no other. -/
theorem slots_of_fitting (hx : FittingSteps openingStable x) :
    (∀ slot, x.layers.freeSlots.contains slot = true → ¬ x.layers.Held slot) ∧
    (∀ file, x.layers.stableBase? file = none → x.HasRoom →
      ∃ r layers, x.layers.reserve file = .ok (r, layers) ∧ r.fresh = true ∧
        Layers.slotOf r.base = x.layers.takeSlot.1 ∧ layers.release r = x.layers) ∧
    ∀ r, (r, .unsettled) ∈ x.issued → r.fresh = true →
      ∀ slot, (x.layers.release r).Held slot ↔ x.layers.Held slot ∧ slot ≠ Layers.slotOf r.base := by
  have hx := founded_openingStable.fittingSteps hx
  refine ⟨fun slot hfree => ?_, fun file hnew hroom => ?_, fun r hmem hfresh slot => ?_⟩
  · rw [← hx.tidy.owned_iff_held]
    exact ((hx.tidy.free_iff slot).mp hfree).2
  · rcases Layers.reserve_cases hx.policy file with ⟨base, hbase, -⟩ | ⟨-, hr⟩
    · cases hnew.symm.trans hbase
    · have hslot := Layers.slotOf_slotBase (hx.tidy.takeSlot_lt hroom)
      exact ⟨_, _, hr, rfl, hslot, Layers.release_reserve hx.tidy hx.policy hr fun _ => hroom⟩
  · exact hx.held_release hmem hfresh slot

/-- A reservation that has made a slot is released while another of the file is under way; a new file
takes the slot, and what it reserves is released again. -/
theorem slots_of_fitting_reuse :
    let a : FileId := ⟨"a.ts"⟩
    let c : FileId := ⟨"c.ts"⟩
    let x := (((openingStable.reserve a).2.reserve ⟨"b.ts"⟩).2.reserve a).2.releaseAt 0 ⟨a, 0, true⟩
    FittingSteps openingStable x ∧ x.layers.freeSlots.contains 0 = true ∧ ¬ x.layers.Held 0 ∧
      x.layers.takeSlot.1 = 0 ∧
      (∃ r layers, x.layers.reserve c = .ok (r, layers) ∧ layers.release r = x.layers) ∧
      ¬ (x.layers.release ⟨⟨"b.ts"⟩, 1000, true⟩).Held 1 := by
  intro a c x
  have hx : FittingSteps openingStable x :=
    .head ⟨.reserve _ a, by decide +kernel⟩ <|
    .head ⟨.reserve _ ⟨"b.ts"⟩, by decide +kernel⟩ <|
    .head ⟨.reserve _ a, by decide +kernel⟩ <|
    .head ⟨step_releaseAt (by decide +kernel), by decide +kernel⟩ .refl
  have hfree : x.layers.freeSlots.contains 0 = true := by decide +kernel
  obtain ⟨hnobody, hnew, hback⟩ := slots_of_fitting hx
  obtain ⟨r, layers, hr, -, -, hrestored⟩ := hnew c (by decide +kernel) (by decide +kernel)
  refine ⟨hx, hfree, hnobody 0 hfree, by decide +kernel, ⟨r, layers, hr, hrestored⟩, fun hheld => ?_⟩
  exact ((hback _ (by decide +kernel) rfl 1).mp hheld).2 (by decide +kernel)

end Desk

/-! ## One slot too many -/

namespace Layers

variable {a : Layers} {file : FileId}

/-- What a file gets that has no slot yet when no slot is free. -/
theorem reserve_of_full (hpolicy : a.policy = .stable)
    (hfull : ∀ slot, a.freeSlots.contains slot = false) (hroom : a.nextSlot < limit)
    (hnew : a.stableBase? file = none) :
    a.takeSlot.1 = a.nextSlot ∧ ∃ b,
      a.reserve file = .ok (⟨file, slotBase a.nextSlot, true⟩, b) ∧
      b.nextSlot = a.nextSlot + 1 ∧ b.freeSlots = a.freeSlots := by
  have hnext : min (a.nextSlot + 1) limit = a.nextSlot + 1 := by omega
  rcases a.takeSlot_cases with ⟨slot, hslot, -⟩ | ⟨-, htake⟩
  · rw [hfull] at hslot
    cases hslot
  · rcases reserve_cases hpolicy file with ⟨base, hbase, -⟩ | ⟨-, hr⟩
    · cases hnew.symm.trans hbase
    · rw [htake] at hr ⊢
      exact ⟨rfl, _, hr, hnext, rfl⟩

/-- What a file gets that has no slot yet when one slot is free. -/
theorem baseFor_of_free (hpolicy : a.policy = .stable) {slot : Nat}
    (hfree : ∀ n, a.freeSlots.contains n = true ↔ n = slot) (hnew : a.stableBase? file = none) :
    (a.baseFor file).1 = slotBase slot := by
  rcases a.takeSlot_cases with ⟨n, hn, htake⟩ | ⟨hfull, -⟩
  · rcases reserve_cases hpolicy file with ⟨base, hbase, -⟩ | ⟨-, hr⟩
    · cases hnew.symm.trans hbase
    · rw [← base_of_reserve hr, htake, (hfree n).mp hn]
  · have hslot := (hfree slot).mpr rfl
    rw [hfull] at hslot
    cases hslot

/-- A release of another slot than the top one gives up nothing at the top. -/
theorem release_below_top (hpolicy : a.policy = .stable) {r : Reservation} (hfresh : r.fresh = true)
    {top : Nat} (hnext : a.nextSlot = top + 1) (htop : a.freeSlots.contains top = false)
    (hne : slotOf r.base ≠ top) :
    a.release r = { a with
      bases := a.bases.erase r.file
      freeSlots := a.freeSlots.insert (slotOf r.base) () } := by
  have hkept : (a.freeSlots.insert (slotOf r.base) ()).contains top ≠ true := by
    rw [ne_eq, OrderedMap.contains_insert, htop]
    rintro (heq | hfalse)
    · exact hne heq
    · cases hfalse
  rw [release_of_fresh hpolicy hfresh, hnext, trimSlots, if_neg hkept, ← hnext]

/-- **Above the first `capacity` slots a release misses the slot that was taken.**  It gives back the
last of them, whoever holds it. -/
theorem release_of_full (hpolicy : a.policy = .stable)
    (hfull : ∀ slot, a.freeSlots.contains slot = false) (hroom : a.nextSlot < limit)
    (hmany : capacity ≤ a.nextSlot) (hnew : a.stableBase? file = none) :
    ∃ r b, a.reserve file = .ok (r, b) ∧ r.fresh = true ∧ slotOf r.base = capacity - 1 ∧
      (b.release r).policy = .stable ∧ (b.release r).nextSlot = a.nextSlot + 1 ∧
      (∀ slot, (b.release r).freeSlots.contains slot = true ↔ slot = capacity - 1) ∧
      ∀ other, file ≠ other → (b.release r).stableBase? other = a.stableBase? other := by
  obtain ⟨-, b, hr, hnext, hfree⟩ := reserve_of_full hpolicy hfull hroom hnew
  have hpolicy' : b.policy = .stable := (policy_reserve hr).trans hpolicy
  have hslot : slotOf (slotBase a.nextSlot) = capacity - 1 := by
    rw [slotOf_slotBase_eq]
    omega
  have hbelow : slotOf (slotBase a.nextSlot) ≠ a.nextSlot :=
    mt slotOf_slotBase_iff.mp (Nat.not_lt.mpr hmany)
  have htop : b.freeSlots.contains a.nextSlot = false := by rw [hfree, hfull]
  let r : Reservation := ⟨file, slotBase a.nextSlot, true⟩
  have hrelease := release_below_top (r := r) hpolicy' rfl hnext htop hbelow
  refine ⟨r, b, hr, rfl, hslot, (policy_release b _).trans hpolicy', ?_, fun slot => ?_,
    fun other hne => ?_⟩
  · rw [hrelease, hnext]
  · rw [hrelease, OrderedMap.contains_insert, hfree, hfull, hslot]
    simp [eq_comm]
  · rw [stableBase?_release hpolicy', if_neg fun h => hne h.2, stableBase?_reserve hpolicy hr,
      if_neg hne]

end Layers

namespace Desk

/-- A file for each number. -/
def fileNo (n : Nat) : FileId := ⟨n.repr⟩

/-- A desk where so many files have come, each for a slot of its own. -/
def crowd : Nat → Desk
  | 0 => openingStable
  | n + 1 => (crowd n).ask (fileNo n)

theorem fileNo_inj {m n : Nat} (h : fileNo m = fileNo n) : m = n :=
  Nat.repr_injective (congrArg FileId.name h)

theorem steps_crowd (n : Nat) : Steps openingStable (crowd n) := by
  induction n with
  | zero => exact .refl
  | succ n ih => exact ih.tail (.baseFor _ (fileNo n))

/-- The files of a crowd own the slots in the order in which they came. -/
structure Crowded (x : Desk) (n : Nat) : Prop where
  policy : x.layers.policy = .stable
  full : ∀ slot, x.layers.freeSlots.contains slot = false
  next : x.layers.nextSlot = n
  base : ∀ i < n, x.layers.stableBase? (fileNo i) = some (Layers.slotBase i)
  others : ∀ i, n ≤ i → x.layers.stableBase? (fileNo i) = none

theorem crowded_crowd {n : Nat} (hn : n ≤ Layers.limit) : (crowd n).Crowded n := by
  induction n with
  | zero => exact ⟨rfl, fun _ => rfl, rfl, fun i hi => absurd hi (Nat.not_lt_zero i), fun _ _ => rfl⟩
  | succ n ih =>
    have hx := ih (by omega)
    have hroom : (crowd n).layers.nextSlot < Layers.limit := by
      rw [hx.next]
      omega
    obtain ⟨-, b, hr, hnext, hfree⟩ :=
      Layers.reserve_of_full hx.policy hx.full hroom (hx.others n le_rfl)
    have hbase := Layers.stableBase?_reserve hx.policy hr
    rw [hx.next] at hnext hbase
    rw [crowd, ask, Layers.baseFor_of_reserve hx.policy hr]
    refine ⟨(Layers.policy_reserve hr).trans hx.policy, ?_, hnext, fun i hi => ?_, fun i hi => ?_⟩
    · rw [hfree]
      exact hx.full
    · rw [hbase]
      by_cases hi' : i = n
      · rw [hi', if_pos rfl]
      · rw [if_neg fun h => hi' (fileNo_inj h).symm]
        exact hx.base i (by omega)
    · rw [hbase, if_neg fun h => by have := fileNo_inj h; omega]
      exact hx.others i (by omega)

/-- **With one file more than `capacity` the slot of another file is given back.**  The base of the
last file saturates and lies in the slot of the file before it.  So the release puts a slot among the
free ones that is held by that file, the slot that the reservation took stays taken, and the next new
file gets the base of its neighbour. -/
theorem not_slots_of_crowd :
    let x := crowd Layers.capacity
    let file := fileNo Layers.capacity
    ∃ r layers, x.layers.stableBase? file = none ∧ x.layers.reserve file = .ok (r, layers) ∧
      Steps openingStable ⟨layers.release r, x.issued ++ [(r, .released)]⟩ ∧
      x.layers.takeSlot.1 = 4294968 ∧ Layers.slotOf r.base = 4294967 ∧
      x.layers.nextSlot = 4294968 ∧ (layers.release r).nextSlot = 4294969 ∧
      (layers.release r).freeSlots.contains 4294967 = true ∧
      (layers.release r).stableBase? (fileNo 4294967) = some 4294967000 ∧
      Layers.slotOf 4294967000 = 4294967 ∧
      ((layers.release r).baseFor (fileNo 4294969)).1 = 4294967000 := by
  intro x file
  have hcapacity : Layers.capacity = 4294968 := rfl
  have hlimit : Layers.limit = 4294967295 := rfl
  have hlast : Layers.slotBase 4294967 = 4294967000 := rfl
  have hx : x.Crowded Layers.capacity := crowded_crowd (by omega)
  have hnew : x.layers.stableBase? file = none := hx.others _ le_rfl
  have hroom : x.layers.nextSlot < Layers.limit := by
    rw [hx.next]
    omega
  obtain ⟨htake, -⟩ := Layers.reserve_of_full hx.policy hx.full hroom hnew
  obtain ⟨r, b, hr, -, hslot, hpolicy, hnext, hfree, hbases⟩ :=
    Layers.release_of_full hx.policy hx.full hroom (le_of_eq hx.next.symm) hnew
  have hne : ∀ {n}, n ≠ 4294968 → file ≠ fileNo n := fun h heq => by
    have := fileNo_inj heq
    omega
  have hstep : Step x ⟨b, x.issued ++ [(r, .unsettled)]⟩ := by
    have hreserve := Step.reserve x file
    rwa [Desk.reserve, hr] at hreserve
  rw [hx.next] at htake hnext
  refine ⟨r, b, hnew, hr, ((steps_crowd _).tail hstep).tail .release, htake, hslot, hx.next, hnext,
    (hfree _).mpr rfl, ?_, by decide, ?_⟩
  · rw [hbases _ (hne (by norm_num)), hx.base _ (by omega), hlast]
  · have hnobody : (b.release r).stableBase? (fileNo 4294969) = none := by
      rw [hbases _ (hne (by norm_num)), hx.others _ (by omega)]
    rw [Layers.baseFor_of_free hpolicy hfree hnobody]
    exact hlast

end Desk

end LayeredCss

import LayeredCss.Layers
import Mathlib.Data.List.Perm.Subperm
import Mathlib.Order.Bounds.Defs
import Mathlib.Tactic.ByContra
import Mathlib.Tactic.Set

/-!
# Slots of layers

Under the stable policy the slots below `nextSlot` are either owned by a file or free.  As long as
no more than `capacity` files own a slot, so that no base saturates, the layers stay *tidy*: the
owned slots are exactly those that are not free, different files own different slots, and the top
slot is owned.

* `Tidy.reserve`, `Tidy.settle`, `Tidy.release`: reserving and settling keep layers tidy;
* `Tidy.eq_of_bases`: in tidy layers the bases of the files determine all slots, so giving a slot
  back restores the layers, however it was taken (`release_reserve`);
* `Tidy.base_disjoint`: the slots of two files do not meet;
* `Tidy.isLeast_takeSlot`: the slot that a new file gets is the least one that nobody owns.

Under the monotonic policy nothing but the flag `outstanding` has to be restored; under either
policy a reservation that is made and released leaves no trace (`Settled.reserve_release`).
-/

namespace LayeredCss

attribute [ext] Layers

end LayeredCss

namespace LayeredCss.Layers

/-- The number of slots that start below the greatest number of 32 bits. -/
def capacity : Nat := 4294968

theorem toNat_slotBase (slot : Nat) : (slotBase slot).toNat = min (slot * slotWidth) limit := by
  have hle : min (slot * slotWidth) limit < UInt32.size := by
    have : limit < UInt32.size := by decide
    omega
  rw [slotBase, UInt32.toNat_ofNat_of_lt' hle]

theorem toNat_slotBase_of_lt {slot : Nat} (h : slot < capacity) :
    (slotBase slot).toNat = slot * slotWidth := by
  have hl : limit = 4294967295 := rfl
  rw [toNat_slotBase]
  unfold capacity at h
  unfold slotWidth
  omega

theorem slotBase_inj {slot other : Nat} (h : slot < capacity)
    (heq : slotBase other = slotBase slot) : other = slot := by
  have hl : limit = 4294967295 := rfl
  have htoNat := congrArg UInt32.toNat heq
  rw [toNat_slotBase_of_lt h, toNat_slotBase] at htoNat
  unfold slotWidth at htoNat
  -- a saturated base is not a multiple of the width
  omega

theorem slotOf_slotBase {slot : Nat} (h : slot < capacity) : slotOf (slotBase slot) = slot := by
  have hw : 0 < slotWidth := by decide
  rw [slotOf, toNat_slotBase_of_lt h, Nat.mul_div_cancel _ hw]

/-! ## Giving up slots at the top -/

/-- **What giving up slots at the top does**: the slots from the new top on were all free and are
given up, and the slot below the new top was not free. -/
theorem trimSlots_spec (top : Nat) (free : OrderedSet Nat) :
    (trimSlots top free).1 ≤ top ∧
    (∀ slot, (trimSlots top free).1 ≤ slot → slot < top → free.contains slot = true) ∧
    (∀ n, (trimSlots top free).1 = n + 1 → free.contains n = false) ∧
    ∀ slot, (trimSlots top free).2.contains slot = true ↔
      free.contains slot = true ∧ ¬ ((trimSlots top free).1 ≤ slot ∧ slot < top) := by
  induction top generalizing free with
  | zero => simp [trimSlots]
  | succ top ih =>
    unfold trimSlots
    split
    · next hfree =>
      obtain ⟨hle, hgiven, htop, hkept⟩ := ih (free.erase top)
      set n := (trimSlots top (free.erase top)).1
      have hcontains : ∀ slot, slot ≠ top →
          ((free.erase top).contains slot = true ↔ free.contains slot = true) := fun slot hne => by
        rw [OrderedMap.contains_erase]
        exact and_iff_right (Ne.symm hne)
      refine ⟨by omega, fun slot h1 h2 => ?_, fun m hm => ?_, fun slot => ?_⟩
      · by_cases hs : slot = top
        · exact hs ▸ hfree
        · exact (hcontains slot hs).mp (hgiven slot h1 (by omega))
      · have hne : m ≠ top := by omega
        rw [← Bool.not_eq_true, ← hcontains m hne, Bool.not_eq_true]
        exact htop m hm
      · rw [hkept, OrderedMap.contains_erase]
        constructor
        · rintro ⟨⟨hne, hs⟩, hn⟩
          exact ⟨hs, by omega⟩
        · rintro ⟨hs, hn⟩
          exact ⟨⟨by omega, hs⟩, by omega⟩
    · next hfree =>
      refine ⟨Nat.le_refl _, fun slot h1 h2 => absurd h1 (by omega), fun n hn => ?_, fun slot => ?_⟩
      · rw [← Nat.succ.inj hn]
        exact Bool.not_eq_true _ ▸ hfree
      · exact ⟨fun h => ⟨h, by omega⟩, And.left⟩

/-! ## Tidy layers -/

/-- Some file owns the slot. -/
def Owned (a : Layers) (slot : Nat) : Prop := ∃ file, a.stableBase? file = some (slotBase slot)

/-- The base of some file lies in the slot. -/
def Held (a : Layers) (slot : Nat) : Prop :=
  ∃ file base, a.stableBase? file = some base ∧ slotOf base = slot

/-- **Tidy layers**: each slot below `nextSlot` is owned by one file or free, and the top slot is
owned. -/
structure Tidy (a : Layers) : Prop where
  bound : a.nextSlot ≤ capacity
  free_iff : ∀ slot, a.freeSlots.contains slot = true ↔ slot < a.nextSlot ∧ ¬ a.Owned slot
  slot_of_base : ∀ file base, a.stableBase? file = some base →
    ∃ slot < a.nextSlot, base = slotBase slot
  distinct : ∀ file other base, a.stableBase? file = some base →
    a.stableBase? other = some base → file = other
  top_owned : ∀ slot, a.nextSlot = slot + 1 → a.Owned slot

theorem tidy_new (policy : Layering) : (Layers.new policy).Tidy where
  bound := Nat.zero_le _
  free_iff slot := by simp [new, OrderedMap.contains, OrderedMap.find?_empty]
  slot_of_base file base h := absurd h (by simp [new, stableBase?, OrderedMap.find?_empty])
  distinct file other base h := absurd h (by simp [new, stableBase?, OrderedMap.find?_empty])
  top_owned slot h := absurd h (by simp [new])

namespace Tidy

variable {a b : Layers} (ha : a.Tidy)
include ha

theorem lt_of_owned {slot : Nat} (h : a.Owned slot) : slot < a.nextSlot := by
  obtain ⟨file, hfile⟩ := h
  obtain ⟨other, hlt, heq⟩ := ha.slot_of_base file _ hfile
  have := ha.bound
  rw [slotBase_inj (by omega) heq]
  exact hlt

theorem owned_iff {slot : Nat} :
    a.Owned slot ↔ slot < a.nextSlot ∧ a.freeSlots.contains slot = false := by
  rw [← Bool.not_eq_true, ha.free_iff]
  constructor
  · exact fun h => ⟨ha.lt_of_owned h, fun hn => hn.2 h⟩
  · rintro ⟨hlt, hn⟩
    by_contra h
    exact hn ⟨hlt, h⟩

/-- **The bases of the files determine the slots of tidy layers.** -/
theorem eq_of_bases (hb : b.Tidy) (h : a.bases = b.bases) :
    a.nextSlot = b.nextSlot ∧ a.freeSlots = b.freeSlots := by
  have howned : ∀ slot, a.Owned slot ↔ b.Owned slot := fun slot => by
    unfold Owned stableBase?
    rw [h]
  have hnext : a.nextSlot = b.nextSlot := by
    -- otherwise the top slot of the one would lie above all owned slots of the other
    rcases Nat.lt_trichotomy a.nextSlot b.nextSlot with hlt | heq | hgt
    · obtain ⟨n, hn⟩ := Nat.exists_eq_succ_of_ne_zero (Nat.ne_of_gt (Nat.zero_lt_of_lt hlt))
      have := ha.lt_of_owned ((howned n).mpr (hb.top_owned n hn))
      omega
    · exact heq
    · obtain ⟨n, hn⟩ := Nat.exists_eq_succ_of_ne_zero (Nat.ne_of_gt (Nat.zero_lt_of_lt hgt))
      have := hb.lt_of_owned ((howned n).mp (ha.top_owned n hn))
      omega
  refine ⟨hnext, OrderedMap.ext_contains fun slot => ?_⟩
  rw [Bool.eq_iff_iff, ha.free_iff, hb.free_iff, hnext, howned]

/-- The slots of two files do not meet. -/
theorem base_disjoint {file other : FileId} {base base' : UInt32} (hne : file ≠ other)
    (h : a.stableBase? file = some base) (h' : a.stableBase? other = some base') :
    base.toNat + slotWidth ≤ base'.toNat ∨ base'.toNat + slotWidth ≤ base.toNat := by
  obtain ⟨slot, hlt, rfl⟩ := ha.slot_of_base file base h
  obtain ⟨slot', hlt', rfl⟩ := ha.slot_of_base other base' h'
  have hslots : slot ≠ slot' := fun heq => hne (ha.distinct file other _ h (heq ▸ h'))
  have := ha.bound
  rw [toNat_slotBase_of_lt (by omega), toNat_slotBase_of_lt (by omega)]
  unfold slotWidth
  omega

/-- The base of a file is the first layer of the slot that it lies in. -/
theorem slotBase_slotOf {file : FileId} {base : UInt32} (h : a.stableBase? file = some base) :
    slotBase (slotOf base) = base := by
  obtain ⟨slot, hlt, rfl⟩ := ha.slot_of_base file base h
  have hbound := ha.bound
  rw [slotOf_slotBase (by omega)]

/-- The owned slots are those that the bases of the files lie in. -/
theorem owned_iff_held {slot : Nat} : a.Owned slot ↔ a.Held slot := by
  constructor
  · intro howned
    have hlt := ha.lt_of_owned howned
    have hbound := ha.bound
    obtain ⟨file, hfile⟩ := howned
    exact ⟨file, _, hfile, slotOf_slotBase (by omega)⟩
  · rintro ⟨file, base, hbase, rfl⟩
    exact ⟨file, (ha.slotBase_slotOf hbase).symm ▸ hbase⟩

/-- If no slot is free, there are no more slots than files that own one. -/
theorem nextSlot_le_of_full (hfull : ∀ slot, a.freeSlots.contains slot = false) :
    a.nextSlot ≤ a.bases.size := by
  have hsub : List.range a.nextSlot ⊆ a.bases.values.map slotOf := fun slot hs => by
    have hlt : slot < a.nextSlot := List.mem_range.mp hs
    obtain ⟨file, hfile⟩ := ha.owned_iff.mpr ⟨hlt, hfull slot⟩
    have := ha.bound
    exact List.mem_map.mpr ⟨_, OrderedMap.mem_values hfile, slotOf_slotBase (by omega)⟩
  have hlen := (List.nodup_range.subperm hsub).length_le
  rwa [List.length_range, List.length_map, OrderedMap.length_values] at hlen

end Tidy

/-! ## Reserving -/

theorem takeSlot_cases (a : Layers) :
    (∃ slot, a.freeSlots.contains slot = true ∧
      a.takeSlot = (slot, { a with freeSlots := a.freeSlots.erase slot })) ∨
    ((∀ slot, a.freeSlots.contains slot = false) ∧
      a.takeSlot = (a.nextSlot, { a with nextSlot := min (a.nextSlot + 1) limit })) := by
  unfold takeSlot
  cases hmin : a.freeSlots.minKey? with
  | some slot => exact Or.inl ⟨slot, OrderedMap.contains_of_minKey? hmin, rfl⟩
  | none => exact Or.inr ⟨OrderedMap.contains_of_minKey?_eq_none hmin, rfl⟩

/-- **The slot that is taken is the least that nobody owns.** -/
theorem Tidy.isLeast_takeSlot {a : Layers} (ha : a.Tidy) :
    IsLeast { slot | ¬ a.Owned slot } a.takeSlot.1 := by
  unfold takeSlot
  cases hmin : a.freeSlots.minKey? with
  | some slot =>
    obtain ⟨hlt, hslot⟩ := (ha.free_iff slot).mp (OrderedMap.contains_of_minKey? hmin)
    refine ⟨hslot, fun other hother => ?_⟩
    by_contra hle
    have hless : other < slot := Nat.lt_of_not_le hle
    have hfree := (ha.free_iff other).mpr ⟨Nat.lt_trans hless hlt, hother⟩
    exact OrderedMap.not_lt_of_minKey? hmin hfree hless
  | none =>
    refine ⟨fun howned => absurd (ha.lt_of_owned howned) (Nat.lt_irrefl _), fun other hother => ?_⟩
    by_contra hle
    have hfree := (ha.free_iff other).mpr ⟨Nat.lt_of_not_le hle, hother⟩
    rw [OrderedMap.contains_of_minKey?_eq_none hmin] at hfree
    cases hfree

/-- While there is room the base of the slot that is taken does not saturate. -/
theorem Tidy.takeSlot_lt {a : Layers} (ha : a.Tidy) (hroom : a.bases.size < capacity) :
    a.takeSlot.1 < capacity := by
  have hbound := ha.bound
  rcases a.takeSlot_cases with ⟨slot, hslot, htake⟩ | ⟨hfull, htake⟩ <;> rw [htake]
  · have hlt := ((ha.free_iff slot).mp hslot).1
    omega
  · have hnext := ha.nextSlot_le_of_full hfull
    omega

/-- **What reserving under the stable policy does**: nothing for a file that owns a slot; any other
file comes to own the slot that `takeSlot` gives. -/
theorem reserve_cases {a : Layers} (hpolicy : a.policy = .stable) (file : FileId) :
    (∃ base, a.stableBase? file = some base ∧ a.reserve file = .ok (⟨file, base, false⟩, a)) ∨
    (a.stableBase? file = none ∧ a.reserve file =
      .ok (⟨file, slotBase a.takeSlot.1, true⟩, { a.takeSlot.2 with
        bases := a.takeSlot.2.bases.insert file (slotBase a.takeSlot.1) })) := by
  unfold reserve pin
  rw [hpolicy]
  cases h : a.stableBase? file with
  | some base => exact Or.inl ⟨base, rfl, rfl⟩
  | none => exact Or.inr ⟨rfl, rfl⟩

/-- **What reserving under the monotonic policy does**: it is refused while another reservation is
unsettled, and starts at the counter otherwise. -/
theorem reserve_cases_monotonic {a : Layers} (hpolicy : a.policy = .monotonic) (file : FileId) :
    (a.outstanding = true ∧ ∃ failure, a.reserve file = .error failure) ∨
    (a.outstanding = false ∧
      a.reserve file = .ok (⟨file, a.counter, false⟩, { a with outstanding := true })) := by
  unfold reserve
  split
  · cases h : a.outstanding with
    | true => exact Or.inl ⟨rfl, _, if_pos rfl⟩
    | false => exact Or.inr ⟨rfl, if_neg Bool.false_ne_true⟩
  · next hstable => rw [hpolicy] at hstable; cases hstable

theorem reserve_of_stable {a : Layers} (hpolicy : a.policy = .stable) (file : FileId) :
    ∃ r b, a.reserve file = .ok (r, b) := by
  rcases reserve_cases hpolicy file with ⟨_, -, h⟩ | ⟨-, h⟩ <;> exact ⟨_, _, h⟩

/-- Nothing is refused under the stable policy. -/
theorem reserve_ne_error {a : Layers} (hpolicy : a.policy = .stable) {file : FileId}
    {failure : Failure} : a.reserve file ≠ .error failure := by
  intro h
  obtain ⟨r, b, hr⟩ := reserve_of_stable hpolicy file
  cases h.symm.trans hr

/-- **How a reservation comes about**, under either policy. -/
theorem reserve_eq_ok {a b : Layers} {file : FileId} {r : Reservation}
    (h : a.reserve file = .ok (r, b)) :
    (a.policy = .monotonic ∧ a.outstanding = false ∧ r = ⟨file, a.counter, false⟩ ∧
      b = { a with outstanding := true }) ∨
    (a.policy = .stable ∧ ∃ base, a.stableBase? file = some base ∧ r = ⟨file, base, false⟩ ∧
      b = a) ∨
    (a.policy = .stable ∧ a.stableBase? file = none ∧ r = ⟨file, slotBase a.takeSlot.1, true⟩ ∧
      b = { a.takeSlot.2 with
        bases := a.takeSlot.2.bases.insert file (slotBase a.takeSlot.1) }) := by
  have hpolicy : a.policy = .monotonic ∨ a.policy = .stable := by
    cases a.policy
    · exact Or.inl rfl
    · exact Or.inr rfl
  rcases hpolicy with hpolicy | hpolicy
  · rcases reserve_cases_monotonic hpolicy file with ⟨-, failure, hr⟩ | ⟨hout, hr⟩ <;>
      cases h.symm.trans hr
    exact Or.inl ⟨hpolicy, hout, rfl, rfl⟩
  · rcases reserve_cases hpolicy file with ⟨base, hbase, hr⟩ | ⟨hnew, hr⟩ <;> cases h.symm.trans hr
    · exact Or.inr (Or.inl ⟨hpolicy, base, hbase, rfl, rfl⟩)
    · exact Or.inr (Or.inr ⟨hpolicy, hnew, rfl, rfl⟩)

theorem reserve_file {a b : Layers} {file : FileId} {r : Reservation}
    (h : a.reserve file = .ok (r, b)) : r.file = file := by
  rcases reserve_eq_ok h with ⟨-, -, rfl, -⟩ | ⟨-, _, -, rfl, -⟩ | ⟨-, -, rfl, -⟩ <;> rfl

theorem bases_takeSlot (a : Layers) : a.takeSlot.2.bases = a.bases := by
  rcases a.takeSlot_cases with ⟨slot, -, h⟩ | ⟨-, h⟩ <;> rw [h]

theorem size_reserve {a b : Layers} {file : FileId} {r : Reservation} (hpolicy : a.policy = .stable)
    (h : a.reserve file = .ok (r, b)) (hnew : a.stableBase? file = none) :
    b.bases.size = a.bases.size + 1 := by
  rcases reserve_cases hpolicy file with ⟨base, hbase, -⟩ | ⟨-, hr⟩
  · cases hnew.symm.trans hbase
  · cases h.symm.trans hr
    rw [← a.bases_takeSlot]
    exact OrderedMap.size_insert _ (a.bases_takeSlot.symm ▸ hnew)

theorem policy_takeSlot (a : Layers) : a.takeSlot.2.policy = a.policy := by
  rcases a.takeSlot_cases with ⟨slot, -, h⟩ | ⟨-, h⟩ <;> rw [h]

theorem counter_takeSlot (a : Layers) : a.takeSlot.2.counter = a.counter := by
  rcases a.takeSlot_cases with ⟨slot, -, h⟩ | ⟨-, h⟩ <;> rw [h]

theorem outstanding_takeSlot (a : Layers) : a.takeSlot.2.outstanding = a.outstanding := by
  rcases a.takeSlot_cases with ⟨slot, -, h⟩ | ⟨-, h⟩ <;> rw [h]

theorem policy_reserve {a b : Layers} {file : FileId} {r : Reservation}
    (h : a.reserve file = .ok (r, b)) : b.policy = a.policy := by
  rcases reserve_eq_ok h with ⟨-, -, -, rfl⟩ | ⟨-, _, -, -, rfl⟩ | ⟨-, -, -, rfl⟩
  · rfl
  · rfl
  · exact a.policy_takeSlot

theorem counter_reserve {a b : Layers} {file : FileId} {r : Reservation}
    (h : a.reserve file = .ok (r, b)) : b.counter = a.counter := by
  rcases reserve_eq_ok h with ⟨-, -, -, rfl⟩ | ⟨-, _, -, -, rfl⟩ | ⟨-, -, -, rfl⟩
  · rfl
  · rfl
  · exact a.counter_takeSlot

theorem outstanding_reserve {a b : Layers} (hpolicy : a.policy = .stable) {file : FileId}
    {r : Reservation} (h : a.reserve file = .ok (r, b)) : b.outstanding = a.outstanding := by
  rcases reserve_eq_ok h with ⟨hmonotonic, -⟩ | ⟨-, _, -, -, rfl⟩ | ⟨-, -, -, rfl⟩
  · cases hpolicy.symm.trans hmonotonic
  · rfl
  · exact a.outstanding_takeSlot

/-- A reservation only ever adds the base that it gives out. -/
theorem stableBase?_reserve {a b : Layers} (hpolicy : a.policy = .stable) {file : FileId}
    {r : Reservation} (h : a.reserve file = .ok (r, b)) (other : FileId) :
    b.stableBase? other = if file = other then some r.base else a.stableBase? other := by
  rcases reserve_eq_ok h with ⟨hmonotonic, -⟩ | ⟨-, base, hbase, rfl, rfl⟩ | ⟨-, -, rfl, rfl⟩
  · cases hpolicy.symm.trans hmonotonic
  · split
    · next heq => rw [← heq, hbase]
    · rfl
  · unfold stableBase?
    rw [OrderedMap.find?_insert, bases_takeSlot]

/-- A reservation is fresh exactly if the file had no base. -/
theorem fresh_reserve {a b : Layers} (hpolicy : a.policy = .stable) {file : FileId}
    {r : Reservation} (h : a.reserve file = .ok (r, b)) :
    r.fresh = (a.stableBase? file).isNone := by
  rcases reserve_cases hpolicy file with ⟨base, hbase, hr⟩ | ⟨hnew, hr⟩ <;> cases h.symm.trans hr
  · rw [hbase]
    rfl
  · rw [hnew]
    rfl

/-- A base that a file has outlives every reservation. -/
theorem stableBase?_reserve_of_some {a b : Layers} {file other : FileId} {r : Reservation}
    (h : a.reserve file = .ok (r, b)) {base : UInt32} (hbase : a.stableBase? other = some base) :
    b.stableBase? other = some base := by
  rcases reserve_eq_ok h with ⟨-, -, -, rfl⟩ | ⟨-, _, -, -, rfl⟩ | ⟨hpolicy, hnew, -, -⟩
  · exact hbase
  · exact hbase
  · rw [stableBase?_reserve hpolicy h, if_neg fun heq => ?_, hbase]
    rw [heq, hbase] at hnew
    cases hnew

/-- A base that a file has after a reservation is its own new one, or it had it before. -/
theorem stableBase?_of_reserve {a b : Layers} {file other : FileId} {r : Reservation}
    (h : a.reserve file = .ok (r, b)) {base : UInt32} (hbase : b.stableBase? other = some base) :
    (a.policy = .stable ∧ file = other) ∨ a.stableBase? other = some base := by
  rcases reserve_eq_ok h with ⟨-, -, -, rfl⟩ | ⟨-, _, -, -, rfl⟩ | ⟨hpolicy, -, -, -⟩
  · exact Or.inr hbase
  · exact Or.inr hbase
  · rw [stableBase?_reserve hpolicy h] at hbase
    split at hbase
    · exact Or.inl ⟨hpolicy, by assumption⟩
    · exact Or.inr hbase

theorem owned_of_insert {a b : Layers} {file : FileId} {slot : Nat} (hslot : slot < capacity)
    (hnew : a.stableBase? file = none)
    (hb : ∀ other, b.stableBase? other =
      if file = other then some (slotBase slot) else a.stableBase? other) (n : Nat) :
    b.Owned n ↔ n = slot ∨ a.Owned n := by
  unfold Owned
  simp only [hb]
  constructor
  · rintro ⟨other, hother⟩
    split at hother
    · exact Or.inl (slotBase_inj hslot (Option.some.inj hother).symm)
    · exact Or.inr ⟨other, hother⟩
  · rintro (rfl | ⟨other, hother⟩)
    · exact ⟨file, if_pos rfl⟩
    · refine ⟨other, ?_⟩
      rw [if_neg fun heq => ?_, hother]
      rw [← heq, hnew] at hother
      cases hother

/-- Tidy layers stay tidy when a slot that nobody owns comes to be owned. -/
theorem Tidy.own {a b : Layers} (ha : a.Tidy) {file : FileId} {slot : Nat}
    (hnew : a.stableBase? file = none)
    (hb : ∀ other, b.stableBase? other =
      if file = other then some (slotBase slot) else a.stableBase? other)
    (hslot : ¬ a.Owned slot) (hlt : slot < b.nextSlot) (hbound : b.nextSlot ≤ capacity)
    (hmono : a.nextSlot ≤ b.nextSlot)
    (hfree : ∀ n, b.freeSlots.contains n = true ↔ n < b.nextSlot ∧ n ≠ slot ∧ ¬ a.Owned n)
    (htop : ∀ n, b.nextSlot = n + 1 → n = slot ∨ a.Owned n) : b.Tidy := by
  have howned : ∀ n, b.Owned n ↔ n = slot ∨ a.Owned n :=
    owned_of_insert (by omega) hnew hb
  -- no file but the new one has the base of the new slot
  have hother : ∀ other, a.stableBase? other ≠ some (slotBase slot) := fun other h =>
    hslot ⟨other, h⟩
  refine ⟨hbound, fun n => ?_, fun f base h => ?_, fun f g base hf hg => ?_, fun n hn => ?_⟩
  · rw [hfree, howned]
    simp only [not_or, ne_eq]
  · rw [hb] at h
    split at h
    · exact ⟨slot, hlt, (Option.some.inj h).symm⟩
    · obtain ⟨n, hn, hbase⟩ := ha.slot_of_base f base h
      exact ⟨n, by omega, hbase⟩
  · rw [hb] at hf hg
    split at hf <;> split at hg
    · next h1 h2 => rw [← h1, ← h2]
    · next h1 h2 => exact absurd (hg.trans hf.symm) (hother g)
    · next h1 h2 => exact absurd (hf.trans hg.symm) (hother f)
    · exact ha.distinct f g base hf hg
  · exact (howned n).mpr (htop n hn)

/-- **Reserving keeps layers tidy** as long as fewer than `capacity` files own a slot. -/
theorem Tidy.reserve {a b : Layers} (ha : a.Tidy) (hpolicy : a.policy = .stable) {file : FileId}
    {r : Reservation} (h : a.reserve file = .ok (r, b))
    (hroom : a.stableBase? file = none → a.bases.size < capacity) : b.Tidy := by
  have hb := stableBase?_reserve hpolicy h
  rcases reserve_cases hpolicy file with ⟨base, -, hr⟩ | ⟨hnew, hr⟩ <;> rw [hr] at h <;> cases h
  · exact ha
  · have hbound := ha.bound
    rcases a.takeSlot_cases with ⟨slot, hslot, htake⟩ | ⟨hfull, htake⟩ <;> rw [htake] at hb ⊢
    · have hfree := (ha.free_iff slot).mp hslot
      refine ha.own hnew hb hfree.2 hfree.1 hbound (Nat.le_refl _) (fun n => ?_) fun n hn =>
        Or.inr (ha.top_owned n hn)
      rw [OrderedMap.contains_erase, ha.free_iff]
      constructor
      · rintro ⟨hne, hlt, hn⟩
        exact ⟨hlt, Ne.symm hne, hn⟩
      · rintro ⟨hlt, hne, hn⟩
        exact ⟨Ne.symm hne, hlt, hn⟩
    · have hnext := ha.nextSlot_le_of_full hfull
      have hlimit : min (a.nextSlot + 1) limit = a.nextSlot + 1 := by
        have hl : limit = 4294967295 := rfl
        unfold capacity at hbound
        omega
      have hroom := hroom hnew
      rw [hlimit] at hb ⊢
      refine ha.own hnew hb (fun hn => ?_) (Nat.lt_succ_self _) (by simp only; omega)
        (Nat.le_succ _) (fun n => ?_) fun n hn => Or.inl (Nat.succ.inj hn).symm
      · exact absurd (ha.lt_of_owned hn) (Nat.lt_irrefl _)
      · rw [hfull n]
        simp only [Bool.false_eq_true, false_iff]
        rintro ⟨hlt, hne, hn⟩
        -- every slot below the old top is owned, since none is free
        exact hn (ha.owned_iff.mpr ⟨by omega, hfull n⟩)

/-! ## Settling -/

/-- The greater of two numbers of 32 bits is their supremum. -/
instance : Std.LawfulOrderLeftLeaningMax UInt32 where
  max_eq_left a b h := by
    change (if a ≤ b then b else a) = a
    split
    · next hle => exact UInt32.le_antisymm h hle
    · rfl
  max_eq_right a b h := by
    change (if a ≤ b then b else a) = b
    rw [if_pos (UInt32.le_of_lt (UInt32.not_le.mp h))]

theorem counter_le_settle (a : Layers) (nextLayer : UInt32) :
    a.counter ≤ (a.settle nextLayer).counter := Std.left_le_max

theorem le_counter_settle (a : Layers) (nextLayer : UInt32) :
    nextLayer ≤ (a.settle nextLayer).counter := Std.right_le_max

theorem toNat_max (m n : UInt32) : (max m n).toNat = max m.toNat n.toNat := by
  show (if m ≤ n then n else m).toNat = _
  split <;> next h => rw [UInt32.le_iff_toNat_le] at h; omega

/-- Bounds may be settled in either order. -/
theorem settle_comm (a : Layers) (nextLayer nextLayer' : UInt32) :
    (a.settle nextLayer).settle nextLayer' = (a.settle nextLayer').settle nextLayer := by
  have hmax : max (max a.counter nextLayer) nextLayer' =
      max (max a.counter nextLayer') nextLayer := by
    apply UInt32.toNat.inj
    simp only [toNat_max]
    omega
  unfold settle
  simp only [hmax]

theorem Tidy.settle {a : Layers} (ha : a.Tidy) (nextLayer : UInt32) : (a.settle nextLayer).Tidy :=
  ⟨ha.bound, ha.free_iff, ha.slot_of_base, ha.distinct, ha.top_owned⟩

/-- Under the stable policy a bound that is not above the counter changes nothing. -/
theorem settle_of_le {a : Layers} (hpolicy : a.policy = .stable) {nextLayer : UInt32}
    (h : nextLayer ≤ a.counter) : a.settle nextLayer = a := by
  have hne : (a.policy != .monotonic) = true := by rw [hpolicy]; rfl
  have hmax : max a.counter nextLayer = a.counter :=
    Std.LawfulOrderLeftLeaningMax.max_eq_left _ _ h
  unfold settle
  rw [hne, Bool.and_true, hmax]

/-- Under the stable policy a settled bound has no part in what is reserved. -/
theorem reserve_settle {a b : Layers} (hpolicy : a.policy = .stable) {file : FileId}
    {r : Reservation} (h : a.reserve file = .ok (r, b)) (nextLayer : UInt32) :
    (a.settle nextLayer).reserve file = .ok (r, b.settle nextLayer) := by
  rcases reserve_cases hpolicy file with ⟨base, hbase, hr⟩ | ⟨hnew, hr⟩ <;> rw [hr] at h <;> cases h
  · rcases reserve_cases (a := a.settle nextLayer) hpolicy file with ⟨_, hbase', hr'⟩ | ⟨hnew', -⟩
    · cases hbase.symm.trans hbase'
      exact hr'
    · cases hbase.symm.trans hnew'
  · rcases reserve_cases (a := a.settle nextLayer) hpolicy file with ⟨_, hbase', -⟩ | ⟨-, hr'⟩
    · cases hnew.symm.trans hbase'
    · have htake : (a.settle nextLayer).takeSlot =
          (a.takeSlot.1, a.takeSlot.2.settle nextLayer) := by
        unfold takeSlot settle
        cases a.freeSlots.minKey? <;> rfl
      rw [hr', htake]
      rfl

theorem release_of_monotonic {a : Layers} (hpolicy : a.policy = .monotonic) (r : Reservation) :
    a.release r = { a with outstanding := false } := by
  unfold release
  split
  · rfl
  · next hstable => rw [hpolicy] at hstable; cases hstable

theorem release_of_fresh {a : Layers} (hpolicy : a.policy = .stable) {r : Reservation}
    (hfresh : r.fresh = true) :
    a.release r = { a with
      bases := a.bases.erase r.file
      nextSlot := (trimSlots a.nextSlot (a.freeSlots.insert (slotOf r.base) ())).1
      freeSlots := (trimSlots a.nextSlot (a.freeSlots.insert (slotOf r.base) ())).2 } := by
  unfold release
  rw [hpolicy, hfresh]
  rfl

theorem release_of_not_fresh {a : Layers} (hpolicy : a.policy = .stable) {r : Reservation}
    (hfresh : r.fresh = false) : a.release r = a := by
  unfold release
  rw [hpolicy, hfresh]
  rfl

theorem stableBase?_release {a : Layers} (hpolicy : a.policy = .stable) (r : Reservation)
    (other : FileId) : (a.release r).stableBase? other =
      if r.fresh = true ∧ r.file = other then none else a.stableBase? other := by
  cases hfresh : r.fresh with
  | false => rw [release_of_not_fresh hpolicy hfresh]; simp
  | true =>
    rw [release_of_fresh hpolicy hfresh]
    unfold stableBase?
    rw [OrderedMap.find?_erase]
    simp

/-- Releasing gives no file a base. -/
theorem stableBase?_of_release {a : Layers} {r : Reservation} {file : FileId} {base : UInt32}
    (h : (a.release r).stableBase? file = some base) : a.stableBase? file = some base := by
  cases hpolicy : a.policy with
  | monotonic =>
    rw [release_of_monotonic hpolicy] at h
    exact h
  | stable =>
    rw [stableBase?_release hpolicy] at h
    split at h
    · cases h
    · exact h

theorem policy_release (a : Layers) (r : Reservation) : (a.release r).policy = a.policy := by
  unfold release
  split
  · rfl
  · split <;> rfl

theorem counter_release (a : Layers) (r : Reservation) : (a.release r).counter = a.counter := by
  unfold release
  split
  · rfl
  · split <;> rfl

theorem outstanding_release {a : Layers} (hpolicy : a.policy = .stable) (r : Reservation) :
    (a.release r).outstanding = a.outstanding := by
  cases hfresh : r.fresh with
  | false => rw [release_of_not_fresh hpolicy hfresh]
  | true => rw [release_of_fresh hpolicy hfresh]

/-- **Releasing keeps layers tidy**, whatever slot the reservation took. -/
theorem Tidy.release {a : Layers} (ha : a.Tidy) (hpolicy : a.policy = .stable) {r : Reservation}
    (hbase : a.stableBase? r.file = some r.base) : (a.release r).Tidy := by
  cases hfresh : r.fresh with
  | false => rw [release_of_not_fresh hpolicy hfresh]; exact ha
  | true =>
    have hb := a.stableBase?_release hpolicy r
    rw [release_of_fresh hpolicy hfresh] at hb ⊢
    obtain ⟨slot, hslot, hslotBase⟩ := ha.slot_of_base r.file r.base hbase
    have hbound := ha.bound
    rw [hslotBase, slotOf_slotBase (by omega)] at hb ⊢
    obtain ⟨hle, hgiven, htop, hkept⟩ := trimSlots_spec a.nextSlot (a.freeSlots.insert slot ())
    set b : Layers := { a with
      bases := a.bases.erase r.file
      nextSlot := (trimSlots a.nextSlot (a.freeSlots.insert slot ())).1
      freeSlots := (trimSlots a.nextSlot (a.freeSlots.insert slot ())).2 }
    have howned : ∀ n, b.Owned n ↔ a.Owned n ∧ n ≠ slot := fun n => by
      unfold Owned
      simp only [hb, hfresh, true_and]
      constructor
      · rintro ⟨other, hother⟩
        split at hother
        · cases hother
        · next hne =>
          refine ⟨⟨other, hother⟩, fun hn => hne ?_⟩
          exact ha.distinct _ _ _ hbase (by rw [hother, hn, hslotBase])
      · rintro ⟨⟨other, hother⟩, hne⟩
        refine ⟨other, ?_⟩
        rw [if_neg fun heq => hne ?_, hother]
        rw [← heq, hbase, hslotBase] at hother
        exact slotBase_inj (by omega) (Option.some.inj hother).symm
    -- before the top is trimmed, the free slots are again those that nobody owns
    have hfree : ∀ n, (a.freeSlots.insert slot ()).contains n = true ↔
        n < a.nextSlot ∧ ¬ b.Owned n := fun n => by
      rw [OrderedMap.contains_insert, ha.free_iff, howned]
      by_cases hn : n = slot
      · simp [hn, hslot]
      · simp [hn, Ne.symm hn]
    have hlt : ∀ n, b.Owned n → n < b.nextSlot := fun n hn => by
      by_contra hge
      have hn' := ((howned n).mp hn).1
      exact ((hfree n).mp (hgiven n (by simpa using hge) (ha.lt_of_owned hn'))).2 hn
    refine ⟨Nat.le_trans hle hbound, fun n => ?_, fun f base h => ?_, fun f g base hf hg => ?_,
      fun n hn => ?_⟩
    · rw [hkept, hfree]
      constructor
      · rintro ⟨⟨h1, h2⟩, h3⟩
        exact ⟨Nat.lt_of_not_le fun hge => h3 ⟨hge, h1⟩, h2⟩
      · rintro ⟨h1, h2⟩
        refine ⟨⟨Nat.lt_of_lt_of_le h1 hle, h2⟩, fun h3 => ?_⟩
        exact absurd h1 (Nat.not_lt.mpr h3.1)
    · rw [hb] at h
      split at h
      · cases h
      · obtain ⟨n, hn, rfl⟩ := ha.slot_of_base f base h
        refine ⟨n, hlt n ⟨f, ?_⟩, rfl⟩
        rw [hb, if_neg (by assumption), h]
    · rw [hb] at hf hg
      split at hf
      · cases hf
      · split at hg
        · cases hg
        · exact ha.distinct f g base hf hg
    · have hn' := htop n hn
      by_contra hnot
      have hlt' : n < a.nextSlot := by simp only [b] at hn; omega
      rw [(hfree n).mpr ⟨hlt', hnot⟩] at hn'
      cases hn'

/-- **Releasing a reservation just made restores tidy layers.** -/
theorem release_reserve {a b : Layers} (ha : a.Tidy) (hpolicy : a.policy = .stable)
    {file : FileId} {r : Reservation} (h : a.reserve file = .ok (r, b))
    (hroom : a.stableBase? file = none → a.bases.size < capacity) : b.release r = a := by
  have hbtidy := ha.reserve hpolicy h hroom
  have hbase := stableBase?_reserve hpolicy h r.file
  rw [reserve_file h, if_pos rfl, ← reserve_file h] at hbase
  rcases reserve_cases hpolicy file with ⟨base, -, hr⟩ | ⟨hnew, hr⟩
  · rw [hr] at h
    cases h
    exact release_of_not_fresh hpolicy rfl
  · have hbpolicy := (policy_reserve h).trans hpolicy
    have htidy := hbtidy.release hbpolicy hbase
    have hbases : (b.release r).bases = a.bases := by
      rw [hr] at h
      cases h
      rw [release_of_fresh hbpolicy rfl]
      simp only
      rw [bases_takeSlot]
      exact OrderedMap.erase_insert _ hnew
    obtain ⟨hnext, hfree⟩ := htidy.eq_of_bases ha hbases
    have hrest : (b.release r).policy = a.policy ∧ (b.release r).counter = a.counter ∧
        (b.release r).outstanding = a.outstanding := by
      rw [hr] at h
      cases h
      rw [release_of_fresh hbpolicy rfl]
      rcases a.takeSlot_cases with ⟨slot, -, htake⟩ | ⟨-, htake⟩ <;> rw [htake] <;>
        exact ⟨rfl, rfl, rfl⟩
    cases hc : b.release r
    cases a
    simp_all

/-! ## Layers without a reservation -/

/-- No monotonic reservation is unsettled, and stable slots are tidy. -/
def Settled (a : Layers) : Prop :=
  match a.policy with
  | .monotonic => a.outstanding = false
  | .stable => a.Tidy

theorem settled_new (policy : Layering) : (Layers.new policy).Settled := by
  cases policy with
  | monotonic => rfl
  | stable => exact tidy_new .stable

theorem settled_iff_of_monotonic {a : Layers} (hpolicy : a.policy = .monotonic) :
    a.Settled ↔ a.outstanding = false := by
  unfold Settled
  rw [hpolicy]

theorem settled_iff_of_stable {a : Layers} (hpolicy : a.policy = .stable) :
    a.Settled ↔ a.Tidy := by
  unfold Settled
  rw [hpolicy]

/-- A reservation starts at the base that the file would be transformed with. -/
theorem base_of_reserve {a b : Layers} {file : FileId} {r : Reservation}
    (h : a.reserve file = .ok (r, b)) : r.base = (a.baseFor file).1 := by
  unfold baseFor pin
  rcases reserve_eq_ok h with ⟨hpolicy, -, rfl, -⟩ | ⟨hpolicy, base, hbase, rfl, -⟩ |
    ⟨hpolicy, hnew, rfl, -⟩
  · rw [hpolicy]
  · rw [hpolicy, hbase]
  · rw [hpolicy, hnew]

/-- **A reservation that is made and released leaves no trace**, under either policy. -/
theorem Settled.reserve_release {a : Layers} (ha : a.Settled) (hroom : a.bases.size < capacity)
    (file : FileId) : ∃ r b, a.reserve file = .ok (r, b) ∧ b.release r = a := by
  cases hpolicy : a.policy with
  | monotonic =>
    rw [settled_iff_of_monotonic hpolicy] at ha
    rcases reserve_cases_monotonic hpolicy file with ⟨hout, -⟩ | ⟨-, hr⟩
    · rw [ha] at hout
      cases hout
    · have hb := release_of_monotonic (a := { a with outstanding := true }) hpolicy
        ⟨file, a.counter, false⟩
      refine ⟨_, _, hr, hb.trans ?_⟩
      simp only [← ha]
  | stable =>
    rw [settled_iff_of_stable hpolicy] at ha
    obtain ⟨r, b, hr⟩ := reserve_of_stable hpolicy file
    exact ⟨r, b, hr, release_reserve ha hpolicy hr fun _ => hroom⟩

end LayeredCss.Layers

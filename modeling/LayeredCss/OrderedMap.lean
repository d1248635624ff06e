/-!
# Finite maps in key order

A map is the list of its entries in strictly increasing key order.  The order is part of the type,
so two maps that answer every look-up alike are equal, whatever the order of the insertions and
removals that built them:

* `OrderedMap.find?_insert`, `OrderedMap.find?_erase`: what an update does to a look-up;
* `OrderedMap.ext_find?`: look-ups determine the map;
* `OrderedMap.erase_insert`: taking out a key that was new restores the map.

A set is a map into `Unit`.
-/

namespace LayeredCss

/-- Entries in strictly increasing order of their keys. -/
structure OrderedMap (κ : Type) [LT κ] (α : Type) where
  entries : List (κ × α)
  increasing : entries.Pairwise (fun a b => a.1 < b.1)

/-- A set of keys in increasing order. -/
abbrev OrderedSet (κ : Type) [LT κ] := OrderedMap κ Unit

namespace OrderedMap

section Entries

variable {κ α : Type} [DecidableEq κ]

/-- The value listed under a key. -/
def findEntry (k : κ) : List (κ × α) → Option α
  | [] => none
  | (j, b) :: rest => if j = k then some b else findEntry k rest

theorem findEntry_eq_none {k : κ} {es : List (κ × α)} (h : ∀ e ∈ es, e.1 ≠ k) :
    findEntry k es = none := by
  induction es with
  | nil => rfl
  | cons d rest ih =>
    simp [findEntry, h d List.mem_cons_self, ih fun e he => h e (List.mem_cons_of_mem _ he)]

theorem findEntry_filter (k : κ) (es : List (κ × α)) (j : κ) :
    findEntry j (es.filter (fun e => !decide (e.1 = k))) =
      if k = j then none else findEntry j es := by
  induction es with
  | nil => simp [findEntry]
  | cons d rest ih =>
    by_cases hd : d.1 = k
    · rw [List.filter_cons_of_neg (by simp [hd]), ih]
      by_cases hkj : k = j
      · simp [hkj]
      · simp [findEntry, hd, hkj]
    · rw [List.filter_cons_of_pos (by simp [hd])]
      by_cases hdj : d.1 = j
      · subst hdj; simp [findEntry, Ne.symm hd]
      · simp [findEntry, hdj, ih]

theorem isSome_findEntry {k : κ} {es : List (κ × α)} :
    (findEntry k es).isSome ↔ k ∈ es.map (·.1) := by
  induction es with
  | nil => simp [findEntry]
  | cons d rest ih =>
    by_cases hd : d.1 = k
    · simp [findEntry, hd]
    · simp [findEntry, hd, ih, Ne.symm hd]

theorem mem_of_findEntry {k : κ} {a : α} {es : List (κ × α)} (h : findEntry k es = some a) :
    (k, a) ∈ es := by
  induction es with
  | nil => simp [findEntry] at h
  | cons d rest ih =>
    obtain ⟨j, b⟩ := d
    unfold findEntry at h
    split at h
    · next hj => cases h; subst hj; exact List.mem_cons_self
    · exact List.mem_cons_of_mem _ (ih h)

/-- Under keys that differ each entry is found by its key. -/
theorem findEntry_eq_some_iff {es : List (κ × α)} (h : (es.map (·.1)).Nodup) {k : κ} {a : α} :
    findEntry k es = some a ↔ (k, a) ∈ es := by
  refine ⟨mem_of_findEntry, fun hmem => ?_⟩
  induction es with
  | nil => cases hmem
  | cons d rest ih =>
    rw [List.map_cons, List.nodup_cons] at h
    rcases List.mem_cons.mp hmem with rfl | hmem
    · exact if_pos rfl
    · have hne : d.1 ≠ k := fun heq => h.1 (heq ▸ List.mem_map.mpr ⟨(k, a), hmem, rfl⟩)
      exact (if_neg hne).trans (ih h.2 hmem)

variable [LT κ] [DecidableLT κ]

/-- Puts an entry at its place, over the entry of the same key if there is one. -/
def insertEntry (k : κ) (a : α) : List (κ × α) → List (κ × α)
  | [] => [(k, a)]
  | (j, b) :: rest =>
    if k < j then (k, a) :: (j, b) :: rest
    else if k = j then (k, a) :: rest
    else (j, b) :: insertEntry k a rest

theorem mem_insertEntry {k : κ} {a : α} {es : List (κ × α)} {e : κ × α}
    (h : e ∈ insertEntry k a es) : e = (k, a) ∨ e ∈ es := by
  induction es with
  | nil => simpa [insertEntry] using h
  | cons d rest ih =>
    obtain ⟨j, b⟩ := d
    unfold insertEntry at h
    split at h
    · simpa using h
    · split at h
      · rcases List.mem_cons.mp h with h | h
        · exact .inl h
        · exact .inr (List.mem_cons_of_mem _ h)
      · rcases List.mem_cons.mp h with h | h
        · exact .inr (h ▸ List.mem_cons_self)
        · exact (ih h).imp id (List.mem_cons_of_mem _)

theorem findEntry_insertEntry (k : κ) (a : α) (es : List (κ × α)) (j : κ) :
    findEntry j (insertEntry k a es) = if k = j then some a else findEntry j es := by
  induction es with
  | nil => rfl
  | cons d rest ih =>
    obtain ⟨i, b⟩ := d
    unfold insertEntry
    split
    · rfl
    · split
      · next hki => subst hki; by_cases h : k = j <;> simp [findEntry, h]
      · next hki =>
        by_cases hij : i = j
        · subst hij; simp [findEntry, hki]
        · simp [findEntry, hij, ih]

theorem length_insertEntry {k : κ} (a : α) {es : List (κ × α)} (h : findEntry k es = none) :
    (insertEntry k a es).length = es.length + 1 := by
  induction es with
  | nil => rfl
  | cons d rest ih =>
    obtain ⟨j, b⟩ := d
    unfold findEntry at h
    unfold insertEntry
    split at h
    · cases h
    · next hne =>
      split
      · rfl
      · rw [if_neg (Ne.symm hne), List.length_cons, ih h, List.length_cons]

variable [Trans (α := κ) (· < ·) (· < ·) (· < ·)] [Std.Trichotomous (α := κ) (· < ·)]

theorem insertEntry_increasing (k : κ) (a : α) {es : List (κ × α)}
    (h : es.Pairwise (fun a b => a.1 < b.1)) :
    (insertEntry k a es).Pairwise (fun a b => a.1 < b.1) := by
  induction es with
  | nil => simp [insertEntry]
  | cons d rest ih =>
    obtain ⟨j, b⟩ := d
    obtain ⟨hj, hrest⟩ := List.pairwise_cons.mp h
    unfold insertEntry
    split
    · next hkj =>
      refine List.pairwise_cons.mpr ⟨fun e he => ?_, h⟩
      rcases List.mem_cons.mp he with rfl | he
      · exact hkj
      · exact Trans.trans hkj (hj e he)
    · split
      · next hkj => subst hkj; exact List.pairwise_cons.mpr ⟨hj, hrest⟩
      · next hlt hne =>
        refine List.pairwise_cons.mpr ⟨fun e he => ?_, ih hrest⟩
        rcases mem_insertEntry he with rfl | he
        · exact Classical.byContradiction fun hjk =>
            hne (Std.Trichotomous.trichotomous (r := (· < ·)) k j hlt hjk)
        · exact hj e he

variable [Std.Irrefl (α := κ) (· < ·)]

omit [DecidableLT κ] in
theorem eq_of_findEntry {es ds : List (κ × α)} (he : es.Pairwise (fun a b => a.1 < b.1))
    (hd : ds.Pairwise (fun a b => a.1 < b.1)) (h : ∀ k, findEntry k es = findEntry k ds) :
    es = ds := by
  have irrefl : ∀ k : κ, ¬k < k := Std.Irrefl.irrefl
  induction es generalizing ds with
  | nil =>
    cases ds with
    | nil => rfl
    | cons d rest => have := h d.1; simp [findEntry] at this
  | cons e es ih =>
    cases ds with
    | nil => have := h e.1; simp [findEntry] at this
    | cons d ds =>
      obtain ⟨he1, he2⟩ := List.pairwise_cons.mp he
      obtain ⟨hd1, hd2⟩ := List.pairwise_cons.mp hd
      obtain ⟨i, a⟩ := e
      obtain ⟨j, b⟩ := d
      have hnone : ∀ {k : κ} (xs : List (κ × α)), (∀ x ∈ xs, k < x.1) →
          findEntry k xs = none := fun {k} xs hx =>
        findEntry_eq_none fun x hm hk => irrefl k (by simpa [hk] using hx x hm)
      have hij : i = j := by
        refine Std.Trichotomous.trichotomous (r := (· < ·)) i j (fun hlt => ?_) fun hlt => ?_
        · have hh := h i
          rw [hnone ((j, b) :: ds) fun x hx => by
            rcases List.mem_cons.mp hx with rfl | hx
            · exact hlt
            · exact Trans.trans hlt (hd1 x hx)] at hh
          simp [findEntry] at hh
        · have hh := h j
          rw [hnone ((i, a) :: es) fun x hx => by
            rcases List.mem_cons.mp hx with rfl | hx
            · exact hlt
            · exact Trans.trans hlt (he1 x hx)] at hh
          simp [findEntry] at hh
      subst hij
      have hab : a = b := by have := h i; simpa [findEntry] using this
      subst hab
      congr 1
      refine ih he2 hd2 fun k => ?_
      by_cases hk : i = k
      · subst hk; rw [hnone es he1, hnone ds hd1]
      · simpa [findEntry, hk] using h k

end Entries

/-! ## Operations -/

variable {κ α : Type} [LT κ]

@[ext] theorem ext_entries {m n : OrderedMap κ α} (h : m.entries = n.entries) : m = n := by
  cases m; cases n; cases h; rfl

/-- The map without entries. -/
def empty : OrderedMap κ α := ⟨[], .nil⟩

instance : Inhabited (OrderedMap κ α) := ⟨empty⟩

instance : EmptyCollection (OrderedMap κ α) := ⟨empty⟩

instance [DecidableEq κ] [DecidableEq α] : DecidableEq (OrderedMap κ α) := fun m n =>
  if h : m.entries = n.entries then .isTrue (ext_entries h)
  else .isFalse fun hmn => h (hmn ▸ rfl)

/-- The keys in increasing order. -/
def keys (m : OrderedMap κ α) : List κ := m.entries.map (·.1)

/-- The values in the order of their keys. -/
def values (m : OrderedMap κ α) : List α := m.entries.map (·.2)

/-- The number of keys. -/
def size (m : OrderedMap κ α) : Nat := m.entries.length

theorem length_keys (m : OrderedMap κ α) : m.keys.length = m.size := List.length_map _

theorem length_values (m : OrderedMap κ α) : m.values.length = m.size := List.length_map _

/-- The least key. -/
def minKey? (m : OrderedMap κ α) : Option κ := m.entries.head?.map (·.1)

variable [DecidableEq κ]

/-- The value of a key. -/
def find? (m : OrderedMap κ α) (k : κ) : Option α := findEntry k m.entries

/-- Whether a key has a value. -/
def contains (m : OrderedMap κ α) (k : κ) : Bool := (m.find? k).isSome

/-- Removes a key and its value. -/
def erase (m : OrderedMap κ α) (k : κ) : OrderedMap κ α :=
  ⟨m.entries.filter (fun e => !decide (e.1 = k)), m.increasing.filter _⟩

theorem find?_empty (k : κ) : (empty : OrderedMap κ α).find? k = none := rfl

theorem find?_erase (m : OrderedMap κ α) (k j : κ) :
    (m.erase k).find? j = if k = j then none else m.find? j :=
  findEntry_filter k m.entries j

theorem contains_erase {m : OrderedMap κ α} {k j : κ} :
    (m.erase k).contains j = true ↔ k ≠ j ∧ m.contains j = true := by
  unfold contains
  rw [find?_erase]
  by_cases h : k = j <;> simp [h]

theorem mem_keys {m : OrderedMap κ α} {k : κ} : k ∈ m.keys ↔ (m.find? k).isSome :=
  isSome_findEntry.symm

theorem mem_values {m : OrderedMap κ α} {k : κ} {a : α} (h : m.find? k = some a) : a ∈ m.values :=
  List.mem_map.mpr ⟨(k, a), mem_of_findEntry h, rfl⟩

theorem contains_of_minKey? {m : OrderedMap κ α} {k : κ}
    (h : m.minKey? = some k) : m.contains k = true := by
  obtain ⟨e, he, rfl⟩ := Option.map_eq_some_iff.mp h
  exact mem_keys.mp (List.mem_map.mpr ⟨e, List.mem_of_head? he, rfl⟩)

theorem contains_of_minKey?_eq_none {m : OrderedMap κ α} (h : m.minKey? = none) (k : κ) :
    m.contains k = false := by
  have hnil : m.entries = [] := by simpa [minKey?] using h
  simp [contains, find?, hnil, findEntry]

variable [DecidableLT κ] [Trans (α := κ) (· < ·) (· < ·) (· < ·)]
  [Std.Trichotomous (α := κ) (· < ·)]

/-- Gives a key a value, in place of the one it had. -/
def insert (m : OrderedMap κ α) (k : κ) (a : α) : OrderedMap κ α :=
  ⟨insertEntry k a m.entries, insertEntry_increasing k a m.increasing⟩

theorem find?_insert (m : OrderedMap κ α) (k : κ) (a : α) (j : κ) :
    (m.insert k a).find? j = if k = j then some a else m.find? j :=
  findEntry_insertEntry k a m.entries j

theorem size_insert {m : OrderedMap κ α} {k : κ} (a : α) (h : m.find? k = none) :
    (m.insert k a).size = m.size + 1 :=
  length_insertEntry a h

theorem contains_insert {m : OrderedMap κ α} {k j : κ} {a : α} :
    (m.insert k a).contains j = true ↔ k = j ∨ m.contains j = true := by
  unfold contains
  rw [find?_insert]
  by_cases h : k = j <;> simp [h]

variable [Std.Irrefl (α := κ) (· < ·)]

omit [DecidableLT κ] in
/-- Maps with the same look-ups are equal. -/
theorem ext_find? {m n : OrderedMap κ α} (h : ∀ k, m.find? k = n.find? k) : m = n :=
  ext_entries (eq_of_findEntry m.increasing n.increasing h)

/-- Giving a key the value that it has changes nothing. -/
theorem insert_of_find? {m : OrderedMap κ α} {k : κ} {a : α} (h : m.find? k = some a) :
    m.insert k a = m :=
  ext_find? fun j => by
    rw [find?_insert]
    by_cases hj : k = j
    · rw [if_pos hj, ← hj, h]
    · rw [if_neg hj]

/-- Removing a key that was new takes the insertion back. -/
theorem erase_insert {m : OrderedMap κ α} {k : κ} (a : α) (h : m.find? k = none) :
    (m.insert k a).erase k = m :=
  ext_find? fun j => by
    rw [find?_erase, find?_insert]
    by_cases hj : k = j
    · subst hj; simp [h]
    · simp [hj]

omit [DecidableEq κ] [DecidableLT κ] [Trans (α := κ) (· < ·) (· < ·) (· < ·)]
  [Std.Trichotomous (α := κ) (· < ·)] in
theorem nodup_keys (m : OrderedMap κ α) : m.keys.Nodup := by
  refine List.pairwise_map.mpr (m.increasing.imp fun {d e} h heq => ?_)
  exact Std.Irrefl.irrefl (r := (· < ·)) e.1 (heq ▸ h)

omit [DecidableLT κ] [Std.Trichotomous (α := κ) (· < ·)] in
/-- No key lies below the least one. -/
theorem not_lt_of_minKey? {m : OrderedMap κ α} {k j : κ} (h : m.minKey? = some k)
    (hj : m.contains j = true) : ¬ j < k := by
  intro hlt
  have hirrefl : ¬ k < k := Std.Irrefl.irrefl (r := (· < ·)) k
  obtain ⟨e, he, rfl⟩ := Option.map_eq_some_iff.mp h
  obtain ⟨rest, hentries⟩ := List.head?_eq_some_iff.mp he
  have hmem : j ∈ m.keys := mem_keys.mpr hj
  have hincreasing := m.increasing
  rw [keys, hentries, List.map_cons] at hmem
  rw [hentries] at hincreasing
  rcases List.mem_cons.mp hmem with rfl | hmem
  · exact hirrefl hlt
  · obtain ⟨d, hd, rfl⟩ := List.mem_map.mp hmem
    exact hirrefl (Trans.trans ((List.pairwise_cons.mp hincreasing).1 d hd) hlt)

omit [DecidableLT κ] in
/-- Sets with the same members are equal. -/
theorem ext_contains {m n : OrderedSet κ} (h : ∀ k, m.contains k = n.contains k) : m = n :=
  ext_find? fun k => by
    have hk := h k
    unfold contains at hk
    cases hm : m.find? k <;> cases hn : n.find? k <;> simp_all

omit [DecidableLT κ] in
theorem erase_comm (m : OrderedMap κ α) (k j : κ) : (m.erase k).erase j = (m.erase j).erase k :=
  ext_find? fun i => by
    simp only [find?_erase]
    split <;> split <;> rfl

theorem insert_comm (m : OrderedMap κ α) {k j : κ} (a b : α) (h : k ≠ j) :
    (m.insert k a).insert j b = (m.insert j b).insert k a :=
  ext_find? fun i => by
    simp only [find?_insert]
    by_cases hj : j = i
    · have hk : k ≠ i := hj ▸ h
      simp [hj, hk]
    · simp [hj]

theorem erase_insert_comm (m : OrderedMap κ α) {k j : κ} (a : α) (h : k ≠ j) :
    (m.insert k a).erase j = (m.erase j).insert k a :=
  ext_find? fun i => by
    simp only [find?_erase, find?_insert]
    by_cases hj : j = i
    · have hk : k ≠ i := hj ▸ h
      simp [hj, hk]
    · simp [hj]

end OrderedMap

end LayeredCss

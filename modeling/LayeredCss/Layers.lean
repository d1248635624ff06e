import LayeredCss.Failure
import LayeredCss.FileId
import LayeredCss.Lifecycle
import LayeredCss.Traced

/-!
# Layers

A rule is ordered by its layer, and a file gets a base above which its layers lie.  A base is
reserved before the transform and settled after it: committed if the transform succeeded, released
if it failed.

Under the monotonic policy the base is a counter, and one reservation at a time may read it.  Under
the stable policy a file owns a slot of layers; slots that failed first transforms gave back are
owned again before new ones.

* `Layers.reserve`, `Layers.commit`, `Layers.release`;
* `Layers.baseFor`: a base outside of any reservation.
-/

namespace LayeredCss

/-- A base that has been given out and awaits to be committed or released. -/
structure Reservation where
  file : FileId
  base : UInt32
  /-- Whether the file has come to own its slot through this reservation. -/
  fresh : Bool
  deriving DecidableEq, Repr

structure Layers where
  policy : Layering
  /-- The highest layer bound that a commit has reported. -/
  counter : UInt32
  /-- One past the highest slot that is or has been owned. -/
  nextSlot : Nat
  /-- The slots below `nextSlot` that have been given back. -/
  freeSlots : OrderedSet Nat
  /-- The bases of the files that own a slot. -/
  bases : OrderedMap FileId UInt32
  /-- Whether a monotonic reservation is unsettled. -/
  outstanding : Bool
  deriving DecidableEq

namespace Layers

/-- The number of layers in a slot. -/
def slotWidth : Nat := 1000

/-- The greatest number of 32 bits, at which slots and bases stop growing. -/
def limit : Nat := UInt32.size - 1

/-- Layers of which nothing has been taken. -/
def new (policy : Layering) : Layers := ⟨policy, 0, 0, .empty, .empty, false⟩

/-- The first layer of a slot. -/
def slotBase (slot : Nat) : UInt32 := UInt32.ofNat (min (slot * slotWidth) limit)

/-- The slot that a base lies in. -/
def slotOf (base : UInt32) : Nat := base.toNat / slotWidth

/-- The base of a file that owns a slot. -/
def stableBase? (a : Layers) (file : FileId) : Option UInt32 := a.bases.find? file

/-- Takes the least slot that is free, or else a new one. -/
def takeSlot (a : Layers) : Nat × Layers :=
  match a.freeSlots.minKey? with
  | some slot => (slot, { a with freeSlots := a.freeSlots.erase slot })
  | none => (a.nextSlot, { a with nextSlot := min (a.nextSlot + 1) limit })

/-- The base of the slot of a file, and whether the file has come to own it just now. -/
def pin (a : Layers) (file : FileId) : (UInt32 × Bool) × Layers :=
  match a.stableBase? file with
  | some base => ((base, false), a)
  | none =>
    let (slot, a) := a.takeSlot
    let base := slotBase slot
    ((base, true), { a with bases := a.bases.insert file base })

/-- The base that a file would be transformed with; under the stable policy the file owns the slot
from now on. -/
def baseFor (a : Layers) (file : FileId) : UInt32 × Layers :=
  match a.policy with
  | .monotonic => (a.counter, a)
  | .stable =>
    let ((base, _), a) := a.pin file
    (base, a)

/-- Reserves a base for a file.  Under the monotonic policy this is refused while another
reservation is unsettled, since both would start at the same layer. -/
def reserve (a : Layers) (file : FileId) : Except Failure (Reservation × Layers) :=
  match a.policy with
  | .monotonic =>
    if a.outstanding then
      .error (.ofText s!"layer counter is already reserved; cannot reserve for {file}")
    else .ok (⟨file, a.counter, false⟩, { a with outstanding := true })
  | .stable =>
    let ((base, fresh), a) := a.pin file
    .ok (⟨file, base, fresh⟩, a)

/-- What a commit does to the layers. -/
def settle (a : Layers) (nextLayer : UInt32) : Layers :=
  { a with
    outstanding := a.outstanding && a.policy != .monotonic
    counter := max a.counter nextLayer }

/-- Settles the reservation of a successful transform, which has used the layers from the base up
to `nextLayer`.  Bounds below the base and beyond the slot are logged and taken as they are. -/
def commit (a : Layers) (r : Reservation) (nextLayer : UInt32) : Traced Layers := do
  let file := r.file
  let base := r.base
  let used := nextLayer.toNat - base.toNat
  if nextLayer < base then
    Traced.warn
      s!"[strata] {file}: transform reported next layer {nextLayer} below its base {base}"
  if a.policy = .stable ∧ slotWidth < used then
    Traced.warn s!"[strata] {file}: {used} layers overrun the {slotWidth}-wide slot at {base}"
  return a.settle nextLayer

/-- Gives up the slots at the top that nobody owns. -/
def trimSlots : Nat → OrderedSet Nat → Nat × OrderedSet Nat
  | 0, free => (0, free)
  | top + 1, free =>
    if free.contains top then trimSlots top (free.erase top) else (top + 1, free)

/-- Settles the reservation of a failed transform: what it took is given back. -/
def release (a : Layers) (r : Reservation) : Layers :=
  match a.policy with
  | .monotonic => { a with outstanding := false }
  | .stable =>
    if r.fresh then
      let (nextSlot, freeSlots) :=
        trimSlots a.nextSlot (a.freeSlots.insert (slotOf r.base) ())
      { a with bases := a.bases.erase r.file, nextSlot, freeSlots }
    else a

@[simp] theorem value_commit (a : Layers) (r : Reservation) (nextLayer : UInt32) :
    (a.commit r nextLayer).value = a.settle nextLayer := by
  simp only [commit]
  split <;> split <;> rfl

end Layers

end LayeredCss

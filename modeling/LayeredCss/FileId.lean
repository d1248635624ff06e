import LayeredCss.OrderedMap
import LayeredCss.Text.Utf8

/-!
# Identity of source files

A file is known by its path or by the id that the bundler gives it, taken as it stands.  Ids are
ordered by their characters.
-/

namespace LayeredCss

structure FileId where
  name : String
  deriving DecidableEq, Repr, Inhabited

namespace FileId

/-- The id of a path of raw bytes; what is no UTF-8 in it is replaced. -/
def ofBytes (bytes : List UInt8) : FileId := ⟨Utf8.lossy bytes⟩

instance : LT FileId := ⟨fun a b => a.name < b.name⟩

instance : DecidableLT FileId := fun a b => inferInstanceAs (Decidable (a.name < b.name))

instance : Trans (α := FileId) (· < ·) (· < ·) (· < ·) :=
  ⟨fun {_ _ _} h h' => String.lt_trans h h'⟩

instance : Std.Irrefl (α := FileId) (· < ·) := ⟨fun a => String.lt_irrefl a.name⟩

instance : Std.Trichotomous (α := FileId) (· < ·) :=
  ⟨fun ⟨a⟩ ⟨b⟩ h h' => congrArg mk (Std.Trichotomous.trichotomous (r := (· < ·)) a b h h')⟩

instance : ToString FileId := ⟨name⟩

/-- Whether the first id comes before the second or is the same. -/
def le (a b : FileId) : Bool := !decide (b < a)

end FileId

end LayeredCss

import LayeredCss.FileTree
import LayeredCss.Json.Reader

/-!
# Themes

A theme is a table of design tokens that every transform of a session receives.  Nothing here looks
inside it.
-/

namespace LayeredCss

structure Theme where
  value : Json.Value

namespace Theme

/-- The theme without tokens. -/
def empty : Theme := ⟨.object []⟩

instance : Inhabited Theme := ⟨empty⟩

/-- Themes are equal when their values are. -/
instance : BEq Theme := ⟨fun a b => a.value == b.value⟩

/-- The theme that a JSON text writes. -/
def ofJson (text : String) : Except Failure Theme :=
  match Json.parse text with
  | .ok v => .ok ⟨v⟩
  | .error fault => .error ⟨["parsing theme JSON"], .json fault⟩

/-- The theme in a file. -/
def load (tree : FileTree) (path : String) : Except Failure Theme :=
  match tree.readText path with
  | .ok text => ofJson text
  | .error fault => .error ⟨[s!"reading theme {path}"], .file fault⟩

end Theme

end LayeredCss

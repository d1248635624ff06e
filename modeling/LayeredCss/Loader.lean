import LayeredCss.SourcePath

/-!
# Loaders

The loader that a bundler should use for a file, by the extension of its path.  Whatever is not
recognised is plain JavaScript.
-/

namespace LayeredCss

inductive Loader
  | ts | tsx | js | jsx
  deriving DecidableEq, Repr

namespace Loader

/-- The loader for an extension. -/
def ofExtension : Option String → Loader
  | some "tsx" => tsx
  | some "ts" | some "mts" | some "cts" => ts
  | some "jsx" => jsx
  | _ => js

/-- The loader for a path. -/
def ofPath (path : String) : Loader := ofExtension (SourcePath.extension? path)

/-- The name by which bundlers know it. -/
def name : Loader → String
  | ts => "ts"
  | tsx => "tsx"
  | js => "js"
  | jsx => "jsx"

end Loader

end LayeredCss

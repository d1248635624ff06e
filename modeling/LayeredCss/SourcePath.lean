import LayeredCss.Text

/-!
# Paths of source files

A bundler may append a query to the path of a file (`card.tsx?v=3`), and separates names by strokes
or backslashes.  The extension is what follows the last dot of the last name, if it has one.
-/

namespace LayeredCss.SourcePath

/-- The path without its query. -/
def withoutQuery (path : String) : String :=
  String.ofList (Text.beforeFirst '?' path.toList)

/-- The name after the last separator. -/
def lastName (path : List Char) : List Char :=
  Text.afterLast (fun c => c == '/' || c == '\x5c') path

/-- The extension of a path, without its dot and in the case in which it is written. -/
def extension? (path : String) : Option String :=
  (Text.afterLast? (· == '.') (lastName (withoutQuery path).toList)).map String.ofList

end LayeredCss.SourcePath

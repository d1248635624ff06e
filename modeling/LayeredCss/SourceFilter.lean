import LayeredCss.Config
import LayeredCss.FileId
import LayeredCss.Glob.Expression
import LayeredCss.Glob.Match
import LayeredCss.SourcePath

/-!
# Which files are processed

A file is skipped for its extension, for its path or for its source, in this order.  Nothing of
this is an error; only a glob that cannot be read or nests too deep is.

* `SourceFilter.ofConfig`: the filter of a configuration;
* `SourceFilter.skip?`: why a file is skipped.
-/

namespace LayeredCss

/-- Why a file is not processed. -/
inductive SkipReason
  | unsupportedExtension
  /-- The path matches an excluded glob. -/
  | excluded
  /-- The source does not contain the marker. -/
  | noMarker
  deriving DecidableEq, Repr

namespace SkipReason

def name : SkipReason → String
  | unsupportedExtension => "UnsupportedExtension"
  | excluded => "Excluded"
  | noMarker => "NoMarker"

end SkipReason

structure SourceFilter where
  /-- Extensions in lower case, without dots in front. -/
  extensions : List String
  excluded : List (List Glob.Token)
  marker : String

namespace SourceFilter

/-- An extension as it is compared: without dots in front and in lower case. -/
def normalExtension (extension : String) : String :=
  Text.lowerCase (String.ofList (extension.toList.dropWhile (· == '.')))

/-- Reads an excluded glob. -/
def readGlob (glob : String) : Except Failure (List Glob.Token) :=
  match Glob.parse glob with
  | .ok tokens => .ok tokens
  | .error fault => .error
      ⟨[s!"invalid exclude pattern '{glob}'"],
        .message s!"error parsing glob '{glob}': {fault.text}"⟩

/-- Refuses globs one of which nests too deep. -/
def checkNesting (globs : List (List Glob.Token)) : Except Failure Unit :=
  match Glob.nestingFault? globs with
  | none => .ok ()
  | some fault => .error ⟨["failed to build exclude glob set"], .message fault.text⟩

/-- The filter of a configuration.  The first glob that cannot be read is an error, and after that
a glob that nests too deep. -/
def ofConfig (config : Config) : Except Failure SourceFilter := do
  let excluded ← config.exclude.mapM readGlob
  checkNesting excluded
  return ⟨config.extensions.map normalExtension, excluded, config.importMarker⟩

/-- Whether a path lies in an excluded place; its query does not count. -/
def isExcluded (filter : SourceFilter) (path : String) : Bool :=
  filter.excluded.any (Glob.isMatch · (SourcePath.withoutQuery path))

/-- Whether files with this path are processed, going by its extension. -/
def supports (filter : SourceFilter) (path : String) : Bool :=
  match SourcePath.extension? path with
  | none => false
  | some extension => filter.extensions.contains (Text.lowerCase extension)

/-- Why a file is skipped; `none` if it is to be processed. -/
def skip? (filter : SourceFilter) (file : FileId) (source : String) : Option SkipReason :=
  if !filter.supports file.name then some .unsupportedExtension
  else if filter.isExcluded file.name then some .excluded
  else if !Text.includes filter.marker.toList source.toList then some .noMarker
  else none

end SourceFilter

end LayeredCss

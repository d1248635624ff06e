/-!
# Lifecycles

A session serves a build that ends or one that goes on watching its files.  The lifecycle fixes how
layers are given out and what importing the stylesheet means.
-/

namespace LayeredCss

/-- How layers are given out. -/
inductive Layering
  /-- One counter for all files, moved on by each transform. -/
  | monotonic
  /-- One slot of layers for each file, which it keeps. -/
  | stable
  deriving DecidableEq, Repr

/-- What the module of the stylesheet holds. -/
inductive StylesheetMode
  /-- The stylesheet itself. -/
  | oneShot
  /-- A client that fetches the live stylesheet. -/
  | watch
  deriving DecidableEq, Repr

inductive Lifecycle
  /-- Every file is transformed once. -/
  | build
  /-- Files are transformed again as they change. -/
  | watch
  deriving DecidableEq, Repr

namespace Layering

def name : Layering → String
  | monotonic => "Monotonic"
  | stable => "StableCached"

end Layering

namespace StylesheetMode

def name : StylesheetMode → String
  | oneShot => "OneShot"
  | watch => "Watch"

end StylesheetMode

namespace Lifecycle

def name : Lifecycle → String
  | build => "Build"
  | watch => "Watch"

def layering : Lifecycle → Layering
  | build => .monotonic
  | watch => .stable

def stylesheetMode : Lifecycle → StylesheetMode
  | build => .oneShot
  | watch => .watch

end Lifecycle

end LayeredCss

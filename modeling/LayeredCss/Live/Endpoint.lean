import LayeredCss.Plugin

/-!
# The live endpoint

The answer to clients that fetch the stylesheet of a watching session: the current stylesheet, or
the last complete one if the current one cannot be made.
-/

namespace LayeredCss

/-- An HTTP response, whatever transports it. -/
structure Response where
  status : Nat
  headers : List (String × String)
  body : String
  deriving DecidableEq, Repr

namespace Response

def contentType : String := "text/css; charset=utf-8"

def cacheControl : String := "no-store"

/-- A response that holds a stylesheet. -/
def css (status : Nat) (body : String) : Response :=
  ⟨status, [("Content-Type", contentType), ("Cache-Control", cacheControl)], body⟩

/-- The value of a header, whose name may be written in any case. -/
def header? (r : Response) (name : String) : Option String :=
  (r.headers.find? fun h => Text.lowerCase h.1 = Text.lowerCase name).map (·.2)

end Response

namespace Endpoint

/-- The whole current stylesheet.  If it cannot be made the last one that could is served, and
nothing but the status 503 if there is none. -/
def fetch (s : Session) (generate : Generator) : Traced (Response × Session) := do
  match ← s.stylesheet generate with
  | (.ok css, s) => return (.css 200 css, s)
  | (.error failure, s) =>
    let text := failure.text
    Traced.warn s!"[strata] serving previous stylesheet: {text}"
    match s.lastGood? with
    | some css => return (.css 200 css, s)
    | none => return (.css 503 "", s)

theorem value_fetch_of_ok {s next : Session} {generate : Generator} {css : String}
    (h : (s.stylesheet generate).value = (.ok css, next)) :
    (fetch s generate).value = (.css 200 css, next) := by
  simp only [fetch, Traced.value_bind, h, Traced.value_pure]

/-- A fetch does to the session what making the stylesheet does. -/
theorem session_fetch (s : Session) (generate : Generator) :
    (fetch s generate).value.2 = (s.stylesheet generate).value.2 := by
  unfold fetch
  rw [Traced.value_bind]
  rcases (s.stylesheet generate).value with ⟨failure | css, next⟩
  · simp only [Traced.value_bind]
    split <;> rfl
  · rfl

/-- Whether a request goes to the endpoint; the query of its path does not count. -/
def addresses (s : Session) (requestPath : String) : Bool :=
  String.ofList (Text.beforeFirst '?' requestPath.toList) = s.config.endpointPath

/-- Answers a request, if it goes to the endpoint. -/
def answer? (s : Session) (generate : Generator) (requestPath : String) :
    Traced (Option Response × Session) := do
  if addresses s requestPath then
    let (response, s) ← fetch s generate
    return (some response, s)
  else return (none, s)

end Endpoint

end LayeredCss

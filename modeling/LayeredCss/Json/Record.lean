import LayeredCss.Json.Reader

/-!
# Records in JSON

A record is written as an object of its fields, or as an array of them in their order.  In an
object the fields come in any order, each at most once; members that are no fields are passed over.
What has been read so far is a state `σ`, from which the record is made at the end if nothing that
it needs is missing.
-/

namespace LayeredCss.Json

/-- A field of a record that is read into a state `σ`. -/
structure Field (σ : Type) where
  key : String
  /-- Whether the state has the field already. -/
  given : σ → Bool
  read : σ → Reader σ

namespace Field

/-- A field with its value in an optional slot of the state. -/
def slot {σ α : Type} (key : String) (get : σ → Option α) (set : σ → α → σ) (r : Reader α) :
    Field σ where
  key := key
  given st := (get st).isSome
  read st s := do
    let (a, s) ← r s
    return (set st a, s)

variable {σ α : Type}

/-- Reads a member of an object, from its key on.  A second member of a field is refused before its
value is seen. -/
def member (fields : List (Field σ)) (st : σ) : Reader σ := fun s => do
  let (key, s) ← stringBody s
  match fields.find? (fun f => f.key.toList = key) with
  | none =>
    let (_, s) ← Reader.skip (← colon s)
    return (st, s)
  | some f =>
    if f.given st then .error .mismatched
    else f.read st (← colon s)

/-- Reads fields from an array in their order, up to the end of the array or of the fields. -/
def inOrder : List (Field σ) → (first : Bool) → σ → Reader σ
  | [], _, st, s => .ok (st, s)
  | f :: fs, first, st, s => do
    match ← nextItem first s with
    | none => return (st, s)
    | some s =>
      let (st, s) ← f.read st s
      inOrder fs false st s

/-- Reads a record. -/
def record (fields : List (Field σ)) (start : σ) (finish : σ → Option α) : Reader α := fun s => do
  let finished (st : σ) : Except Fault α := match finish st with
    | some a => .ok a
    | none => .error .mismatched
  match skipBlanks s with
  | [] => .error .truncated
  | c :: rest =>
    if c = '[' then
      let (st, rest) ← inOrder fields true start rest
      let a ← finished st
      return (a, ← endArray rest)
    else if c = '\x7b' then
      let (st, rest) ← members (member fields) (rest.length + 1) true start rest
      return (← finished st, rest)
    else refuse (c :: rest)

end Field

end LayeredCss.Json

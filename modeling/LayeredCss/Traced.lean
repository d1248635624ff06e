/-!
# Operations that can be watched

Beside its result an operation leaves a trail: the log records it wrote, the calls it made to the
collaborators of a session and the events it delivered.  `Traced` pairs the two.  The result never
depends on the trail, so statements about results go through `.value` and see plain functions.
-/

namespace LayeredCss

/-- How urgent a log record is, the most urgent first. -/
inductive Level
  | error | warn | info | debug | trace
  deriving DecidableEq, Repr, Inhabited

namespace Level

/-- Position in the order of urgency. -/
def rank : Level → Nat
  | error => 0
  | warn => 1
  | info => 2
  | debug => 3
  | trace => 4

def name : Level → String
  | error => "ERROR"
  | warn => "WARN"
  | info => "INFO"
  | debug => "DEBUG"
  | trace => "TRACE"

/-- Whether a record of this level is kept where `limit` is the least urgent level kept. -/
def within (l limit : Level) : Bool := l.rank ≤ limit.rank

end Level

/-- One thing an operation let others see. -/
inductive Notice
  /-- A log record. -/
  | log (level : Level) (text : String)
  /-- The transform was called for a file with a layer base. -/
  | transformCall (base : UInt32) (file : String) (strict : Bool)
  /-- The rule generator was called. -/
  | generatorCall
  /-- The listener with this label was told of a flush. -/
  | delivery (label generation : Nat)
  deriving DecidableEq, Repr

/-- A result and the trail that computing it left. -/
structure Traced (α : Type) where
  value : α
  trail : List Notice

namespace Traced

variable {α β : Type}

instance : Monad Traced where
  pure a := ⟨a, []⟩
  bind x f := ⟨(f x.value).value, x.trail ++ (f x.value).trail⟩

instance : LawfulMonad Traced :=
  LawfulMonad.mk' Traced (fun x => by simp [Functor.map]) (fun a f => by simp [bind, pure])
    (fun x f g => by simp [bind])

/-- Leaves one notice. -/
def notice (n : Notice) : Traced Unit := ⟨(), [n]⟩

/-- Writes a log record. -/
def log (level : Level) (text : String) : Traced Unit := notice (.log level text)

def error (text : String) : Traced Unit := log .error text
def warn (text : String) : Traced Unit := log .warn text
def info (text : String) : Traced Unit := log .info text
def debug (text : String) : Traced Unit := log .debug text
def trace (text : String) : Traced Unit := log .trace text

@[simp] theorem value_pure (a : α) : (pure a : Traced α).value = a := rfl

@[simp] theorem value_bind (x : Traced α) (f : α → Traced β) :
    (x >>= f).value = (f x.value).value := rfl

@[simp] theorem value_map (f : α → β) (x : Traced α) : (f <$> x).value = f x.value := rfl

@[simp] theorem trail_pure (a : α) : (pure a : Traced α).trail = [] := rfl

@[simp] theorem trail_bind (x : Traced α) (f : α → Traced β) :
    (x >>= f).trail = x.trail ++ (f x.value).trail := rfl

theorem mk_bind (a : α) (trail : List Notice) (f : α → Traced β) :
    (⟨a, trail⟩ : Traced α) >>= f = ⟨(f a).value, trail ++ (f a).trail⟩ := rfl

@[simp] theorem trail_log (level : Level) (text : String) :
    (log level text).trail = [.log level text] := rfl

end Traced

end LayeredCss

import TextTemplate.EngineError
import TextTemplate.Path
import TextTemplate.Value.Display

/-! Helpers: what they are told, what they may ask for, and what they give back. -/

namespace TextTemplate

/-- A value is shown with the escaping of its tag, a safe text as it is. -/
inductive HelperOutput
  | value (v : Value)
  | safe (text : String)

def HelperOutput.nothing : HelperOutput := .value .null

/-- The output as an argument of another helper. -/
def HelperOutput.toValue : HelperOutput → Value
  | .value v => v
  | .safe text => .string text

/-- The two parts of a block that a helper may render. -/
inductive Part
  | body
  | inverse
deriving DecidableEq

def Part.other : Part → Part
  | body => inverse
  | inverse => body

/-- A helper at work: it ends, or renders a part of its block and goes on with what came of it, or
notes a message in the log. It always ends after finitely many steps. -/
inductive Run (α : Type)
  | done (result : Except EngineError α)
  | render (part : Part) (context : Option Value) (next : Except EngineError String → Run α)
  | note (message : String) (next : Run α)

namespace Run
variable {α β : Type}

def bind : Run α → (α → Run β) → Run β
  | done (.ok a), f => f a
  | done (.error e), _ => done (.error e)
  | render part context next, f => render part context fun r => (next r).bind f
  | note message next, f => note message (next.bind f)

instance : Monad Run where
  pure a := done (.ok a)
  bind := bind

def fail (e : EngineError) : Run α := done (.error e)

/-- The primary part, about `context` if there is one. -/
def body (context : Option Value) : Run String := render .body context done

/-- The part that an `else` begins; empty without one. -/
def inverse (context : Option Value) : Run String := render .inverse context done

def log (message : String) : Run Unit := note message (done (.ok ()))

/-- Goes on after a failure. -/
def attempt : Run α → Run (Except EngineError α)
  | done r => done (.ok r)
  | render part context next => render part context fun r => (next r).attempt
  | note message next => note message next.attempt

end Run

/-- One call: the arguments, and a view of the scope it is made in. -/
structure Call where
  name : String
  args : List Value
  hash : Dict Value
  isBlock : Bool
  context : Value
  /-- The value under an `@` name. -/
  special? : String → Option Value
  resolve? : Path → Option Value
  escape : String → String

/-- Resolves the text of a path as a tag would. -/
def Call.lookup (c : Call) (path : String) : Except EngineError (Option Value) :=
  match Path.parse path.toList with
  | .ok p => .ok (c.resolve? p)
  | .error e => .error (.parse (.argument e))

abbrev Helper := Call → Run HelperOutput

end TextTemplate

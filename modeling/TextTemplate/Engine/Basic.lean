import TextTemplate.Engine.Options
import TextTemplate.Helper.Builtin
import TextTemplate.Template.Builder

/-! An engine: its settings, its helpers and its partials. -/

namespace TextTemplate

/-- A registered partial: a template, or a function of the partial's context. -/
inductive Registered
  | template (t : Template)
  | native (f : Value → Except EngineError String)

structure Engine where
  options : Options
  helpers : Dict Helper
  partials : Dict Registered

namespace Engine

/-- An engine with the built-in helpers and no partial. -/
def create (options : Options) : Engine := ⟨options, Helper.builtin, []⟩

def hasHelper (e : Engine) (name : String) : Bool := e.helpers.contains name

def hasPartial (e : Engine) (name : String) : Bool := e.partials.contains name

def registerHelper (e : Engine) (name : String) (h : Helper) : Engine :=
  { e with helpers := e.helpers.insert name h }

/-- Also tells whether there was such a helper. -/
def unregisterHelper (e : Engine) (name : String) : Bool × Engine :=
  (e.hasHelper name, { e with helpers := e.helpers.erase name })

def register (e : Engine) (name : String) (r : Registered) : Engine :=
  { e with partials := e.partials.insert name r }

def registerTemplate (e : Engine) (name : String) (t : Template) : Engine :=
  e.register name (.template t)

def registerNative (e : Engine) (name : String) (f : Value → Except EngineError String) : Engine :=
  e.register name (.native f)

/-- Also tells whether there was such a partial. -/
def unregisterPartial (e : Engine) (name : String) : Bool × Engine :=
  (e.hasPartial name, { e with partials := e.partials.erase name })

/-- Delimiters for the templates compiled from now on. -/
def setDelimiters (e : Engine) (opening closing : String) : Except EngineError Engine :=
  match Delimiters.of opening closing with
  | .ok delimiters => .ok { e with options := { e.options with delimiters } }
  | .error _ => .error (.invalidDelimiters opening closing)

def compile (e : Engine) (source : String) : Except EngineError Template :=
  (Template.compile e.options.delimiters source).mapError .parse

/-- Compiles a template, registers the partials that it defines, and registers the template itself
under the recursion name. -/
def parse (e : Engine) (source : String) : Except EngineError (Template × Engine) := do
  let t ← e.compile source
  let withPartials := t.partials.foldl (fun e (name, p) => e.registerTemplate name p) e
  pure (t, withPartials.registerTemplate e.options.recursion t)

def registerPartial (e : Engine) (name source : String) : Except EngineError Engine := do
  let t ← e.compile source
  pure (e.registerTemplate name t)

end Engine
end TextTemplate

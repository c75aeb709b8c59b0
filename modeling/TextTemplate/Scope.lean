import TextTemplate.Path
import TextTemplate.Value.Access

/-! The scopes open while a template is rendered, and what a path means in them. -/

namespace TextTemplate

/-- Where a loop stands. -/
structure Iteration where
  index : Nat
  key : Value
  length : Nat
  container : Value

/-- One open scope: the value it is about, the names bound in it, and the loop it is a turn of. -/
structure Frame where
  context : Value
  bindings : Dict Value
  iteration : Option Iteration

/-- A scope that only changes the context. -/
def Frame.of (context : Value) : Frame := ⟨context, [], none⟩

/-- A scope about `context` that binds block parameters to values; of a repeated name the last. -/
def Frame.binding (context : Value) (aliases : List String) (values : List Value) : Frame :=
  { context, bindings := Dict.insertAll [] (aliases.zip values), iteration := none }

/-- The innermost frame, and those around it from the inside out. -/
structure Scope where
  current : Frame
  enclosing : List Frame

/-- The values under `@` names that a loop gives to its turns. -/
def Iteration.special? (i : Iteration) (name : String) : Option Value :=
  if name = "index" then some (.number (.int i.index))
  else if name = "key" then some i.key
  else if name = "first" then some (.bool (i.index = 0))
  else if name = "last" then some (.bool (i.index + 1 = i.length))
  else if name = "length" then some (.number (.int i.length))
  else if name = "parent" then some i.container
  else none

namespace Scope

def ofContext (context : Value) : Scope := ⟨.of context, []⟩

def context (s : Scope) : Value := s.current.context

def frames (s : Scope) : List Frame := s.current :: s.enclosing

def push (s : Scope) (f : Frame) : Scope := ⟨f, s.frames⟩

/-- Leaves the innermost frame; the outermost one stays. -/
def pop (s : Scope) : Scope :=
  match s.enclosing with
  | [] => s
  | f :: fs => ⟨f, fs⟩

/-- The scope without its `depth` innermost frames, if it has more. -/
def leave? (s : Scope) (depth : Nat) : Option Scope :=
  match s.frames.drop depth with
  | [] => none
  | f :: fs => some ⟨f, fs⟩

def root (s : Scope) : Frame := s.frames.getLastD s.current

/-- The value of an `@` name: `root` is the outermost context, every other name belongs to the
nearest loop. -/
def special? (s : Scope) (depth : Nat) (name : String) : Option Value :=
  if name = "root" then some s.root.context
  else do
    let selected ← s.leave? depth
    let iteration ← selected.frames.findSome? (·.iteration)
    iteration.special? name

/-- The nearest binding of a name. -/
def binding? (s : Scope) (name : String) : Option Value :=
  s.frames.findSome? fun f => f.bindings.get? name

/-- The name behind an `@`. -/
def specialName? (segment : String) : Option String :=
  match segment.toList with
  | '@' :: name => some (String.ofList name)
  | _ => none

/-- The value of a path: an `@` name, or else a binding unless the path is strict, or else what the
selected context holds, or else the extra data. -/
def resolve? (s : Scope) (extra : Option Value) (p : Path) : Option Value := do
  let selected ← s.leave? p.depth
  match p.segments with
  | [] => some selected.context
  | first :: rest =>
    match specialName? first with
    | some name => (s.special? p.depth name).bind (·.drill? rest)
    | none =>
      match if p.strict then none else selected.binding? first with
      | some bound => bound.drill? rest
      | none =>
        (selected.context.drill? p.segments).orElse fun _ => extra.bind (·.drill? p.segments)

end Scope
end TextTemplate

import TextTemplate.Evaluation

/-! What rendering sees and what it changes. -/

namespace TextTemplate

/-- The body of the partial tag being rendered, with the setting it was written in. -/
structure PendingBody where
  nodes : List Node
  scope : Scope
  defined : Dict Template

/-- What rendering changes as it goes. -/
structure RenderState where
  pending : Option PendingBody
  log : List String

abbrev Render := EStateM EngineError RenderState

/-- Renders a list of nodes one level deeper. -/
abbrev Renderer := Setting → List Node → Render String

namespace Render
variable {α : Type}

/-- Evaluation sees and extends the log only. -/
def eval (x : Eval α) : Render α := fun st =>
  match x st.log with
  | .ok a log => .ok a { st with log }
  | .error e log => .error e { st with log }

def ofExcept : Except EngineError α → Render α
  | .ok a => pure a
  | .error e => throw e

/-- Takes the pending body, so that none is left. -/
def takePending : Render (Option PendingBody) :=
  modifyGet fun st => (st.pending, { st with pending := none })

/-- Leaves a pending body behind, whether `x` succeeds or fails. -/
def leaving (pending : Option PendingBody) (x : Render α) : Render α := fun st =>
  match x st with
  | .ok a st => .ok a { st with pending }
  | .error e st => .error e { st with pending }

/-- Runs `x` with a pending body of its own. -/
def withPending (pending : Option PendingBody) (x : Render α) : Render α := fun st =>
  leaving st.pending x { st with pending }

/-- The outcome of `x` as a value. -/
def attempt (x : Render α) : Render (Except EngineError α) := fun st =>
  match x st with
  | .ok a st => .ok (.ok a) st
  | .error e st => .ok (.error e) st

end Render

/-- Runs a block's helper. -/
def Run.within {α : Type} (part : Part → Option Value → Render String) : Run α → Render α
  | done r => .ofExcept r
  | render p context next => do
    let r ← (part p context).attempt
    (next r).within part
  | note message next => do
    modify fun st => { st with log := st.log ++ [message] }
    next.within part

/-- The name under which a partial shows the body of its tag. -/
def partialBlockName : String := "@partial-block"

namespace Setting

def push (s : Setting) (f : Frame) : Setting := { s with scope := s.scope.push f }

/-- A new scope for a context, or the same one without. -/
def about (s : Setting) : Option Value → Setting
  | none => s
  | some context => s.push (.of context)

/-- The partial of a name: those that templates define come before the registered ones. -/
def partial? (s : Setting) (name : String) : Option Registered :=
  match s.defined.get? name with
  | some t => some (.template t)
  | none => s.engine.partials.get? name

/-- The setting of a template that a partial tag renders. -/
def enter (s : Setting) (f : Frame) (t : Template) : Setting :=
  let scope := if s.engine.options.limitPartialScope then ⟨f, []⟩ else s.scope.push f
  { s with scope, defined := s.defined.insertAll t.partials }

/-- What the output of a node becomes. -/
def hooked (s : Setting) (node : Node) (output : String) : String :=
  match s.engine.options.renderHook with
  | some hook => hook { node, output, context := s.scope.context }
  | none => output

/-- What the output of a turn of a loop becomes. -/
def stepped (s : Setting) (index : Nat) (key value : Value) (output : String) : String :=
  match s.engine.options.loopHelper with
  | some loop => loop { index, key, value, output }
  | none => output

theorem hooked_of_none {s : Setting} (h : s.engine.options.renderHook = none) (node : Node)
    (output : String) : s.hooked node output = output := by
  simp only [hooked, h]

theorem stepped_of_none {s : Setting} (h : s.engine.options.loopHelper = none) (index : Nat)
    (key value : Value) (output : String) : s.stepped index key value output = output := by
  simp only [stepped, h]

/-- The renderer of the next level, unless the nesting limit is reached. -/
def descend (s : Setting) (deeper : Option Renderer) (name : String) : Render Renderer :=
  match deeper with
  | some go => pure go
  | none => throw (.nestingLimit name s.engine.options.maxDepth)

end Setting
end TextTemplate

import TextTemplate.Render.Block

/-! Rendering nodes, partials and whole templates. -/

namespace TextTemplate

/-- The body of a partial tag, where it was written. It is there to be shown again afterwards, but
not for itself. -/
def renderPending (deeper : Option Renderer) (s : Setting) (p : PendingBody) : Render String := do
  let go ← s.descend deeper partialBlockName
  .leaving (some p) (go { s with scope := p.scope, defined := p.defined } p.nodes)

/-- A partial that is there. -/
def renderPartial (deeper : Option Renderer) (s : Setting) (name : String) (i : Invocation)
    (body : Option (List Node)) (target : Registered) : Render String := do
  let context ← match i.params with
    | [] => pure s.scope.context
    | p :: _ => do
      let v ← .eval (p.eval s)
      pure (v.getD .null)
  let hash ← .eval (evalHash s i.hash [])
  match target with
  | .native f => .ofExcept (f context)
  | .template t =>
    let pending := body.map fun nodes => ⟨nodes, s.scope, s.defined⟩
    .withPending pending do
      let go ← s.descend deeper name
      go (s.enter ⟨context, hash, none⟩ t) t.nodes

mutual

/-- Blocks and partials go one level deeper; the fallback of a missing partial stays. -/
def renderNode (deeper : Option Renderer) (s : Setting) : Node → Render String
  | .text text => pure text
  | .value i escaped => do
    let out ← .eval (i.eval s)
    pure (s.emit escaped out)
  | .block b => do
    let go ← s.descend deeper b.name
    renderBlock go s b
  | .partialTag ⟨name, i, body⟩ => do
    let fallback : Render String := match body with
      | some nodes => renderNodes deeper s nodes
      | none => pure ""
    let name ← .eval (name.eval s)
    if name = partialBlockName then
      match ← .takePending with
      | some p => renderPending deeper s p
      | none => fallback
    else
      match s.partial? name with
      | some target => renderPartial deeper s name i body target
      | none => fallback

def renderNodes (deeper : Option Renderer) (s : Setting) : List Node → Render String
  | [] => pure ""
  | node :: nodes => do
    let out ← renderNode deeper s node
    let outs ← renderNodes deeper s nodes
    pure (s.hooked node out ++ outs)

end

/-- Renders with so many levels left. -/
def renderer : Nat → Renderer
  | 0, s, nodes => renderNodes none s nodes
  | n + 1, s, nodes => renderNodes (some (renderer n)) s nodes

/-- What came of a render, and the messages noted on the way. -/
structure Rendering where
  result : Except EngineError String
  log : List String

namespace Engine

/-- Renders a template about `data`; `extra` is asked for what the data lacks. -/
def render (e : Engine) (t : Template) (data : Value) (extra : Option Value) : Rendering :=
  let defined := Dict.insertAll [] t.partials
  let s : Setting := { engine := e, extra, scope := .ofContext data, defined }
  match renderer e.options.maxDepth s t.nodes ⟨none, []⟩ with
  | .ok out st => ⟨.ok out, st.log⟩
  | .error err st => ⟨.error err, st.log⟩

/-- Renders a registered partial. -/
def renderNamed (e : Engine) (name : String) (data : Value) (extra : Option Value) : Rendering :=
  match e.partials.get? name with
  | some (.template t) => e.render t data extra
  | some (.native f) => ⟨f data, []⟩
  | none => ⟨.error (.unknownTemplate name), []⟩

end Engine
end TextTemplate

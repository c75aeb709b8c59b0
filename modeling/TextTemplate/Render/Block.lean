import TextTemplate.Render.Basic

/-! Rendering blocks: conditions, loops, helpers with a body, and the chain of `else` branches. -/

namespace TextTemplate

/-- The turns of a loop from `index` on. -/
def renderTurns (go : Setting → Render String) (s : Setting) (aliases : List String)
    (container : Value) (length : Nat) (index : Nat) : List (Value × Value) → Render String
  | [] => pure ""
  | (key, value) :: rest => do
    let f := { Frame.binding value aliases [value, key] with
      iteration := some { index, key, length, container } }
    let out ← go (s.push f)
    let outs ← renderTurns go s aliases container length (index + 1) rest
    pure (s.stepped index key value out ++ outs)

def renderEach (go : Setting → Render String) (s : Setting) (aliases : List String)
    (container : Value) : Render String :=
  renderTurns go s aliases container container.items.length 0 container.items

/-- A block's helper. A negated block exchanges the two parts. -/
def renderHelper (s : Setting) (name : String) (params : List Reference)
    (hash : List (String × Reference)) (negated : Bool) (part : Part → Setting → Render String) :
    Render String :=
  match s.engine.helpers.get? name with
  | none => pure ""
  | some helper => do
    let args ← .eval (evalParams s params)
    let hash ← .eval (evalHash s hash [])
    let out ← (helper (s.call name args hash true)).within fun p context =>
      part (if negated then p.other else p) (s.about context)
    pure (s.emit false out)

/-- One branch of a block, or none when its condition fails. `body` renders the branch, `inverse`
what follows it. -/
def renderBranch (s : Setting) (i : Invocation) (negated : Bool)
    (body inverse : Setting → Render String) : Render (Option String) :=
  let part : Part → Setting → Render String
    | .body => body
    | .inverse => inverse
  match i.helper, BlockKind.of i, s.bareHelper? i with
  | some name, .helper, _ => some <$> renderHelper s name i.params i.hash negated part
  | _, .plain, some name => some <$> renderHelper s name [] [] negated part
  | _, kind, _ => do
    let subject ← .eval (i.subject s)
    let holds ← .eval (s.holds kind i subject)
    if negated then
      if holds then pure none else some <$> body s
    else if holds then
      match kind, subject with
      | .ifTrue, _ => some <$> body s
      | .ifFalse, _ => some <$> body s
      | _, none => pure (some "")
      | .each, some v => some <$> renderEach body s i.aliases v
      | kind, some v =>
        if kind = .plain ∧ v.isArray then some <$> renderEach body s i.aliases v
        else some <$> body (s.push (.binding v i.aliases [v]))
    else pure none

/-- The first of the remaining branches whose condition holds. -/
def renderAlternates (go : Renderer) (s : Setting) : List Alternate → Render String
  | [] => pure ""
  | ⟨none, body⟩ :: _ => go s body
  | ⟨some condition, body⟩ :: rest => do
    match ← renderBranch s condition false (go · body) fun s => renderAlternates go s rest with
    | some out => pure out
    | none => renderAlternates go s rest

def renderBlock (go : Renderer) (s : Setting) (b : Block) : Render String := do
  let otherwise := fun s => renderAlternates go s b.alternates
  match ← renderBranch s b.invocation b.negated (go · b.body) otherwise with
  | some out => pure out
  | none => otherwise s

end TextTemplate

import TextTemplate.Engine.Basic
import TextTemplate.Scope

/-! The values that a tag's arguments stand for. -/

namespace TextTemplate

/-- Where a node is rendered: the engine, the extra data, the open scopes and the partials that the
templates around the node define. -/
structure Setting where
  engine : Engine
  extra : Option Value
  scope : Scope
  defined : Dict Template

/-- A computation that may fail and may note messages in the log; those of a failed one stay. -/
abbrev Eval := EStateM EngineError (List String)

def Literal.toValue : Literal → Value
  | null => .null
  | bool b => .bool b
  | number n => .number n
  | string s => .string s

namespace Setting

def resolve? (s : Setting) (p : Path) : Option Value := s.scope.resolve? s.extra p

def escape (s : Setting) (text : String) : String :=
  if s.engine.options.escapeHtml then s.engine.options.entities.escape text else text

/-- The text of a helper's output. -/
def emit (s : Setting) (escaped : Bool) : HelperOutput → String
  | .safe text => text
  | .value v => if escaped then s.escape v.display else v.display

def call (s : Setting) (name : String) (args : List Value) (hash : Dict Value) (isBlock : Bool) :
    Call where
  name; args; hash; isBlock
  context := s.scope.context
  special? := s.scope.special? 0
  resolve? := s.resolve?
  escape := s.escape

/-- The helper that a plain identifier names when nothing else stands in the tag. -/
def bareHelper? (s : Setting) (i : Invocation) : Option String :=
  match i.params, i.hash with
  | [p], [] => p.identifier?.filter s.engine.hasHelper
  | _, _ => none

end Setting

/-- Runs a helper that has no block: both parts are empty. -/
def Run.alone {α : Type} : Run α → Eval α
  | done (.ok a) => pure a
  | done (.error e) => throw e
  | render _ _ next => (next (.ok "")).alone
  | note message next => do
    modify (· ++ [message])
    next.alone

mutual

/-- The value of an argument, if it has one. -/
def Reference.eval (s : Setting) : Reference → Eval (Option Value)
  | .literal l => pure (some l.toValue)
  | .path p => pure (s.resolve? p)
  | .call i => do
    let out ← i.eval s
    pure (some out.toValue)

/-- What the inside of a value tag or a group gives: the helper's output, or the first argument.
An unknown helper gives nothing, and its arguments are not evaluated. -/
def Invocation.eval (s : Setting) : Invocation → Eval HelperOutput
  | ⟨some name, params, hash, _⟩ =>
    match s.engine.helpers.get? name with
    | none => pure .nothing
    | some helper => do
      let args ← evalParams s params
      let hash ← evalHash s hash []
      (helper (s.call name args hash false)).alone
  | ⟨none, [], _, _⟩ => pure .nothing
  | ⟨none, p :: ps, hash, aliases⟩ =>
    match s.bareHelper? ⟨none, p :: ps, hash, aliases⟩ with
    | some name =>
      match s.engine.helpers.get? name with
      | none => pure .nothing
      | some helper => (helper (s.call name [] [] false)).alone
    | none => do
      let v ← p.eval s
      pure (.value (v.getD .null))

/-- Positional arguments from left to right; one without a value is `null`. -/
def evalParams (s : Setting) : List Reference → Eval (List Value)
  | [] => pure []
  | p :: ps => do
    let v ← p.eval s
    let vs ← evalParams s ps
    pure (v.getD .null :: vs)

/-- Hash arguments from left to right; of a repeated key the last value counts. -/
def evalHash (s : Setting) : List (String × Reference) → Dict Value → Eval (Dict Value)
  | [], d => pure d
  | (key, r) :: rest, d => do
    let v ← r.eval s
    evalHash s rest (d.insert key (v.getD .null))

end

/-- The value of the first argument. -/
def Invocation.subject (s : Setting) (i : Invocation) : Eval (Option Value) :=
  match i.params with
  | [] => pure none
  | p :: _ => p.eval s

/-- Whether the subject of a condition holds; zero may be left out. -/
def Setting.test (s : Setting) (i : Invocation) (subject : Option Value) : Eval Bool := do
  let includeZero ← match i.hashValue? "includeZero" with
    | some flag => do
      let v ← flag.eval s
      pure (v.any Value.isTruthy)
    | none => pure true
  pure (subject.any fun v => v.isTruthy && (includeZero || !v.isZero))

/-- Whether a block of a kind other than a helper shows its body. -/
def Setting.holds (s : Setting) (kind : BlockKind) (i : Invocation) (subject : Option Value) :
    Eval Bool :=
  match kind with
  | .ifTrue => s.test i subject
  | .ifFalse => do
    let b ← s.test i subject
    pure !b
  | .each => pure (subject.any fun v => !v.items.isEmpty)
  | .withValue => pure (subject.any fun v => !v.isNull)
  | _ => pure (subject.any Value.isTruthy)

def PartialName.eval (s : Setting) : PartialName → Eval String
  | fixed name => pure name
  | computed call => do
    let out ← call.eval s
    pure out.toValue.display

end TextTemplate

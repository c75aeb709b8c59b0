import TextTemplate.Delimiters
import TextTemplate.Entities
import TextTemplate.Template.Basic
import TextTemplate.Value.Basic

/-! The settings of an engine. -/

namespace TextTemplate

/-- One turn of a loop, with what it rendered. -/
structure LoopStep where
  index : Nat
  key : Value
  value : Value
  output : String

/-- One rendered node, with the context it was rendered in. -/
structure RenderEvent where
  node : Node
  output : String
  context : Value

/-- Without `escapeHtml` no value is escaped. With `limitPartialScope` a partial sees no context but
its own. A parsed template is registered under the name `recursion`. Blocks and partials nest up to
`maxDepth`. What `loopHelper` and `renderHook` return replaces the output that they are shown. -/
structure Options where
  delimiters : Delimiters := .braces
  entities : Entities := .markup
  escapeHtml : Bool := true
  limitPartialScope : Bool := true
  recursion : String := "self"
  maxDepth : Nat := 64
  loopHelper : Option (LoopStep → String) := none
  renderHook : Option (RenderEvent → String) := none

end TextTemplate

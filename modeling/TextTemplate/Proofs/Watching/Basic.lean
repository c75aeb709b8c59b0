import TextTemplate.Proofs.Branching.Basic

/-! Rendering with an account of it: which nodes are rendered and in which scopes, which bodies are
asked for, and when the hooks are called. The account is all that is added. -/

namespace TextTemplate

/-- What happens while nodes are rendered. A tag may ask for the body that was pending from the
start, or for one that was put there meanwhile. -/
inductive Moment
  | begun (node : Node) (scope : Scope) (defined : Dict Template)
  | shown (event : RenderEvent)
  | hooked (event : RenderEvent)
  | turned (step : LoopStep)
  | stepped (step : LoopStep)
  | asked (pending : Option PendingBody) (fromStart : Bool)

/-- The same, told by one who has put a body there first. -/
def Moment.inner : Moment → Moment
  | asked pending _ => asked pending false
  | m => m

/-- A computation of the renderer with its account, which a failure does not undo. -/
def Watched (α : Type) := RenderState → EStateM.Result EngineError RenderState α × List Moment

namespace Watched
variable {α β : Type}

/-- The computation without its account. -/
def result (x : Watched α) : Render α := fun st => (x st).1

def eval (x : Eval α) : Watched α := fun st => (Render.eval x st, [])

def bind (x : Watched α) (f : α → Watched β) : Watched β := fun st =>
  match x st with
  | (.ok a st', moments) => ((f a st').1, moments ++ (f a st').2)
  | (.error e st', moments) => (.error e st', moments)

instance : Monad Watched where
  pure a := eval (pure a)
  bind := bind

protected theorem id_map (x : Watched α) : id <$> x = x := by
  funext st
  simp only [Functor.map, bind]
  generalize x st = r
  obtain ⟨a | e, moments⟩ := r
  · exact congrArg (Prod.mk _) (List.append_nil moments)
  · rfl

protected theorem bind_assoc {γ : Type} (x : Watched α) (f : α → Watched β) (g : β → Watched γ) :
    x >>= f >>= g = x >>= fun a => f a >>= g := by
  funext st
  simp only [Bind.bind, bind]
  generalize x st = r
  obtain ⟨a | e, moments⟩ := r
  · dsimp only
    generalize f a _ = r
    obtain ⟨b | e, moments⟩ := r
    · simp only [List.append_assoc]
    · rfl
  · rfl

instance : LawfulMonad Watched :=
  .mk' _ Watched.id_map (fun _ _ => rfl) Watched.bind_assoc

def tell (m : Moment) : Watched Unit := fun st => (.ok () st, [m])

def ofExcept : Except EngineError α → Watched α
  | .ok a => pure a
  | .error e => eval (throw e)

def take : Watched (Option PendingBody) := fun st =>
  (Render.takePending st, [.asked st.pending true])

def leaving (pending : Option PendingBody) (x : Watched α) : Watched α := fun st =>
  (x.result.leaving pending st, (x st).2)

def withPending (pending : Option PendingBody) (x : Watched α) : Watched α := fun st =>
  (x.result.withPending pending st, (x { st with pending }).2.map Moment.inner)

def attempt (x : Watched α) : Watched (Except EngineError α) := fun st =>
  (x.result.attempt st, (x st).2)

end Watched

/-- A renderer that gives an account. -/
abbrev Watcher := Setting → List Node → Watched String

def Watcher.renderer (go : Watcher) : Renderer := fun s ns => (go s ns).result

def Run.watch {α : Type} (part : Part → Option Value → Watched String) : Run α → Watched α
  | done r => .ofExcept r
  | render p context next => do
    let r ← (part p context).attempt
    (next r).watch part
  | note message next => do
    .eval (modify (· ++ [message]))
    next.watch part

namespace Setting

/-- A node has been rendered; the hook, if there is one, is called. -/
def watchHooked (s : Setting) (node : Node) (output : String) : Watched String := do
  let event := { node, output, context := s.scope.context }
  .tell (.shown event)
  match s.engine.options.renderHook with
  | some hook =>
    .tell (.hooked event)
    pure (hook event)
  | none => pure output

/-- A turn of a loop has been rendered; the loop helper, if there is one, is called. -/
def watchStepped (s : Setting) (index : Nat) (key value : Value) (output : String) :
    Watched String := do
  let step := { index, key, value, output }
  .tell (.turned step)
  match s.engine.options.loopHelper with
  | some loop =>
    .tell (.stepped step)
    pure (loop step)
  | none => pure output

def watchDescend (s : Setting) (deeper : Option Watcher) (name : String) : Watched Watcher :=
  match deeper with
  | some go => pure go
  | none => .eval (throw (.nestingLimit name s.engine.options.maxDepth))

end Setting

def watchTurns (go : Setting → Watched String) (s : Setting) (aliases : List String)
    (container : Value) (length : Nat) (index : Nat) : List (Value × Value) → Watched String
  | [] => pure ""
  | (key, value) :: rest => do
    let f := { Frame.binding value aliases [value, key] with
      iteration := some { index, key, length, container } }
    let out ← go (s.push f)
    let out ← s.watchStepped index key value out
    let outs ← watchTurns go s aliases container length (index + 1) rest
    pure (out ++ outs)

def watchChosen (body : Setting → Watched String) (s : Setting) (kind : BlockKind)
    (aliases : List String) : Option Value → Watched String
  | none => if kind = .ifTrue ∨ kind = .ifFalse then body s else pure ""
  | some v =>
    if kind = .ifTrue ∨ kind = .ifFalse then body s
    else if kind = .each ∨ kind = .plain ∧ v.isArray then
      watchTurns body s aliases v v.items.length 0 v.items
    else body (s.push (.binding v aliases [v]))

def watchOrdinary (body : Setting → Watched String) (s : Setting) (i : Invocation)
    (negated : Bool) (kind : BlockKind) : Watched (Option String) := do
  let subject ← .eval (i.subject s)
  let holds ← .eval (s.holds kind i subject)
  if negated then
    if holds then pure none else some <$> body s
  else if holds then some <$> watchChosen body s kind i.aliases subject
  else pure none

def watchHelper (s : Setting) (c : BlockCall) (negated : Bool)
    (part : Part → Setting → Watched String) : Watched String :=
  match s.engine.helpers.get? c.name with
  | none => pure ""
  | some helper => do
    let args ← .eval (evalParams s c.params)
    let hash ← .eval (evalHash s c.hash [])
    let out ← (helper (s.call c.name args hash true)).watch fun p context =>
      part (if negated then p.other else p) (s.about context)
    pure (s.emit false out)

/-- The two parts of a block. -/
def watchPart (body inverse : Setting → Watched String) : Part → Setting → Watched String
  | .body => body
  | .inverse => inverse

def watchBranch (s : Setting) (i : Invocation) (negated : Bool)
    (body inverse : Setting → Watched String) : Watched (Option String) :=
  match s.blockCall? i with
  | some c => some <$> watchHelper s c negated (watchPart body inverse)
  | none => watchOrdinary body s i negated (BlockKind.of i)

def watchAlternates (go : Watcher) (s : Setting) : List Alternate → Watched String
  | [] => pure ""
  | ⟨none, body⟩ :: _ => go s body
  | ⟨some condition, body⟩ :: rest => do
    match ← watchBranch s condition false (go · body) fun s => watchAlternates go s rest with
    | some out => pure out
    | none => watchAlternates go s rest

def watchBlock (go : Watcher) (s : Setting) (b : Block) : Watched String := do
  let otherwise := fun s => watchAlternates go s b.alternates
  match ← watchBranch s b.invocation b.negated (go · b.body) otherwise with
  | some out => pure out
  | none => otherwise s

def watchPending (deeper : Option Watcher) (s : Setting) (p : PendingBody) : Watched String := do
  let go ← s.watchDescend deeper partialBlockName
  .leaving (some p) (go { s with scope := p.scope, defined := p.defined } p.nodes)

def watchPartial (deeper : Option Watcher) (s : Setting) (name : String) (i : Invocation)
    (body : Option (List Node)) (target : Registered) : Watched String := do
  let context ← .eval (s.contextFor i)
  let hash ← .eval (evalHash s i.hash [])
  match target with
  | .native f => .ofExcept (f context)
  | .template t =>
    .withPending (body.map fun nodes => ⟨nodes, s.scope, s.defined⟩) do
      let go ← s.watchDescend deeper name
      go (s.enter ⟨context, hash, none⟩ t) t.nodes

/-- A partial tag, with what it shows for want of a partial or of a body. -/
def watchTag (deeper : Option Watcher) (s : Setting) (name : PartialName) (i : Invocation)
    (body : Option (List Node)) (fallback : Watched String) : Watched String := do
  let name ← .eval (name.eval s)
  if name = partialBlockName then
    match ← .take with
    | some p => watchPending deeper s p
    | none => fallback
  else
    match s.partial? name with
    | some target => watchPartial deeper s name i body target
    | none => fallback

mutual

def watchNode (deeper : Option Watcher) (s : Setting) : Node → Watched String
  | .text text => pure text
  | .value i escaped => do
    let out ← .eval (i.eval s)
    pure (s.emit escaped out)
  | .block b => do
    let go ← s.watchDescend deeper b.name
    watchBlock go s b
  | .partialTag ⟨name, i, some body⟩ =>
    watchTag deeper s name i (some body) (watchNodes deeper s body)
  | .partialTag ⟨name, i, none⟩ => watchTag deeper s name i none (pure "")

def watchNodes (deeper : Option Watcher) (s : Setting) : List Node → Watched String
  | [] => pure ""
  | node :: nodes => do
    .tell (.begun node s.scope s.defined)
    let out ← watchNode deeper s node
    let out ← s.watchHooked node out
    let outs ← watchNodes deeper s nodes
    pure (out ++ outs)

end

/-- Renders with so many levels left, and gives an account. -/
def watcher : Nat → Watcher
  | 0 => watchNodes none
  | left + 1 => watchNodes (some (watcher left))

/-- What is below a node when so many levels are left. -/
def watchersBelow : Nat → Option Watcher
  | 0 => none
  | left + 1 => some (watcher left)

theorem watcher_eq (left : Nat) : watcher left = watchNodes (watchersBelow left) := by
  cases left <;> rfl

/-! Without the account, it is what the renderer does. -/

namespace Watched
variable {α β : Type} {x : Watched α} {f : α → Watched β}

theorem result_eval (x : Eval α) : (eval x).result = .eval x := rfl

theorem eval_bind {y : Eval α} {a : α} {log : List String} {st : RenderState}
    (h : y st.log = .ok a log) : (eval y >>= f) st = f a { st with log } := by
  simp only [Bind.bind, bind, eval, Render.eval, h]
  rfl

theorem result_pure (a : α) : (pure a : Watched α).result = pure a := rfl

theorem result_tell (m : Moment) : (tell m).result = pure () := rfl

theorem result_take : take.result = .takePending := rfl

theorem result_bind : (x >>= f).result = x.result >>= fun a => (f a).result := by
  funext st
  simp only [result, Bind.bind, bind, EStateM.bind]
  generalize x st = r
  obtain ⟨_ | _, moments⟩ := r <;> rfl

theorem result_map (g : α → β) : (g <$> x).result = g <$> x.result := by
  rw [map_eq_pure_bind, map_eq_pure_bind, result_bind]
  rfl

theorem result_ofExcept (r : Except EngineError α) : (ofExcept r).result = .ofExcept r := by
  cases r <;> rfl

theorem result_leaving (p : Option PendingBody) : (x.leaving p).result = x.result.leaving p := rfl

theorem result_withPending (p : Option PendingBody) :
    (withPending p x).result = .withPending p x.result := rfl

theorem result_attempt : x.attempt.result = x.result.attempt := rfl

end Watched

open Watched

section
variable {s : Setting} {deeper : Option Watcher} {go : Watcher}
variable {body inverse : Setting → Watched String}

theorem Run.result_watch {α : Type} (part : Part → Option Value → Watched String) (run : Run α) :
    (run.watch part).result = run.within fun p context => (part p context).result := by
  induction run with
  | done r => exact result_ofExcept r
  | render p context next ih =>
    simp only [watch, within, result_bind, result_attempt, ih]
  | note message next ih =>
    rw [watch, result_bind, ih]
    rfl

theorem Setting.result_watchHooked (s : Setting) (node : Node) (output : String) :
    (s.watchHooked node output).result = pure (s.hooked node output) := by
  rw [watchHooked, hooked]
  cases s.engine.options.renderHook <;> rfl

theorem Setting.result_watchStepped (s : Setting) (index : Nat) (key value : Value)
    (output : String) :
    (s.watchStepped index key value output).result = pure (s.stepped index key value output) := by
  rw [watchStepped, stepped]
  cases s.engine.options.loopHelper <;> rfl

theorem result_watchDescend {α : Type} (name : String) (f : Watcher → Watched α)
    (f' : Renderer → Render α) (hf : ∀ go, (f go).result = f' go.renderer) :
    (s.watchDescend deeper name >>= f).result =
      s.descend (deeper.map Watcher.renderer) name >>= f' := by
  rw [result_bind]
  cases deeper with
  | none => rfl
  | some go => exact hf go

theorem result_watchTurns (aliases : List String) (container : Value) (length index : Nat)
    (items : List (Value × Value)) :
    (watchTurns body s aliases container length index items).result =
      renderTurns (fun s => (body s).result) s aliases container length index items := by
  induction items generalizing index with
  | nil => rfl
  | cons item items ih =>
    simp only [watchTurns, renderTurns, result_bind, Setting.result_watchStepped, ih, pure_bind,
      result_pure]

theorem result_watchChosen (kind : BlockKind) (aliases : List String) (subject : Option Value) :
    (watchChosen body s kind aliases subject).result =
      renderChosen (fun s => (body s).result) s kind aliases subject := by
  cases subject with
  | none =>
    rw [watchChosen, renderChosen]
    split <;> rfl
  | some v =>
    rw [watchChosen, renderChosen]
    split
    · rfl
    · split
      · exact result_watchTurns ..
      · rfl

theorem result_watchOrdinary (i : Invocation) (negated : Bool) (kind : BlockKind) :
    (watchOrdinary body s i negated kind).result =
      renderOrdinary (fun s => (body s).result) s i negated kind := by
  simp only [watchOrdinary, renderOrdinary, result_bind, result_eval]
  refine bind_congr fun subject => bind_congr fun holds => ?_
  cases negated <;> cases holds <;> simp only [Bool.false_eq_true, if_true, if_false, result_map,
    result_watchChosen, result_pure]

theorem result_watchHelper (c : BlockCall) (negated : Bool)
    (part : Part → Setting → Watched String) :
    (watchHelper s c negated part).result =
      renderHelper s c.name c.params c.hash negated fun p s => (part p s).result := by
  rw [watchHelper, renderHelper]
  cases s.engine.helpers.get? c.name with
  | none => rfl
  | some helper =>
    simp only [result_bind, result_eval, Run.result_watch, result_pure]

theorem result_watchBranch (i : Invocation) (negated : Bool) :
    (watchBranch s i negated body inverse).result =
      renderBranch s i negated (fun s => (body s).result) fun s => (inverse s).result := by
  rw [watchBranch]
  cases h : s.blockCall? i with
  | none =>
    rw [renderBranch_of_no_call h]
    exact result_watchOrdinary ..
  | some c =>
    have hparts : (fun p s => (watchPart body inverse p s).result) =
        blockPart (fun s => (body s).result) fun s => (inverse s).result := by
      funext p
      cases p <;> rfl
    rw [renderBranch_of_call h, result_map, result_watchHelper, hparts]

theorem result_watchAlternates (alternates : List Alternate) (s : Setting) :
    (watchAlternates go s alternates).result = renderAlternates go.renderer s alternates := by
  induction alternates generalizing s with
  | nil => rfl
  | cons a rest ih =>
    obtain ⟨condition, body⟩ := a
    cases condition with
    | none => rfl
    | some condition =>
      simp only [watchAlternates, renderAlternates, result_bind, result_watchBranch, ih]
      refine bind_congr fun out => ?_
      cases out with
      | none => exact ih s
      | some out => rfl

theorem result_watchBlock (b : Block) :
    (watchBlock go s b).result = renderBlock go.renderer s b := by
  simp only [watchBlock, renderBlock, result_bind, result_watchBranch, result_watchAlternates]
  refine bind_congr fun out => ?_
  cases out with
  | none => exact result_watchAlternates ..
  | some out => rfl

theorem result_watchPending (p : PendingBody) :
    (watchPending deeper s p).result = renderPending (deeper.map Watcher.renderer) s p :=
  result_watchDescend _ _ _ fun _ => rfl

theorem result_watchPartial (name : String) (i : Invocation) (body : Option (List Node))
    (target : Registered) :
    (watchPartial deeper s name i body target).result =
      renderPartial (deeper.map Watcher.renderer) s name i body target := by
  simp only [watchPartial, renderPartial_eq, result_bind, result_eval]
  refine bind_congr fun context => bind_congr fun hash => ?_
  cases target with
  | native f => exact result_ofExcept _
  | template t =>
    rw [result_withPending]
    exact congrArg (Render.withPending _) (result_watchDescend _ _ _ fun _ => rfl)

theorem result_watchTag (name : PartialName) (i : Invocation) (body : Option (List Node))
    {fallback : Watched String} :
    (watchTag deeper s name i body fallback).result =
      renderTag (deeper.map Watcher.renderer) s name i body fallback.result := by
  simp only [watchTag, renderTag, shown, result_bind, result_eval]
  refine bind_congr fun name => ?_
  split
  · rw [result_bind, result_take]
    refine bind_congr fun pending => ?_
    cases pending with
    | none => rfl
    | some p => exact result_watchPending p
  · cases s.partial? name with
    | none => rfl
    | some target => exact result_watchPartial name i body target

mutual

theorem result_watchNode : ∀ n : Node,
    (watchNode deeper s n).result = renderNode (deeper.map Watcher.renderer) s n
  | .text text => by
    rw [watchNode, renderNode]
    rfl
  | .value i escaped => by
    rw [watchNode, renderNode, result_bind]
    rfl
  | .block b => by
    rw [watchNode, renderNode]
    exact result_watchDescend _ _ _ fun go => result_watchBlock b
  | .partialTag ⟨name, i, some body⟩ => by
    rw [watchNode, renderNode_partialTag, result_watchTag, result_watchNodes body]
    rfl
  | .partialTag ⟨name, i, none⟩ => by
    rw [watchNode, renderNode_partialTag, result_watchTag]
    rfl

theorem result_watchNodes : ∀ ns : List Node,
    (watchNodes deeper s ns).result = renderNodes (deeper.map Watcher.renderer) s ns
  | [] => by
    rw [watchNodes, renderNodes]
    rfl
  | n :: ns => by
    simp only [watchNodes, renderNodes, result_bind, result_tell, result_watchNode n,
      Setting.result_watchHooked, result_watchNodes ns, pure_bind, result_pure]

end

theorem renderer_watcher (left : Nat) : (watcher left).renderer = renderer left := by
  induction left with
  | zero =>
    funext s ns
    exact result_watchNodes ns
  | succ left ih =>
    funext s ns
    refine (result_watchNodes ns).trans ?_
    rw [Option.map_some, ih]
    rfl

end

theorem map_watchersBelow (left : Nat) :
    (watchersBelow left).map Watcher.renderer = levelsBelow left := by
  cases left with
  | zero => rfl
  | succ left => exact congrArg some (renderer_watcher left)

namespace Walker
variable {w : Walker}

/-- A node where the walker stands, with its account. -/
def watched (w : Walker) (n : Node) : EStateM.Result EngineError RenderState String × List Moment :=
  watchNode (watchersBelow w.levels) w.setting n ⟨w.pending, w.log⟩

/-- What happens when the node is rendered there. -/
def moments (w : Walker) (n : Node) : List Moment := (w.watched n).2

theorem outcome_of_watched {n : Node} {x : Watched String} {st : RenderState}
    (h : w.watched n = x st) : w.outcome n = x.result.outcome st := by
  have hresult : w.outcome n = (watchNode (watchersBelow w.levels) w.setting n).result.outcome
      ⟨w.pending, w.log⟩ := by
    rw [outcome_eq, ← map_watchersBelow, ← result_watchNode]
  rw [watched] at h
  rw [hresult]
  simp only [Render.outcome, result, h]

end Walker

/-- Renders a template and gives an account of it. -/
def Engine.watch (e : Engine) (t : Template) (data : Value) (extra : Option Value) :
    Rendering × List Moment :=
  let defined := Dict.insertAll [] t.partials
  let s : Setting := { engine := e, extra, scope := .ofContext data, defined }
  match watcher e.options.maxDepth s t.nodes ⟨none, []⟩ with
  | (.ok out st, moments) => (⟨.ok out, st.log⟩, moments)
  | (.error err st, moments) => (⟨.error err, st.log⟩, moments)

theorem Engine.watch_fst (e : Engine) (t : Template) (data : Value) (extra : Option Value) :
    (e.watch t data extra).1 = e.render t data extra := by
  rw [watch, render, ← renderer_watcher]
  simp only [Watcher.renderer, result]
  generalize watcher _ _ _ _ = r
  obtain ⟨_ | _, moments⟩ := r <;> rfl

end TextTemplate

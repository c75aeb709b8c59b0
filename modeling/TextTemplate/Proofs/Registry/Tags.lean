import TextTemplate.Proofs.Branching.Basic

/-! What rendering makes of the helpers and partials that there are: it finds them by their names,
in every tag and on every level. -/

namespace TextTemplate

/-- What comes of a whole render, where at first no body is pending and nothing is noted. -/
def Render.rendering (x : Render String) : Rendering :=
  match x ⟨none, []⟩ with
  | .ok out st => ⟨.ok out, st.log⟩
  | .error e st => ⟨.error e, st.log⟩

namespace Setting

/-- What a helper gives where it has no block; nothing, for want of a helper. -/
def answer (s : Setting) (helper : Option Helper) (name : String) (params : List Reference)
    (hash : List (String × Reference)) : Eval HelperOutput :=
  match helper with
  | none => pure .nothing
  | some helper => do
    let args ← evalParams s params
    let hash ← evalHash s hash []
    (helper (s.call name args hash false)).alone

/-- What a helper makes of the block that is left to it; nothing, for want of a helper. -/
def delegate (s : Setting) (helper : Option Helper) (c : BlockCall) (negated : Bool)
    (body inverse : Setting → Render String) : Render String :=
  match helper with
  | none => pure ""
  | some helper => do
    let args ← .eval (evalParams s c.params)
    let hash ← .eval (evalHash s c.hash [])
    let out ← (helper (s.call c.name args hash true)).within fun p context =>
      blockPart body inverse (if negated then p.other else p) (s.about context)
    pure (s.emit false out)

/-- What a partial shows for its tag, a native one the text that it gives; the fallback, for want of
a partial. -/
def present (s : Setting) (deeper : Option Renderer) (target : Option Registered) (name : String)
    (i : Invocation) (body : Option (List Node)) : Render String :=
  match target with
  | none => body.elim (pure "") (renderNodes deeper s)
  | some target => do
    let context ← .eval (s.contextFor i)
    let hash ← .eval (evalHash s i.hash [])
    match target with
    | .native f => .ofExcept (f context)
    | .template t =>
      .withPending (body.map fun ns => ⟨ns, s.scope, s.defined⟩) do
        let go ← s.descend deeper name
        go (s.enter ⟨context, hash, none⟩ t) t.nodes

end Setting

/-- In this setting tags find helpers and partials by these functions. -/
structure Setting.FindsBy (s : Setting) (helper? : String → Option Helper)
    (partial? : String → Option Registered) : Prop where
  value : ∀ deeper i escaped,
    renderNode deeper s (.value i escaped) = s.emit escaped <$> .eval (i.eval s)
  /-- A call in a tag, or as an argument in a tag. -/
  call : ∀ name params hash aliases,
    Invocation.eval s ⟨some name, params, hash, aliases⟩ = s.answer (helper? name) name params hash
  /-- A word alone calls the helper of its name, and is a path for want of a helper. -/
  word : ∀ r name, r.identifier? = some name → ∀ aliases,
    Invocation.eval s ⟨none, [r], [], aliases⟩ =
      match helper? name with
      | some helper => (helper (s.call name [] [] false)).alone
      | none => do
        let v ← r.eval s
        pure (.value (v.getD .null))
  /-- A block that begins with a call is left to the helper, whether or not there is one. -/
  blockCall : ∀ name ∉ ["if", "unless", "each", "with"], ∀ params hash aliases,
    s.blockCall? ⟨some name, params, hash, aliases⟩ = some ⟨name, params, hash⟩
  /-- A section about a word is left to the helper of its name, if there is one. -/
  wordCall : ∀ r name, r.identifier? = some name → ∀ aliases,
    s.blockCall? ⟨none, [r], [], aliases⟩ = (helper? name).map fun _ => ⟨name, [], []⟩
  block : ∀ b c, s.blockCall? b.invocation = some c → ∀ go,
    renderNode (some go) s (.block b) = s.delegate (helper? c.name) c b.negated
      (go · b.body) (renderAlternates go · b.alternates)
  /-- A branch that begins with `else` and a call. -/
  alternate : ∀ i c, s.blockCall? i = some c → ∀ go body rest,
    renderAlternates go s (⟨some i, body⟩ :: rest) = s.delegate (helper? c.name) c false
      (go · body) (renderAlternates go · rest)
  /-- Partials that templates define come before the registered ones. The name of the pending body
  is no partial's. -/
  partialTag : ∀ deeper name i body,
    renderNode deeper s (.partialTag ⟨.fixed name, i, body⟩) =
      if name = partialBlockName then shown deeper s (body.elim (pure "") (renderNodes deeper s))
      else
        s.present deeper (((s.defined.get? name).map .template).or (partial? name)) name i body
  computedTag : ∀ deeper call i body,
    renderNode deeper s (.partialTag ⟨.computed call, i, body⟩) = do
      let out ← .eval (call.eval s)
      renderNode deeper s (.partialTag ⟨.fixed out.toValue.display, i, body⟩)

/-- Rendering on an engine finds helpers and partials by these functions. -/
structure Engine.RendersBy (e : Engine) (helper? : String → Option Helper)
    (partial? : String → Option Registered) : Prop where
  /-- A template is rendered about its data, with the partials that it defines. -/
  render : ∀ t data extra, e.render t data extra =
    (renderer e.options.maxDepth ⟨e, extra, .ofContext data, Dict.insertAll [] t.partials⟩
      t.nodes).rendering
  renderNamed : ∀ name data extra, e.renderNamed name data extra =
    match partial? name with
    | some (.template t) => e.render t data extra
    | some (.native f) => ⟨f data, []⟩
    | none => ⟨.error (.unknownTemplate name), []⟩
  /-- On every level all nodes are rendered, one after the other, and joined. -/
  nodes : ∀ s : Setting, s.engine = e → ∀ left ns, renderer left s ns =
    String.join <$> ns.mapM fun n => s.hooked n <$> renderNode (levelsBelow left) s n
  tags : ∀ s : Setting, s.engine = e → s.FindsBy helper? partial?

section
variable {s : Setting} {deeper : Option Renderer}

theorem renderNodes_eq (deeper : Option Renderer) (s : Setting) (ns : List Node) :
    renderNodes deeper s ns =
      String.join <$> ns.mapM fun n => s.hooked n <$> renderNode deeper s n := by
  induction ns with
  | nil => rfl
  | cons n ns ih =>
    rw [renderNodes, ih]
    simp only [List.mapM_cons, map_eq_pure_bind, bind_assoc, pure_bind, String.join_cons]

theorem bareHelper?_word {r : Reference} {name : String} (hr : r.identifier? = some name)
    (aliases : List String) :
    s.bareHelper? ⟨none, [r], [], aliases⟩ = (s.engine.helpers.get? name).map fun _ => name := by
  have hhas : s.engine.hasHelper name = (s.engine.helpers.get? name).isSome := rfl
  simp only [Setting.bareHelper?, hr, Option.filter_some, hhas]
  cases s.engine.helpers.get? name <;> rfl

theorem renderHelper_eq (c : BlockCall) (negated : Bool) (body inverse : Setting → Render String) :
    renderHelper s c.name c.params c.hash negated (blockPart body inverse) =
      s.delegate (s.engine.helpers.get? c.name) c negated body inverse := by
  rw [renderHelper]
  cases s.engine.helpers.get? c.name <;> rfl

theorem partial?_eq (name : String) :
    s.partial? name = ((s.defined.get? name).map .template).or (s.engine.partials.get? name) := by
  rw [Setting.partial?]
  cases s.defined.get? name <;> rfl

theorem present_some (target : Registered) (name : String) (i : Invocation)
    (body : Option (List Node)) :
    s.present deeper (some target) name i body = renderPartial deeper s name i body target := by
  rw [renderPartial_eq]
  rfl

end

theorem Setting.findsBy (s : Setting) :
    s.FindsBy (s.engine.helpers.get? ·) (s.engine.partials.get? ·) where
  value deeper i escaped := by rw [renderNode, map_eq_pure_bind]
  call name params hash aliases := by
    rw [Invocation.eval]
    cases s.engine.helpers.get? name <;> rfl
  word r name hr aliases := by
    rw [Invocation.eval, bareHelper?_word hr]
    cases h : s.engine.helpers.get? name with
    | none => rfl
    | some helper => simp only [Option.map_some, h]
  blockCall name hname params hash aliases := by
    simp only [List.mem_cons, List.not_mem_nil, or_false, not_or] at hname
    simp only [blockCall?, BlockKind.of, hname, if_false]
  wordCall r name hr aliases := by
    rw [blockCall?, bareHelper?_word hr]
    cases s.engine.helpers.get? name <;> rfl
  block b c hc go := by
    rw [renderNode, ← renderHelper_eq, ← renderBlock_of_call hc]
    rfl
  alternate i c hc go body rest := by
    rw [renderAlternates, renderBranch_of_call hc, renderHelper_eq]
    simp only [map_eq_pure_bind, bind_assoc, pure_bind, bind_pure]
  partialTag deeper name i body := by
    rw [renderNode_partialTag, renderTag, PartialName.eval, Render.eval_pure, pure_bind,
      ← partial?_eq]
    split_ifs
    · rfl
    · cases s.partial? name with
      | none => rfl
      | some target => exact (present_some target name i body).symm
  computedTag deeper call i body := by
    rw [renderNode_partialTag, renderTag, PartialName.eval, Render.eval_bind, bind_assoc]
    refine bind_congr fun out => ?_
    rw [Render.eval_pure, pure_bind, renderNode_partialTag, renderTag, PartialName.eval,
      Render.eval_pure, pure_bind]

theorem Engine.rendersBy (e : Engine) :
    e.RendersBy (e.helpers.get? ·) (e.partials.get? ·) where
  render t data extra := rfl
  renderNamed name data extra := rfl
  nodes s _ left ns := by rw [renderer_eq, renderNodes_eq]
  tags := by
    rintro s rfl
    exact s.findsBy

end TextTemplate

import TextTemplate.Proofs.Walk.Levels

/-! Rendering always ends. When nothing registered fails by itself, it fails at the nesting limit
only, whatever name is unknown. -/

namespace TextTemplate

/-- A run that fails only with a failure it has heard of: one of these, or one of a part of its
block. -/
def Run.Relays {α : Type} : Run α → (EngineError → Prop) → Prop
  | .done (.ok _), _ => True
  | .done (.error e), heard => heard e
  | .render _ _ next, heard => ∀ r, (next r).Relays fun e => heard e ∨ r = .error e
  | .note _ next, heard => next.Relays heard

def Helper.Relays (h : Helper) : Prop := ∀ c, (h c).Relays fun _ => False

/-- Nothing that is registered fails by itself. -/
structure Engine.Relays (e : Engine) : Prop where
  helper : ∀ name h, e.helpers.get? name = some h → Helper.Relays h
  native : ∀ name f, e.partials.get? name = some (.native f) → ∀ v, ∃ out, f v = .ok out

namespace Eval
variable {α β : Type} {x : Eval α} {f : α → Eval β}

def Succeeds (x : Eval α) : Prop := ∀ log, ∃ a log', x log = .ok a log'

theorem succeeds_pure (a : α) : Succeeds (pure a) := fun log => ⟨a, log, rfl⟩

theorem succeeds_bind (hx : Succeeds x) (hf : ∀ a, Succeeds (f a)) : Succeeds (x >>= f) := by
  intro log
  obtain ⟨a, log', hx⟩ := hx log
  obtain ⟨b, log'', hf⟩ := hf a log'
  refine ⟨b, log'', ?_⟩
  simp only [bind, EStateM.bind, hx, hf]

end Eval

/-- Without a block there is nothing to hear of. -/
theorem Run.succeeds_alone {α : Type} (run : Run α) {heard : EngineError → Prop}
    (h : run.Relays heard) (hn : ∀ e, ¬ heard e) : run.alone.Succeeds := by
  induction run generalizing heard with
  | done r =>
    cases r with
    | ok a => exact Eval.succeeds_pure a
    | error e => exact absurd h (hn e)
  | render part context next ih =>
    refine ih (.ok "") (h (.ok "")) ?_
    rintro e (he | he)
    · exact hn e he
    · cases he
  | note message next ih =>
    intro log
    exact ih h hn (log ++ [message])

theorem Engine.Relays.succeeds {e : Engine} (he : e.Relays) : Pervasive Eval.Succeeds e where
  pure := Eval.succeeds_pure
  bind := Eval.succeeds_bind
  helper hn c := Run.succeeds_alone _ (he.helper _ _ hn c) fun _ => id

/-- The failure that the nesting limit causes. -/
def EngineError.IsLimit (limit : Nat) (e : EngineError) : Prop :=
  ∃ name, e = .nestingLimit name limit

/-- A computation that fails at the nesting limit only. -/
def Render.Limited {α : Type} (limit : Nat) (x : Render α) : Prop :=
  ∀ st e st', x st = .error e st' → e.IsLimit limit

section rules
variable {α β : Type} {limit : Nat} {x : Render α} {f : α → Render β}

theorem limited_pure (a : α) : (pure a : Render α).Limited limit := by
  intro st e st' h
  cases h

theorem limited_bind (hx : x.Limited limit) (hf : ∀ a, (f a).Limited limit) :
    (x >>= f).Limited limit := by
  intro st e st' h
  simp only [bind, EStateM.bind] at h
  cases hst : x st with
  | ok a st'' =>
    rw [hst] at h
    exact hf a st'' e st' h
  | error e' st'' =>
    rw [hst] at h
    cases h
    exact hx st e st' hst

theorem limited_map (f : α → β) (hx : x.Limited limit) : (f <$> x).Limited limit := by
  rw [map_eq_pure_bind]
  exact limited_bind hx fun a => limited_pure (f a)

theorem limited_eval {x : Eval α} (hx : x.Succeeds) : (Render.eval x).Limited limit := by
  intro st e st' h
  obtain ⟨a, log, hx⟩ := hx st.log
  simp only [Render.eval, hx] at h
  cases h

theorem limited_takePending : Render.takePending.Limited limit := by
  intro st e st' h
  cases h

theorem limited_leaving (pending : Option PendingBody) (hx : x.Limited limit) :
    (Render.leaving pending x).Limited limit := by
  intro st e st' h
  simp only [Render.leaving] at h
  cases hst : x st with
  | ok a st'' => simp [hst] at h
  | error e' st'' =>
    rw [hst] at h
    cases h
    exact hx st e st'' hst

theorem limited_withPending (pending : Option PendingBody) (hx : x.Limited limit) :
    (Render.withPending pending x).Limited limit := fun st =>
  limited_leaving st.pending hx { st with pending }

/-- What a helper hears of are failures at the limit, so that it relays no others. -/
theorem limited_within {part : Part → Option Value → Render String} (run : Run α)
    {heard : EngineError → Prop} (hp : ∀ p context, (part p context).Limited limit)
    (h : run.Relays heard) (hl : ∀ e, heard e → e.IsLimit limit) :
    (run.within part).Limited limit := by
  induction run generalizing heard with
  | done r =>
    cases r with
    | ok a => exact limited_pure a
    | error e =>
      intro st e' st' he
      cases he
      exact hl e h
  | render p context next ih =>
    intro st e st' he
    simp only [Run.within, bind, EStateM.bind, Render.attempt] at he
    cases hst : part p context st with
    | ok out st'' =>
      rw [hst] at he
      refine ih (.ok out) (h (.ok out)) ?_ st'' e st' he
      rintro e (h | h)
      · exact hl e h
      · cases h
    | error e' st'' =>
      rw [hst] at he
      refine ih (.error e') (h (.error e')) ?_ st'' e st' he
      rintro e (h | h)
      · exact hl e h
      · cases h
        exact hp p context st e' st'' hst
  | note message next ih =>
    intro st e st' he
    exact ih h hl { st with log := st.log ++ [message] } e st' he

end rules

/-- In every setting of the engine, the renderer fails at the nesting limit only. -/
def Renderer.Limited (go : Renderer) (e : Engine) : Prop :=
  ∀ s ns, s.engine = e → (go s ns).Limited e.options.maxDepth

section rendering
variable {e : Engine} {s : Setting} {go : Renderer} {body : Setting → Render String}
  {deeper : Option Renderer}

/-- The same of one list of nodes, whatever its setting. -/
def LimitedIn (e : Engine) (body : Setting → Render String) : Prop :=
  ∀ s, s.engine = e → (body s).Limited e.options.maxDepth

theorem limited_turns (hb : LimitedIn e body) (hs : s.engine = e) (aliases : List String)
    (container : Value) (length index : Nat) (items : List (Value × Value)) :
    (renderTurns body s aliases container length index items).Limited e.options.maxDepth := by
  induction items generalizing index with
  | nil => exact limited_pure ""
  | cons item items ih =>
    refine limited_bind (hb _ hs) fun out => ?_
    exact limited_bind (ih (index + 1)) fun outs => limited_pure _

theorem limited_chosen (hb : LimitedIn e body) (hs : s.engine = e) (kind : BlockKind)
    (aliases : List String) (subject : Option Value) :
    (renderChosen body s kind aliases subject).Limited e.options.maxDepth := by
  cases subject with
  | none =>
    rw [renderChosen]
    split
    · exact hb s hs
    · exact limited_pure ""
  | some v =>
    rw [renderChosen]
    split
    · exact hb s hs
    · split
      · exact limited_turns hb hs aliases v _ 0 _
      · exact hb _ hs

theorem limited_ordinary (he : e.Relays) (hb : LimitedIn e body) (hs : s.engine = e)
    (i : Invocation) (negated : Bool) (kind : BlockKind) :
    (renderOrdinary body s i negated kind).Limited e.options.maxDepth := by
  subst hs
  refine limited_bind (limited_eval (he.succeeds.subject i)) fun subject => ?_
  refine limited_bind (limited_eval (he.succeeds.holds kind i subject)) fun holds => ?_
  cases negated <;> cases holds <;> simp only [Bool.false_eq_true, if_true, if_false]
  · exact limited_pure none
  · exact limited_map some (limited_chosen hb rfl kind i.aliases subject)
  · exact limited_map some (hb s rfl)
  · exact limited_pure none

theorem limited_helper (he : e.Relays) (hs : s.engine = e) {part : Part → Setting → Render String}
    (hp : ∀ p, LimitedIn e (part p)) (name : String) (params : List Reference)
    (hash : List (String × Reference)) (negated : Bool) :
    (renderHelper s name params hash negated part).Limited e.options.maxDepth := by
  subst hs
  rw [renderHelper]
  cases hn : s.engine.helpers.get? name with
  | none => exact limited_pure ""
  | some helper =>
    refine limited_bind (limited_eval (he.succeeds.evalParams params)) fun args => ?_
    refine limited_bind (limited_eval (he.succeeds.evalHash hash [])) fun hash => ?_
    refine limited_bind ?_ fun out => limited_pure _
    refine limited_within _ ?_ (he.helper name helper hn _) fun _ => False.elim
    intro p context
    cases context with
    | none => exact hp _ _ rfl
    | some context => exact hp _ _ rfl

theorem limited_branch (he : e.Relays) (hs : s.engine = e) (hb : LimitedIn e body)
    {inverse : Setting → Render String} (hi : LimitedIn e inverse) (i : Invocation)
    (negated : Bool) : (renderBranch s i negated body inverse).Limited e.options.maxDepth := by
  have hp : ∀ p, LimitedIn e (blockPart body inverse p) := by
    intro p
    cases p with
    | body => exact hb
    | inverse => exact hi
  rw [renderBranch_eq]
  split
  · exact limited_map some (limited_helper he hs hp _ _ _ _)
  · exact limited_map some (limited_helper he hs hp _ _ _ _)
  · exact limited_ordinary he hb hs i negated _

theorem limited_alternates (he : e.Relays) (hgo : go.Limited e) (alternates : List Alternate) :
    LimitedIn e fun s => renderAlternates go s alternates := by
  induction alternates with
  | nil => exact fun s _ => limited_pure ""
  | cons alternate rest ih =>
    obtain ⟨condition, nodes⟩ := alternate
    intro s hs
    have hb : LimitedIn e (go · nodes) := fun s hs => hgo s nodes hs
    cases condition with
    | none => exact hb s hs
    | some condition =>
      dsimp only
      rw [renderAlternates]
      refine limited_bind (limited_branch he hs hb ih condition false) fun out => ?_
      cases out with
      | none => exact ih s hs
      | some out => exact limited_pure out

theorem limited_block (he : e.Relays) (hgo : go.Limited e) (hs : s.engine = e) (b : Block) :
    (renderBlock go s b).Limited e.options.maxDepth := by
  have hi := limited_alternates he hgo b.alternates
  have hb : LimitedIn e (go · b.body) := fun s hs => hgo s b.body hs
  refine limited_bind (limited_branch he hs hb hi b.invocation b.negated) fun out => ?_
  cases out with
  | none => exact hi s hs
  | some out => exact limited_pure out

theorem limited_descend {name : String} {f : Renderer → Render String} (hs : s.engine = e)
    (hf : ∀ go, deeper = some go → (f go).Limited e.options.maxDepth) :
    (do let go ← s.descend deeper name; f go).Limited e.options.maxDepth := by
  subst hs
  cases deeper with
  | none =>
    intro st e st' h
    cases h
    exact ⟨name, rfl⟩
  | some go => exact hf go rfl

theorem limited_partial (he : e.Relays) (hd : ∀ go, deeper = some go → go.Limited e)
    (hs : s.engine = e) (name : String) (i : Invocation) (body : Option (List Node))
    {target : Registered} (ht : s.partial? name = some target) :
    (renderPartial deeper s name i body target).Limited e.options.maxDepth := by
  subst hs
  rw [renderPartial_eq]
  refine limited_bind (limited_eval (he.succeeds.contextFor i)) fun context => ?_
  refine limited_bind (limited_eval (he.succeeds.evalHash i.hash [])) fun hash => ?_
  cases target with
  | native f =>
    have hf : s.engine.partials.get? name = some (.native f) := by
      rw [Setting.partial?] at ht
      cases hdef : s.defined.get? name with
      | none => simpa [hdef] using ht
      | some t => simp [hdef] at ht
    obtain ⟨out, hout⟩ := he.native name f hf context
    simp only [hout]
    exact limited_pure out
  | template t =>
    refine limited_withPending _ ?_
    exact limited_descend rfl fun go hgo => hd go hgo _ _ rfl

theorem limited_partialTag (he : e.Relays) (hd : ∀ go, deeper = some go → go.Limited e)
    (hs : s.engine = e) (name : PartialName) (i : Invocation) (body : Option (List Node))
    {fallback : Render String} (hf : fallback.Limited e.options.maxDepth) :
    Render.Limited e.options.maxDepth (do
      let name ← .eval (name.eval s)
      if name = partialBlockName then
        match ← .takePending with
        | some p => renderPending deeper s p
        | none => fallback
      else
        match s.partial? name with
        | some target => renderPartial deeper s name i body target
        | none => fallback) := by
  have hname : (name.eval s).Succeeds := by
    subst hs
    exact he.succeeds.partialName name
  refine limited_bind (limited_eval hname) fun name => ?_
  by_cases hn : name = partialBlockName
  · simp only [hn, if_true]
    refine limited_bind limited_takePending fun pending => ?_
    cases pending with
    | none => exact hf
    | some p =>
      refine limited_descend hs fun go hgo => limited_leaving _ ?_
      exact hd go hgo _ _ hs
  · simp only [hn, if_false]
    cases ht : s.partial? name with
    | none => exact hf
    | some target => exact limited_partial he hd hs name i body ht

mutual

theorem limited_node (he : e.Relays) (hd : ∀ go, deeper = some go → go.Limited e)
    (hs : s.engine = e) : ∀ n, (renderNode deeper s n).Limited e.options.maxDepth
  | .text text => limited_pure text
  | .value i escaped => by
    rw [renderNode]
    have hv : (i.eval s).Succeeds := by
      subst hs
      exact he.succeeds.invocation i
    exact limited_bind (limited_eval hv) fun out => limited_pure _
  | .block b => by
    rw [renderNode]
    exact limited_descend hs fun go hgo => limited_block he (hd go hgo) hs b
  | .partialTag ⟨name, i, some nodes⟩ => by
    rw [renderNode]
    exact limited_partialTag he hd hs name i (some nodes) (limited_nodes he hd hs nodes)
  | .partialTag ⟨name, i, none⟩ => by
    rw [renderNode]
    exact limited_partialTag he hd hs name i none (limited_pure "")

theorem limited_nodes (he : e.Relays) (hd : ∀ go, deeper = some go → go.Limited e)
    (hs : s.engine = e) : ∀ ns, (renderNodes deeper s ns).Limited e.options.maxDepth
  | [] => limited_pure ""
  | n :: ns => by
    rw [renderNodes]
    refine limited_bind (limited_node he hd hs n) fun out => ?_
    exact limited_bind (limited_nodes he hd hs ns) fun outs => limited_pure _

end

theorem limited_renderer (he : e.Relays) (levels : Nat) : Renderer.Limited (renderer levels) e := by
  induction levels with
  | zero =>
    intro s ns hs
    refine limited_nodes he ?_ hs ns
    rintro _ ⟨⟩
  | succ levels ih =>
    intro s ns hs
    refine limited_nodes he ?_ hs ns
    rintro _ ⟨⟩
    exact ih

end rendering

namespace Engine

/-- Rendering ends: a walk that may go one level deeper than the nesting limit comes to it. It fails
at the limit only, unless something registered fails by itself. -/
theorem render_ends (e : Engine) (he : e.Relays) (t : Template) (data : Value)
    (extra : Option Value) :
    (∀ levels, e.options.maxDepth < levels →
      Walk.template levels e t data extra = some (e.render t data extra)) ∧
    ((∃ out, (e.render t data extra).result = .ok out) ∨
      ∃ name, (e.render t data extra).result = .error (.nestingLimit name e.options.maxDepth)) := by
  refine ⟨fun levels hl => Walk.template_eq e t data extra hl, ?_⟩
  have hlimited := limited_renderer he e.options.maxDepth
    (Walker.start e t data extra).setting t.nodes rfl
  simp only [Walker.start] at hlimited
  rw [Engine.render]
  cases h : renderer e.options.maxDepth _ t.nodes ⟨none, []⟩ with
  | ok out st => exact .inl ⟨out, rfl⟩
  | error err st =>
    obtain ⟨name, rfl⟩ := hlimited _ _ _ h
    exact .inr ⟨name, rfl⟩

/-- A template that includes what is registered as `self`. -/
def again : Template := ⟨[.partialTag ⟨.fixed "self", .empty, none⟩], []⟩

/-- An engine with a partial that includes itself, a helper that wraps its block, and a native
partial. -/
def looping : Engine where
  options := { maxDepth := 3 }
  helpers := [("log", Helper.log), ("wrap", fun _ => do
    let out ← Run.body none
    pure (.safe out))]
  partials := [("self", .template again), ("now", .native fun _ => .ok "noon")]

theorem render_ends_looping :
    looping.Relays ∧
      (∀ levels, looping.options.maxDepth < levels →
        Walk.template levels looping again .null none = some (looping.render again .null none)) ∧
      ((∃ out, (looping.render again .null none).result = .ok out) ∨
        ∃ name, (looping.render again .null none).result =
          .error (.nestingLimit name looping.options.maxDepth)) := by
  have he : looping.Relays := by
    constructor
    · intro name h hn c
      simp only [looping, Dict.get?_cons, Dict.get?_nil] at hn
      split at hn
      · cases hn
        exact trivial
      · split at hn
        · cases hn
          rintro (e | out)
          · exact .inr rfl
          · exact trivial
        · cases hn
    · intro name f hn v
      simp only [looping, Dict.get?_cons, Dict.get?_nil] at hn
      split at hn
      · cases hn
      · split at hn
        · cases hn
          exact ⟨_, rfl⟩
        · cases hn
  exact ⟨he, render_ends looping he again .null none⟩

end Engine
end TextTemplate

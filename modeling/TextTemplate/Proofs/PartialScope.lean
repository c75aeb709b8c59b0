import TextTemplate.Proofs.NestingLimit

/-! With a limited scope, a partial sees what its tag gives it and nothing else of where the tag
stands. -/

namespace TextTemplate

/-- What was logged before does not matter to a value. -/
theorem Eval.Appends.ok_of_ok {α : Type} {x : Eval α} (hx : x.Appends) {a : α}
    {log log' : List String} (h : x log = .ok a log') (other : List String) :
    ∃ log, x other = .ok a log := by
  obtain ⟨r, notes, hr⟩ := hx
  rw [hr] at h
  cases r with
  | error e => cases h
  | ok b =>
    cases h
    exact ⟨other ++ notes, hr other⟩

/-- What a node comes to where the walker stands. -/
def Walker.outcome (w : Walker) (n : Node) : Outcome String :=
  (renderNode (deeperAt w.setting.engine w.depth) w.setting n).outcome ⟨w.pending, w.log⟩

/-- Where the walker stands, the evaluation gives this value. -/
def Walker.Gives {α : Type} (w : Walker) (x : Setting → Eval α) (a : α) : Prop :=
  ∃ log, x w.setting w.log = .ok a log

/-- A tag may call a partial here: no template around it defines one, and levels are left. -/
structure Walker.MayCall (w : Walker) (e : Engine) (extra : Option Value) : Prop where
  setting_of : w.setting.Of e extra
  defined_eq : w.setting.defined = []
  depth_lt : w.depth < e.options.maxDepth

/-- The same failure, whatever the number of the nesting limit. -/
def EngineError.forgetLimit : EngineError → EngineError
  | nestingLimit name _ => .nestingLimit name 0
  | e => e

/-- Failures are the same up to the number of the nesting limit. -/
def Tolerance.renumbered : Tolerance where
  excused _ := False
  alike e e' := e.forgetLimit = e'.forgetLimit
  refl _ := rfl

/-- A tag of a partial with one argument and hash arguments, without a body. -/
def partialTagWith (name : String) (r : Reference) (hash : List (String × Reference)) : Node :=
  .partialTag ⟨.fixed name, ⟨none, [r], hash, []⟩, none⟩

/-- The setting of a partial that sees only what it is given. -/
def Engine.startWith (e : Engine) (t : Template) (context : Value) (vars : Dict Value)
    (extra : Option Value) : Setting where
  engine := e
  extra := extra
  scope := ⟨⟨context, vars, none⟩, []⟩
  defined := Dict.insertAll [] t.partials

namespace Walker
variable {w : Walker} {name : String} {i : Invocation} {body : Option (List Node)} {t : Template}

/-- What a tag comes to where the walker stands when it renders this template. -/
def including (w : Walker) (name : String) (i : Invocation) (body : Option (List Node))
    (t : Template) : Outcome String :=
  (renderPartial (deeperAt w.setting.engine w.depth) w.setting name i body (.template t)).outcome
    ⟨w.pending, w.log⟩

theorem outcome_partialTag (hn : name ≠ partialBlockName)
    (hp : w.setting.partial? name = some (.template t)) :
    w.outcome (.partialTag ⟨.fixed name, i, body⟩) = w.including name i body t := by
  have hname : (PartialName.fixed name).eval w.setting w.log = .ok name w.log := rfl
  rw [outcome, including, renderNode_partialTag, renderTag, outcome_eval hname, if_neg hn, hp]

end Walker

section
variable {e : Engine} {extra : Option Value} {name : String} {t : Template} {w w' : Walker}
variable {r : Reference} {hash : List (String × Reference)} {v : Option Value} {vars : Dict Value}

/-- The tag renders the partial as a template of its own, with fewer levels left. -/
theorem outcome_partialTagWith (hl : e.options.limitPartialScope = true)
    (hn : name ≠ partialBlockName) (hp : e.partials.get? name = some (.template t))
    (hw : w.MayCall e extra) (hv : w.Gives r.eval v)
    (hvars : w.Gives (evalHash · hash []) vars) :
    ∃ log, w.outcome (partialTagWith name r hash) =
      (renderer (e.options.maxDepth - w.depth - 1) (e.startWith t (v.getD .null) vars extra)
        t.nodes).outcome ⟨none, log⟩ := by
  obtain ⟨⟨rfl, rfl⟩, hd, hlt⟩ := hw
  obtain ⟨log₁, hv⟩ := hv
  obtain ⟨log, hvars⟩ := hvars
  obtain ⟨log₂, hvars⟩ := ((Eval.appends _).evalHash hash []).ok_of_ok hvars log₁
  refine ⟨log₂, ?_⟩
  have hfound : w.setting.partial? name = some (.template t) := by
    simp only [Setting.partial?, hd, Dict.get?_nil, hp]
  have hcontext : w.setting.contextFor ⟨none, [r], hash, []⟩ w.log =
      .ok (v.getD .null) log₁ := by
    simp only [Setting.contextFor, bind, EStateM.bind, hv]
    rfl
  have henter : w.setting.enter ⟨v.getD .null, vars, none⟩ t =
      w.setting.engine.startWith t (v.getD .null) vars w.setting.extra := by
    simp only [Setting.enter, hl, if_true, hd]
    rfl
  have hlevels : deeperAt w.setting.engine w.depth =
      some (renderer (w.setting.engine.options.maxDepth - w.depth - 1)) := by
    have hl : w.levels = w.setting.engine.options.maxDepth - w.depth - 1 + 1 := by
      rw [Walker.levels]
      omega
    rw [w.deeperAt_eq, hl]
    rfl
  rw [partialTagWith, Walker.outcome_partialTag hn hfound, Walker.including, renderPartial_eq,
    outcome_eval hcontext, outcome_eval hvars]
  dsimp only
  rw [outcome_withPending, hlevels, henter]
  rfl

/-- The partial comes to the same as when it is rendered by itself about the argument. -/
theorem partial_eq_render (he : e.Propagates) (hl : e.options.limitPartialScope = true)
    (hn : name ≠ partialBlockName) (hp : e.partials.get? name = some (.template t))
    (hw : w.MayCall e extra) (hv : w.Gives r.eval v) :
    (w.outcome (partialTagWith name r [])).mapError EngineError.forgetLimit =
      ((e.withLimit (e.options.maxDepth - w.depth - 1)).render t (v.getD .null)
        extra).result.mapError EngineError.forgetLimit := by
  have hnone : w.Gives (evalHash · [] []) [] := ⟨w.log, rfl⟩
  obtain ⟨log, hw⟩ := outcome_partialTagWith hl hn hp hw hv hnone
  rw [hw, Engine.result_render, Walker.directly, Walker.direct_eq]
  generalize e.options.maxDepth - w.depth - 1 = left
  have hspans : Tolerance.renumbered.Spans e (e.withLimit left) left left :=
    .inl ⟨rfl, fun _ => rfl⟩
  have hlike := like_renderer (kin_withLimit e e.options.maxDepth left) he hspans t.nodes
    (e.startWith t (v.getD .null) [] extra) ⟨rfl, rfl⟩
  have hstate : (⟨none, log⟩ : RenderState).pending = (⟨none, []⟩ : RenderState).pending := rfl
  rcases hlike.outcome hstate fun _ _ => id with
    ⟨out, h₁, h₂⟩ | ⟨err, err', h₁, h₂, h⟩
  · rw [h₁]
    exact congrArg (Except.mapError _) h₂.symm
  · rw [h₁]
    refine .trans ?_ (congrArg (Except.mapError _) h₂.symm)
    exact congrArg Except.error h

/-- Two callers that give the partial the same see the same. If one of them stands deeper, then only
as far as the nesting limit does not stop it there. -/
theorem partial_eq_partial (he : e.Propagates) (hl : e.options.limitPartialScope = true)
    (hn : name ≠ partialBlockName) (hp : e.partials.get? name = some (.template t))
    (hw : w.MayCall e extra) (hw' : w'.MayCall e extra) {v' : Option Value}
    (hv : w.Gives r.eval v) (hv' : w'.Gives r.eval v') (hvv : v.getD .null = v'.getD .null)
    (hvars : w.Gives (evalHash · hash []) vars) (hvars' : w'.Gives (evalHash · hash []) vars)
    (hd : w.depth ≤ w'.depth)
    (hlim : w.depth = w'.depth ∨ ∀ called n,
      w'.outcome (partialTagWith name r hash) ≠ .error (.nestingLimit called n)) :
    w.outcome (partialTagWith name r hash) = w'.outcome (partialTagWith name r hash) := by
  obtain ⟨log, h⟩ := outcome_partialTagWith hl hn hp hw hv hvars
  obtain ⟨log', h'⟩ := outcome_partialTagWith hl hn hp hw' hv' hvars'
  rw [h'] at hlim
  rw [h, h', hvv]
  have hs : (e.startWith t (v'.getD .null) vars extra).Of e extra := ⟨rfl, rfl⟩
  rcases hlim with heq | hlim
  · have hspans : Tolerance.exact.Spans e e (e.options.maxDepth - w'.depth - 1)
        (e.options.maxDepth - w.depth - 1) := .inl ⟨by rw [heq], fun _ => rfl⟩
    have hlike := like_renderer (kin_refl e) he hspans t.nodes _ hs
    exact hlike.outcome_exact rfl
  · have hspans : Tolerance.limited.Spans e e (e.options.maxDepth - w'.depth - 1)
        (e.options.maxDepth - w.depth - 1) := .inr ⟨by omega, fun name => ⟨name, _, rfl⟩⟩
    have hlike := like_renderer (kin_refl e) he hspans t.nodes _ hs
    exact hlike.outcome_limited rfl hlim

/-- A partial sees its argument, its hash arguments and the extra data, whatever the frames of its
caller and the body that is pending there. -/
theorem limited_partial_sees_its_arguments (he : e.Propagates)
    (hl : e.options.limitPartialScope = true) (hn : name ≠ partialBlockName)
    (hp : e.partials.get? name = some (.template t)) :
    (∀ (w : Walker) r v, w.MayCall e extra → w.Gives r.eval v →
      (w.outcome (partialTagWith name r [])).mapError EngineError.forgetLimit =
        ((e.withLimit (e.options.maxDepth - w.depth - 1)).render t (v.getD .null)
          extra).result.mapError EngineError.forgetLimit) ∧
    ∀ (w w' : Walker) r hash v v' vars, w.MayCall e extra → w'.MayCall e extra →
      w.Gives r.eval v → w'.Gives r.eval v' → v.getD .null = v'.getD .null →
      w.Gives (evalHash · hash []) vars → w'.Gives (evalHash · hash []) vars →
      w.depth ≤ w'.depth →
      (w.depth = w'.depth ∨ ∀ called n,
        w'.outcome (partialTagWith name r hash) ≠ .error (.nestingLimit called n)) →
      w.outcome (partialTagWith name r hash) = w'.outcome (partialTagWith name r hash) :=
  ⟨fun _ _ _ hw hv => partial_eq_render he hl hn hp hw hv,
    fun _ _ _ _ _ _ _ hw hw' hv hv' hvv hvars hvars' hd hlim =>
      partial_eq_partial he hl hn hp hw hw' hv hv' hvv hvars hvars' hd hlim⟩

end

/-- Shows `x`, and `k` one level deeper. -/
def showing : Template := ⟨[
  .value ⟨none, [.path ⟨["x"], 0, false⟩], [], []⟩ true,
  .block ⟨"if", ⟨some "if", [.path ⟨["k"], 0, false⟩], [], []⟩, false,
    [.value ⟨none, [.path ⟨["k"], 0, false⟩], [], []⟩ true], []⟩], []⟩

/-- An engine with it as a partial, also under the name that stands for a pending body. -/
def showingEngine (limit : Nat) : Engine :=
  { Engine.create { maxDepth := limit } with
    partials := [("p", .template showing), (partialBlockName, .template showing)] }

/-- A caller in that engine, so many levels deep, with a body pending. -/
def showingCaller (limit depth : Nat) (scope : Scope) : Walker where
  setting := { engine := showingEngine limit, extra := none, scope, defined := [] }
  pending := some ⟨[.text "body"], .ofContext .null, []⟩
  depth := depth
  log := []
  events := []

/-- Something to be shown. -/
def showable : Value := .object [("x", .string "<x>")]

/-- A scope that has it as `u` in the data. -/
def dataScope : Scope := .ofContext (.object [("u", showable)])

/-- A scope that has it as `u` in a binding of the loop around it, and another `x` in its own. -/
def loopScope : Scope :=
  ⟨⟨.null, [("x", .string "own")], none⟩,
    [⟨.null, [("u", showable)], some ⟨1, .string "key", 2, .null⟩⟩, .of .null]⟩

theorem limited_partial_sees_its_arguments_in_loop :
    ((showingCaller 9 2 loopScope).outcome
        (partialTagWith "p" (.path ⟨["u"], 0, false⟩) [])).mapError EngineError.forgetLimit =
      (((showingEngine 9).withLimit 6).render showing showable none).result.mapError
        EngineError.forgetLimit ∧
    (showingCaller 9 2 loopScope).outcome
        (partialTagWith "p" (.path ⟨["u"], 0, false⟩) [("k", .literal (.string "k"))]) =
      (showingCaller 9 5 dataScope).outcome
        (partialTagWith "p" (.path ⟨["u"], 0, false⟩) [("k", .literal (.string "k"))]) ∧
    (showingCaller 9 5 dataScope).outcome
        (partialTagWith "p" (.path ⟨["u"], 0, false⟩) [("k", .literal (.string "k"))]) =
      .ok "&lt;x&gt;k" := by
  have hl : (showingEngine 9).options.limitPartialScope = true := rfl
  have hp : (showingEngine 9).partials.get? "p" = some (.template showing) := rfl
  have main := @limited_partial_sees_its_arguments _ none _ _
    (fun _ _ => builtin_propagates) hl (by decide) hp
  have hloop : (showingCaller 9 2 loopScope).MayCall (showingEngine 9) none :=
    ⟨⟨rfl, rfl⟩, rfl, by decide⟩
  have hdata : (showingCaller 9 5 dataScope).MayCall (showingEngine 9) none :=
    ⟨⟨rfl, rfl⟩, rfl, by decide⟩
  have hu : (showingCaller 9 2 loopScope).Gives (Reference.path ⟨["u"], 0, false⟩).eval
      (some showable) := ⟨[], rfl⟩
  have hu' : (showingCaller 9 5 dataScope).Gives (Reference.path ⟨["u"], 0, false⟩).eval
      (some showable) := ⟨[], rfl⟩
  have hout : (showingCaller 9 5 dataScope).outcome
      (partialTagWith "p" (.path ⟨["u"], 0, false⟩) [("k", .literal (.string "k"))]) =
        .ok "&lt;x&gt;k" := by rfl
  refine ⟨main.1 _ _ _ hloop hu, ?_, hout⟩
  refine main.2 _ _ _ _ _ _ [("k", .string "k")] hloop hdata hu hu' rfl ⟨[], rfl⟩ ⟨[], rfl⟩
    (by decide) (.inr ?_)
  intro called n
  rw [hout]
  nofun

/-- A partial under the reserved name is not what a tag of that name shows. And of two callers that
give the same, the deeper one may be stopped by the nesting limit. -/
theorem limited_partial_exceptions :
    ((showingEngine 9).partials.get? partialBlockName = some (.template showing) ∧
      (showingCaller 9 0 dataScope).outcome
        (partialTagWith partialBlockName (.path ⟨["u"], 0, false⟩) []) = .ok "body" ∧
      (((showingEngine 9).withLimit 8).render showing showable none).result = .ok "&lt;x&gt;") ∧
    (showingCaller 2 0 dataScope).outcome
        (partialTagWith "p" (.path ⟨["u"], 0, false⟩) [("k", .literal (.string "k"))]) =
      .ok "&lt;x&gt;k" ∧
    (showingCaller 2 1 dataScope).outcome
        (partialTagWith "p" (.path ⟨["u"], 0, false⟩) [("k", .literal (.string "k"))]) =
      .error (.nestingLimit "if" 2) := by
  refine ⟨⟨rfl, rfl, rfl⟩, rfl, rfl⟩

end TextTemplate

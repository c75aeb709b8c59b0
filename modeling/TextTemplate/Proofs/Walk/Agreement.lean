import TextTemplate.Proofs.Walk.Course

/-! Walking does what rendering does, construct by construct and level by level. -/

namespace TextTemplate

/-- The walker stands in this setting of the engine, so many levels deep. -/
def At (e : Engine) (d : Nat) (s : Setting) (w : Walker) : Prop :=
  w.setting = s ∧ s.engine = e ∧ w.depth = d

/-- `go` renders lists of nodes as `inner` walks them, `d` levels deep. -/
def Serves (inner : List Node → Walk (Outcome String)) (go : Renderer) (e : Engine) (d : Nat) :
    Prop :=
  ∀ s w ns, At e d s w → Follows (inner ns) (go s ns) w

variable {inner : List Node → Walk (Outcome String)} {go : Renderer}
variable {e : Engine} {d : Nat} {s : Setting} {w : Walker}

theorem At.push (h : At e d s w) (f : Frame) :
    At e d (s.push f) { w with setting := w.setting.push f } := by
  obtain ⟨hs, he, hd⟩ := h
  exact ⟨congrArg (·.push f) hs, he, hd⟩

/-- A frame is on top of the scope meanwhile. -/
theorem At.follows_push {α : Type} {m : Walk (Outcome α)} {x : Render α} (h : At e d s w)
    (f : Frame)
    (hm : ∀ w', At e d (s.push f) w' → Follows m x w') :
    Follows (do Walk.change (·.push f); let r ← m; Walk.change (·.pop); pure r) x w :=
  follows_inside (Setting.pop_push w.setting f) (hm _ (h.push f))

theorem At.follows_eval {α : Type} {f : Setting → Eval α} (h : At e d s w)
    (hf : Eval.Appends (f s)) : Follows (Walk.eval f) (.eval (f s)) w := by
  obtain ⟨rfl, _, _⟩ := h
  exact TextTemplate.follows_eval hf rfl

section blocks
variable {body : List Node} {rest : Walk (Outcome String)}

theorem follows_inFrame (hgo : Serves inner go e d) (body : List Node) (f : Frame)
    (h : At e d s w) : Follows (Walk.inFrame inner f body) (go (s.push f) body) w := by
  rw [Walk.inFrame]
  exact h.follows_push f fun w' h' => hgo _ w' body h'

theorem follows_turns (hgo : Serves inner go e d) (body : List Node) (aliases : List String)
    (container : Value) (length index : Nat) (items : List (Value × Value)) (h : At e d s w) :
    Follows (Walk.turns inner aliases container length index body items)
      (renderTurns (go · body) s aliases container length index items) w := by
  induction items generalizing index w with
  | nil =>
    rw [Walk.turns, renderTurns]
    exact follows_pure ""
  | cons item items ih =>
    obtain ⟨key, value⟩ := item
    rw [Walk.turns, renderTurns]
    refine follows_bind (follows_inFrame hgo body _ h) (fun _ => rfl) fun out pending => ?_
    obtain ⟨rfl, he, hd⟩ := h
    refine follows_get ?_ fun _ _ => rfl
    refine follows_bind ?_ (fun _ => rfl) fun outs pending => follows_pure _
    exact ih (index + 1) ⟨rfl, he, hd⟩

/-- The body of a branch that is taken. -/
def renderChosen (body : Setting → Render String) (s : Setting) (kind : BlockKind)
    (aliases : List String) : Option Value → Render String
  | none => if kind = .ifTrue ∨ kind = .ifFalse then body s else pure ""
  | some v =>
    if kind = .ifTrue ∨ kind = .ifFalse then body s
    else if kind = .each ∨ kind = .plain ∧ v.isArray then renderEach body s aliases v
    else body (s.push (.binding v aliases [v]))

theorem follows_chosen (hgo : Serves inner go e d) (kind : BlockKind) (aliases : List String)
    (subject : Option Value) (h : At e d s w) :
    Follows (Walk.chosen inner kind aliases subject body)
      (renderChosen (go · body) s kind aliases subject) w := by
  have hlist := hgo s w body h
  have hturns := fun v : Value => follows_turns hgo body aliases v v.items.length 0 v.items h
  have hframe := fun v : Value => follows_inFrame hgo body (.binding v aliases [v]) h
  rw [Walk.chosen.eq_def]
  cases subject with
  | none => cases kind <;> first | exact hlist | exact follows_pure ""
  | some v =>
    cases kind with
    | ifTrue | ifFalse => exact hlist
    | each => exact hturns v
    | withValue | helper => simpa [renderChosen] using hframe v
    | plain =>
      by_cases hv : v.isArray
      · simpa [renderChosen, renderEach, hv] using hturns v
      · simpa [renderChosen, hv] using hframe v

/-- How the two parts of a block are walked; `rest` walks what follows the body. -/
def PartsServe (inner : List Node → Walk (Outcome String)) (part : Part → Setting → Render String)
    (body : List Node) (rest : Walk (Outcome String)) (e : Engine) (d : Nat) : Prop :=
  ∀ p s w, At e d s w → Follows (Walk.partHere inner p body rest) (part p s) w

variable {part : Part → Setting → Render String}

theorem follows_part (hp : PartsServe inner part body rest e d) (p : Part) (context : Option Value)
    (h : At e d s w) :
    Follows (Walk.part inner p context body rest) (part p (s.about context)) w := by
  rw [Walk.part.eq_def]
  cases context with
  | none => exact hp p s w h
  | some context => exact h.follows_push (.of context) fun w' h' => hp p _ w' h'

theorem follows_run (hp : PartsServe inner part body rest e d) (negated : Bool)
    (run : Run HelperOutput) (h : At e d s w) :
    Follows (Walk.run inner negated body rest run)
      (run.within fun p context => part (if negated then p.other else p) (s.about context)) w := by
  induction run generalizing w with
  | done r =>
    rw [Walk.run]
    exact follows_outcome r
  | render p context next ih =>
    rw [Walk.run]
    refine follows_attempt (follows_part hp _ context h) fun r pending => ?_
    exact ih r h
  | note message next ih =>
    rw [Walk.run]
    exact follows_note message (ih h)

theorem follows_helper (hp : PartsServe inner part body rest e d) (name : String)
    (params : List Reference) (hash : List (String × Reference)) (negated : Bool)
    (h : At e d s w) :
    Follows (Walk.helper inner name params hash negated body rest)
      (renderHelper s name params hash negated part) w := by
  obtain ⟨rfl, he, hd⟩ := h
  rw [Walk.helper, renderHelper]
  refine follows_get ?_ fun _ _ => rfl
  cases w.setting.engine.helpers.get? name with
  | none => exact follows_pure ""
  | some helper =>
    refine follows_bind (follows_eval ((Eval.appends _).evalParams params) rfl)
      (fun _ => rfl) fun args pending => ?_
    refine follows_bind (follows_eval ((Eval.appends _).evalHash hash []) rfl)
      (fun _ => rfl) fun hash pending => ?_
    refine follows_get ?_ fun _ _ => rfl
    refine follows_bind (follows_run hp negated _ ⟨rfl, he, hd⟩)
      (fun _ => rfl) fun out pending => ?_
    exact follows_get (follows_pure _) fun _ _ => rfl

/-- A branch that no helper decides on. -/
def renderOrdinary (body : Setting → Render String) (s : Setting) (i : Invocation)
    (negated : Bool) (kind : BlockKind) : Render (Option String) := do
  let subject ← .eval (i.subject s)
  let holds ← .eval (s.holds kind i subject)
  if negated then
    if holds then pure none else some <$> body s
  else if holds then some <$> renderChosen body s kind i.aliases subject
  else pure none

theorem some_renderChosen (body : Setting → Render String) (kind : BlockKind)
    (aliases : List String) (subject : Option Value) :
    some <$> renderChosen body s kind aliases subject =
      match kind, subject with
      | .ifTrue, _ => some <$> body s
      | .ifFalse, _ => some <$> body s
      | _, none => pure (some "")
      | .each, some v => some <$> renderEach body s aliases v
      | kind, some v =>
        if kind = .plain ∧ v.isArray then some <$> renderEach body s aliases v
        else some <$> body (s.push (.binding v aliases [v])) := by
  cases subject with
  | none => cases kind <;> rfl
  | some v => cases kind <;> cases hv : v.isArray <;> simp [renderChosen, hv]

theorem follows_ordinary (hgo : Serves inner go e d) (body : List Node) (i : Invocation)
    (negated : Bool) (kind : BlockKind) (h : At e d s w) :
    Follows (Walk.ordinary inner i negated kind body)
      (renderOrdinary (go · body) s i negated kind) w := by
  rw [Walk.ordinary, renderOrdinary]
  refine follows_bind (h.follows_eval ((Eval.appends _).subject i))
    (fun _ => rfl) fun subject pending => ?_
  refine follows_bind (At.follows_eval h ((Eval.appends _).holds kind i subject))
    (fun _ => rfl) fun holds pending => ?_
  cases negated <;> cases holds <;> simp only [Bool.false_eq_true, if_true, if_false]
  · exact follows_pure none
  · exact follows_map some (follows_chosen hgo kind i.aliases subject h) (fun _ => rfl) fun _ => rfl
  · exact follows_map some (hgo s _ body h) (fun _ => rfl) fun _ => rfl
  · exact follows_pure none

/-- The two parts of a block. -/
def blockPart (body inverse : Setting → Render String) : Part → Setting → Render String
  | .body => body
  | .inverse => inverse

theorem partsServe (hgo : Serves inner go e d) (body : List Node)
    {inverse : Setting → Render String} (hi : ∀ s w, At e d s w → Follows rest (inverse s) w) :
    PartsServe inner (blockPart (go · body) inverse) body rest e d := by
  intro p s w h
  cases p with
  | body =>
    rw [Walk.partHere]
    exact hgo s w body h
  | inverse =>
    rw [Walk.partHere]
    exact hi s w h

theorem renderBranch_eq (i : Invocation) (negated : Bool) (body inverse : Setting → Render String) :
    renderBranch s i negated body inverse =
      match i.helper, BlockKind.of i, s.bareHelper? i with
      | some name, .helper, _ =>
        some <$> renderHelper s name i.params i.hash negated (blockPart body inverse)
      | _, .plain, some name => some <$> renderHelper s name [] [] negated (blockPart body inverse)
      | _, kind, _ => renderOrdinary body s i negated kind := by
  simp only [renderBranch, renderOrdinary, some_renderChosen]
  generalize i.helper = helper, BlockKind.of i = kind, s.bareHelper? i = bare
  cases helper <;> cases kind <;> cases bare <;> rfl

theorem follows_branch (hgo : Serves inner go e d) {inverse : Setting → Render String}
    (hi : ∀ s w, At e d s w → Follows rest (inverse s) w) (i : Invocation)
    (negated : Bool) (h : At e d s w) :
    Follows (Walk.branch inner i negated body rest)
      (renderBranch s i negated (go · body) inverse) w := by
  have ho := fun kind => follows_ordinary hgo body i negated kind h
  have hh := fun name params hash =>
    follows_helper (partsServe hgo body hi) name params hash negated h
  obtain ⟨rfl, -, -⟩ := h
  rw [Walk.branch, renderBranch_eq]
  refine follows_get ?_ fun _ _ => rfl
  generalize i.helper = helper, BlockKind.of i = kind, w.setting.bareHelper? i = bare
  cases kind with
  | helper =>
    cases helper with
    | none => cases bare <;> exact ho _
    | some name => exact follows_map some (hh _ _ _) (fun _ => rfl) fun _ => rfl
  | plain =>
    cases bare with
    | none => cases helper <;> exact ho _
    | some name => cases helper <;> exact follows_map some (hh _ _ _) (fun _ => rfl) fun _ => rfl
  | ifTrue | ifFalse | each | withValue => cases helper <;> exact ho _

theorem follows_alternates (hgo : Serves inner go e d) (alternates : List Alternate)
    (h : At e d s w) :
    Follows (Walk.alternates inner alternates) (renderAlternates go s alternates) w := by
  induction alternates generalizing s w with
  | nil =>
    rw [Walk.alternates, renderAlternates]
    exact follows_pure ""
  | cons alternate rest ih =>
    obtain ⟨condition, body⟩ := alternate
    cases condition with
    | none =>
      rw [Walk.alternates, renderAlternates]
      exact hgo s w body h
    | some condition =>
      rw [Walk.alternates, renderAlternates]
      have hi := fun s w h => ih (s := s) (w := w) h
      refine follows_bind (follows_branch hgo hi condition false h)
        (fun _ => rfl) fun out pending => ?_
      cases out with
      | none => exact ih h
      | some out => exact follows_pure out

theorem follows_block (hgo : Serves inner go e d) (b : Block) (h : At e d s w) :
    Follows (Walk.block inner b) (renderBlock go s b) w := by
  have hi := fun s w (h : At e d s w) => follows_alternates hgo b.alternates h
  rw [Walk.block, renderBlock]
  refine follows_bind (follows_branch hgo hi b.invocation b.negated h)
    (fun _ => rfl) fun out pending => ?_
  cases out with
  | none => exact hi _ _ h
  | some out => exact follows_pure out

end blocks
end TextTemplate

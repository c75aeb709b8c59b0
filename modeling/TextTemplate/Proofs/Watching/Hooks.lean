import TextTemplate.Proofs.Watching.Lockstep

/-! Hooks that change nothing: each rendered node and each turn of a loop is shown to them once, and
nothing else that happens depends on them. -/

namespace TextTemplate

/-- The engine without hooks. -/
def Engine.unhooked (e : Engine) : Engine :=
  { e with options := { e.options with loopHelper := none, renderHook := none } }

/-- Whatever hooks there are give back the output that they are shown. -/
structure Engine.HooksIdle (e : Engine) : Prop where
  renderHook : ∀ hook, e.options.renderHook = some hook → ∀ event, hook event = event.output
  loopHelper : ∀ loop, e.options.loopHelper = some loop → ∀ step, loop step = step.output

/-- A moment with the one call of a hook that answers it. Calls that answer nothing are left out. -/
def Engine.answered (e : Engine) : Moment → List Moment
  | .shown event =>
    .shown event :: if e.options.renderHook.isSome then [.hooked event] else []
  | .turned step =>
    .turned step :: if e.options.loopHelper.isSome then [.stepped step] else []
  | .hooked _ => []
  | .stepped _ => []
  | m => [m]

/-- The second computation comes to the same as the first, and its account is that of the first with
the calls of the engine's hooks. -/
def Answered (e : Engine) {α : Type} (x y : Watched α) : Prop :=
  ∀ st, y st = ((x st).1, (x st).2.flatMap e.answered)

section
variable {e e' : Engine} {α β : Type} {x y : Watched α} {s : Setting}

theorem Engine.answered_inner (e : Engine) (m : Moment) :
    (e.answered m).map Moment.inner = e.answered m.inner := by
  cases m with
  | shown event | turned step =>
    simp only [Moment.inner, answered]
    split <;> rfl
  | begun | hooked | stepped | asked => rfl

theorem Engine.answered_answered (e e' : Engine) (m : Moment) :
    (e.answered m).flatMap e'.answered = e'.answered m := by
  cases m with
  | shown event | turned step =>
    simp only [answered]
    split <;> simp [answered]
  | begun | hooked | stepped | asked => rfl

theorem Setting.watchHooked_apply (s : Setting) (n : Node) (out : String) (st : RenderState) :
    s.watchHooked n out st =
      (.ok (s.hooked n out) st, s.engine.answered (.shown ⟨n, out, s.scope.context⟩)) := by
  simp only [watchHooked, hooked, Engine.answered]
  cases s.engine.options.renderHook <;> rfl

theorem Setting.watchStepped_apply (s : Setting) (index : Nat) (key value : Value) (out : String)
    (st : RenderState) :
    s.watchStepped index key value out st =
      (.ok (s.stepped index key value out) st,
        s.engine.answered (.turned ⟨index, key, value, out⟩)) := by
  simp only [watchStepped, stepped, Engine.answered]
  cases s.engine.options.loopHelper <;> rfl

theorem answered_eval (x : Eval α) : Answered e (.eval x) (.eval x) := fun _ => rfl

theorem answered_bind {f g : α → Watched β} (hx : Answered e x y)
    (hf : ∀ a, Answered e (f a) (g a)) : Answered e (x >>= f) (y >>= g) := by
  intro st
  simp only [bind, Watched.bind, hx st]
  generalize x st = r
  obtain ⟨a | err, moments⟩ := r
  · simp only [hf a _, List.flatMap_append]
  · rfl

theorem Answered.result_eq (h : Answered e x y) : y.result = x.result := by
  funext st
  simp only [Watched.result, h st]

theorem Answered.moments_eq (h : Answered e x y) (st : RenderState) :
    (y st).2 = (x st).2.flatMap e.answered := by
  rw [h st]

theorem Answered.attempt (h : Answered e x y) : Answered e x.attempt y.attempt := by
  intro st
  simp only [Watched.attempt, h.result_eq, h.moments_eq]

theorem Answered.leaving (h : Answered e x y) (p : Option PendingBody) :
    Answered e (x.leaving p) (y.leaving p) := by
  intro st
  simp only [Watched.leaving, h.result_eq, h.moments_eq]

theorem Answered.withPending (h : Answered e x y) (p : Option PendingBody) :
    Answered e (.withPending p x) (.withPending p y) := by
  intro st
  simp only [Watched.withPending, h.result_eq, h.moments_eq, List.map_flatMap, List.flatMap_map,
    e.answered_inner]

theorem answered_take : Answered e .take .take := fun _ => rfl

/-- Engines whose hooks come to the same differ in what the hooks hear, and only in that. -/
theorem lockstep_answered (hk : Kin e e') (hd : e'.options.maxDepth = e.options.maxDepth) :
    Lockstep (Answered e') True e e' where
  kin := hk
  maxDepth := hd
  eval := answered_eval
  bind := answered_bind
  attempt h := h.attempt
  withPending p h := h.withPending p
  take h := answered_bind answered_take (h trivial)
  leaving _ _ _ p h := h.leaving p
  begun _ _ _ _ := rfl
  hooked s hs n out st := by
    have hhook := congrFun (congrFun (hk.hooked s hs) n) out
    simp only [Setting.watchHooked_apply, hhook, Engine.answered_answered]
    rfl
  stepped s hs index key value out st := by
    have hloop := congrFun (congrFun (congrFun (congrFun (hk.stepped s hs) index) key) value) out
    simp only [Setting.watchStepped_apply, hloop, Engine.answered_answered]
    rfl

theorem Engine.watch_eq (hk : Kin e e') (hd : e'.options.maxDepth = e.options.maxDepth)
    (t : Template) (data : Value) (extra : Option Value) :
    e'.watch t data extra =
      ((e.watch t data extra).1, (e.watch t data extra).2.flatMap e'.answered) := by
  have h := (lockstep_answered hk hd).watcher e.options.maxDepth t.nodes
    ⟨e, extra, .ofContext data, Dict.insertAll [] t.partials⟩ rfl ⟨none, []⟩
  simp only [Setting.under] at h
  simp only [watch, hd, h]
  generalize watcher _ _ _ _ = r
  obtain ⟨_ | _, moments⟩ := r <;> rfl

/-- Engines that show the same things under the same nesting limit render the same. -/
theorem Engine.render_eq_of_kin (hk : Kin e e') (hd : e'.options.maxDepth = e.options.maxDepth)
    (t : Template) (data : Value) (extra : Option Value) :
    e'.render t data extra = e.render t data extra := by
  rw [← watch_fst, watch_eq hk hd, watch_fst]

theorem Engine.watch_answered (e : Engine) (t : Template) (data : Value) (extra : Option Value) :
    (e.watch t data extra).2.flatMap e.answered = (e.watch t data extra).2 :=
  (congrArg Prod.snd (watch_eq (kin_refl e) rfl t data extra)).symm

theorem Engine.hooksIdle_unhooked (e : Engine) : e.unhooked.HooksIdle := ⟨nofun, nofun⟩

theorem Setting.hooked_of_idle (h : s.engine.HooksIdle) (n : Node) (output : String) :
    s.hooked n output = output := by
  rw [hooked]
  split
  · rename_i hook hr
    exact h.renderHook hook hr _
  · rfl

theorem Setting.stepped_of_idle (h : s.engine.HooksIdle) (index : Nat) (key value : Value)
    (output : String) : s.stepped index key value output = output := by
  rw [stepped]
  split
  · rename_i loop hl
    exact h.loopHelper loop hl _
  · rfl

theorem Engine.HooksIdle.kin (h : e.HooksIdle) : Kin e.unhooked e where
  helpers _ := rfl
  partials _ := rfl
  escapeHtml := rfl
  entities := rfl
  limitPartialScope := rfl
  stepped s hs := by
    have hs : s.engine.HooksIdle := hs ▸ e.hooksIdle_unhooked
    funext index key value output
    rw [Setting.stepped_of_idle hs, Setting.stepped_of_idle (s := s.under e) h]
  hooked s hs := by
    have hs : s.engine.HooksIdle := hs ▸ e.hooksIdle_unhooked
    funext n output
    rw [Setting.hooked_of_idle hs, Setting.hooked_of_idle (s := s.under e) h]

/-- With hooks that change nothing, a template is rendered as without hooks. The same happens, in
the same scopes and with the same pending bodies; each rendered node and each turn of a loop,
wherever it stands, is shown to its hook once. Whatever hooks do, the account is that of the render,
and each rendered node and each turn is followed by the one call of its hook, if there is one; there
are no other calls. -/
theorem Engine.idle_hooks_unseen (e : Engine) (h : e.HooksIdle) (t : Template) (data : Value)
    (extra : Option Value) :
    e.render t data extra = e.unhooked.render t data extra ∧
      e.watch t data extra = (e.render t data extra,
        (e.unhooked.watch t data extra).2.flatMap e.answered) ∧
      (e.unhooked.watch t data extra).1 = e.unhooked.render t data extra ∧
      ∀ (e' : Engine) (t : Template) (data : Value) (extra : Option Value),
        (e'.watch t data extra).1 = e'.render t data extra ∧
          (e'.watch t data extra).2.flatMap e'.answered = (e'.watch t data extra).2 := by
  have hrender := render_eq_of_kin h.kin rfl t data extra
  refine ⟨hrender, ?_, watch_fst .., fun e' t data extra => ⟨watch_fst .., watch_answered ..⟩⟩
  rw [watch_eq h.kin rfl, watch_fst, hrender]

/-- What a hook is shown. -/
def Moment.heard? : Moment → Option String
  | hooked event => some event.output
  | stepped step => some step.output
  | _ => none

/-- An engine with hooks that change nothing, a helper that shows both parts of its block, and a
partial. -/
def attentive : Engine where
  options := { renderHook := some (·.output), loopHelper := some (·.output) }
  helpers := [("both", fun _ => do
    let out ← Run.body none
    let other ← Run.inverse none
    pure (.safe (out ++ other)))]
  partials := [("p", .template ⟨[.text "p"], []⟩)]

/-- A loop, a helper with its two parts, an `else`, a partial, and the fallback of another one. -/
def varied : Template := ⟨[
  .block ⟨"each", ⟨some "each", [.path ⟨["xs"], 0, false⟩], [], []⟩, false, [.text "-"], []⟩,
  .block ⟨"both", ⟨some "both", [], [], []⟩, false, [.text "b"], [⟨none, [.text "i"]⟩]⟩,
  .block ⟨"if", ⟨some "if", [], [], []⟩, false, [], [⟨none, [.text "e"]⟩]⟩,
  .partialTag ⟨.fixed "p", .empty, none⟩,
  .partialTag ⟨.fixed "q", .empty, some [.text "f"]⟩], []⟩

theorem Engine.idle_hooks_unseen_varied :
    attentive.HooksIdle ∧
      (attentive.render varied (.object [("xs", .array [.null, .null])]) none).result =
        .ok "--biepf" ∧
      (attentive.watch varied (.object [("xs", .array [.null, .null])]) none).2.filterMap
          Moment.heard? =
        ["-", "-", "-", "-", "--", "b", "i", "bi", "e", "e", "p", "p", "f", "f"] := by
  have h : attentive.HooksIdle := by
    constructor <;> rintro _ ⟨⟩ _ <;> rfl
  obtain ⟨hrender, hwatch, -⟩ :=
    idle_hooks_unseen attentive h varied (.object [("xs", .array [.null, .null])]) none
  refine ⟨h, ?_, ?_⟩
  · rw [hrender]
    rfl
  · rw [hwatch]
    decide +kernel

end
end TextTemplate

import TextTemplate.Proofs.Watching.Lockstep

/-! With an open scope, a partial is the same as a `with` block with its nodes in its place. -/

namespace TextTemplate

/-- A tag asks for the body that was pending from the start. -/
def Moment.FromStart : Moment → Prop
  | asked _ fromStart => fromStart = true
  | _ => False

instance : DecidablePred Moment.FromStart
  | .asked _ fromStart => inferInstanceAs (Decidable (fromStart = true))
  | .begun .. | .shown _ | .hooked _ | .turned _ | .stepped _ => .isFalse not_false

/-- The same end with this body pending. -/
def pendingAfter {α : Type} (pending : Option PendingBody) :
    EStateM.Result EngineError RenderState α → EStateM.Result EngineError RenderState α
  | .ok a st => .ok a { st with pending }
  | .error e st => .error e { st with pending }

/-- As long as no tag asks for the body that is pending, the computation takes no notice of it. -/
def Unaware {α : Type} (x : Watched α) : Prop :=
  ∀ st pending, (∀ m ∈ (x st).2, ¬ m.FromStart) →
    x { st with pending } = (pendingAfter pending (x st).1, (x st).2)

section
variable {α β : Type} {x : Watched α} {e : Engine} {s : Setting} {st : RenderState}

theorem Moment.inner_eq {m : Moment} (h : ¬ m.FromStart) : m.inner = m := by
  cases m with
  | asked pending fromStart =>
    rw [FromStart, Bool.not_eq_true] at h
    rw [h, inner]
  | begun | shown | hooked | turned | stepped => rfl

theorem leaving_eq (p : Option PendingBody) (x : Render α) (st : RenderState) :
    x.leaving p st = pendingAfter p (x st) := by
  rw [Render.leaving]
  cases x st <;> rfl

theorem pendingAfter_pendingAfter (p q : Option PendingBody)
    (r : EStateM.Result EngineError RenderState α) :
    pendingAfter p (pendingAfter q r) = pendingAfter p r := by
  cases r <;> rfl

theorem unaware_eval (x : Eval α) : Unaware (.eval x) := by
  intro st p _
  simp only [Watched.eval, Render.eval]
  cases x st.log <;> rfl

theorem unaware_tell (m : Moment) : Unaware (.tell m) := fun _ _ _ => rfl

theorem unaware_bind {f : α → Watched β} (hx : Unaware x) (hf : ∀ a, Unaware (f a)) :
    Unaware (x >>= f) := by
  intro st p h
  have hx := hx st p
  simp only [bind, Watched.bind] at h ⊢
  generalize x st = r at h hx ⊢
  rcases r with ⟨⟨a, st'⟩ | ⟨err, st'⟩, moments⟩
  · have hf := hf a st' p fun m hm => h m (List.mem_append_right _ hm)
    rw [hx fun m hm => h m (List.mem_append_left _ hm)]
    simp only [show pendingAfter p (.ok a st') = .ok a { st' with pending := p } from rfl, hf]
  · rw [hx h]
    rfl

theorem unaware_attempt (hx : Unaware x) : Unaware x.attempt := by
  intro st p h
  have hx := hx st p h
  simp only [Watched.attempt, Watched.result, Render.attempt, hx]
  cases (x st).1 <;> rfl

/-- A body that is put there instead is taken away in the end. -/
theorem unaware_withPending (q : Option PendingBody) : Unaware (.withPending q x) := by
  intro st p _
  simp only [Watched.withPending, Render.withPending, leaving_eq, pendingAfter_pendingAfter]

theorem unaware_take {f : Option PendingBody → Watched β} : Unaware (.take >>= f) := by
  intro st p h
  -- The account begins with the tag's question, whatever comes of it.
  exact absurd rfl (h (.asked st.pending true) (List.mem_cons_self ..))

theorem lockstep_unaware (e : Engine) : Lockstep (fun x _ => Unaware x) False e e where
  kin := kin_refl e
  maxDepth := rfl
  eval := unaware_eval
  bind := unaware_bind
  attempt := unaware_attempt
  withPending p _ := unaware_withPending p
  take _ := unaware_take
  leaving := False.elim
  begun _ _ _ := unaware_tell _
  hooked s _ n out := by
    rw [Setting.watchHooked]
    refine unaware_bind (unaware_tell _) fun _ => ?_
    split
    · exact unaware_bind (unaware_tell _) fun _ => unaware_eval _
    · exact unaware_eval _
  stepped s _ index key value out := by
    rw [Setting.watchStepped]
    refine unaware_bind (unaware_tell _) fun _ => ?_
    split
    · exact unaware_bind (unaware_tell _) fun _ => unaware_eval _
    · exact unaware_eval _

theorem unaware_watcher (left : Nat) (s : Setting) (ns : List Node) :
    Unaware (watcher left s ns) :=
  (lockstep_unaware s.engine).watcher left ns s rfl

/-- Nor does it matter then whether a body is put there instead. -/
theorem Unaware.withPending_eq (hx : Unaware x) (h : ∀ m ∈ (x st).2, ¬ m.FromStart)
    (p : Option PendingBody) : Watched.withPending p x st = x st := by
  have hown : x st = (pendingAfter st.pending (x st).1, (x st).2) := hx st st.pending h
  have hinner : (x st).2.map Moment.inner = (x st).2 :=
    (List.map_congr_left (g := id) fun m hm => Moment.inner_eq (h m hm)).trans (List.map_id _)
  simp only [Watched.withPending, Render.withPending, leaving_eq, Watched.result, hx st p h,
    pendingAfter_pendingAfter, hinner]
  exact hown.symm

/-- A block about a value. -/
def withBlock (r : Reference) (ns : List Node) : Node :=
  .block ⟨"with", ⟨some "with", [r], [], []⟩, false, ns, []⟩

variable {left : Nat} {name : String} {t : Template} {r : Reference} {v : Value} {log : List String}

theorem watchNode_withBlock (hr : r.eval s st.log = .ok (some v) log) (hv : v.isNull = false)
    (ns : List Node) :
    watchNode (watchersBelow (left + 1)) s (withBlock r ns) st =
      watcher left (s.push ⟨v, [], none⟩) ns { st with log } := by
  let i : Invocation := ⟨some "with", [r], [], []⟩
  have hcall : s.blockCall? i = none :=
    Setting.blockCall?_eq_none_iff.2 (.inl ⟨"with", by decide, rfl⟩)
  have hkind : BlockKind.of i = .withValue := rfl
  have hsubject : i.subject s st.log = .ok (some v) log := hr
  have hholds : s.holds .withValue i (some v) = pure true := by
    simp only [Setting.holds, Option.any_some, hv, Bool.not_false]
  have hchosen : watchChosen (watcher left · ns) s .withValue [] (some v) =
      watcher left (s.push ⟨v, [], none⟩) ns := rfl
  have htrue : (Watched.eval (pure true) : Watched Bool) = pure true := rfl
  rw [withBlock, watchNode, watchersBelow, Setting.watchDescend, pure_bind, watchBlock, watchBranch,
    hcall]
  simp only [watchOrdinary, bind_assoc]
  rw [Watched.eval_bind hsubject, hkind, hholds]
  simp only [htrue, pure_bind, Bool.false_eq_true, if_false, if_true, map_eq_pure_bind, bind_assoc,
    hchosen, bind_pure]

theorem watchNode_partialTagWith (hl : s.engine.options.limitPartialScope = false)
    (hn : name ≠ partialBlockName) (hp : s.partial? name = some (.template t))
    (ht : t.partials = []) (hr : r.eval s st.log = .ok (some v) log) (deeper : Option Watcher) :
    watchNode deeper s (partialTagWith name r []) st =
      Watched.withPending none (do
        let go ← s.watchDescend deeper name
        go (s.push ⟨v, [], none⟩) t.nodes) { st with log } := by
  have hname : (PartialName.fixed name).eval s st.log = .ok name st.log := rfl
  have hcontext : s.contextFor ⟨none, [r], [], []⟩ st.log = .ok v log := by
    simp only [Setting.contextFor, bind, EStateM.bind, hr]
    rfl
  have hhash : evalHash s [] [] log = .ok [] log := rfl
  have henter : s.enter ⟨v, [], none⟩ t = s.push ⟨v, [], none⟩ := by
    simp only [Setting.enter, Setting.push, hl, ht, Bool.false_eq_true, if_false]
    rfl
  rw [partialTagWith, watchNode, watchTag, Watched.eval_bind hname, if_neg hn, hp]
  simp only [watchPartial]
  rw [Watched.eval_bind hcontext, Watched.eval_bind hhash]
  simp only [henter, Option.map_none]

end

namespace Walker
variable {w : Walker} {name : String} {t : Template} {r : Reference} {v : Value}

/-- Where the walker stands, a partial of this name is the template, which defines no partials, and
partials see the scopes of their callers. -/
structure Includes (w : Walker) (name : String) (t : Template) : Prop where
  open_scope : w.setting.engine.options.limitPartialScope = false
  not_defined : w.setting.defined.get? name = none
  registered : w.setting.engine.partials.get? name = some (.template t)
  partials_eq : t.partials = []

theorem Includes.partial? (h : w.Includes name t) :
    w.setting.partial? name = some (.template t) := by
  simp only [Setting.partial?, h.not_defined, h.registered]

section
variable (h : w.Includes name t) (hn : name ≠ partialBlockName) {left : Nat}
variable {log : List String} (hr : r.eval w.setting w.log = .ok (some v) log)
include h hn hr

theorem watched_partialTagWith (hl : w.levels = left + 1) :
    w.watched (partialTagWith name r []) =
      Watched.withPending none (watcher left (w.setting.push ⟨v, [], none⟩) t.nodes)
        ⟨w.pending, log⟩ := by
  rw [watched, hl, watchNode_partialTagWith h.open_scope hn h.partial? h.partials_eq hr,
    watchersBelow, Setting.watchDescend]
  rfl

theorem outcome_partialTagWith_of_zero (hl : w.levels = 0) :
    w.outcome (partialTagWith name r []) =
      .error (.nestingLimit name w.setting.engine.options.maxDepth) := by
  have hw : w.watched (partialTagWith name r []) = _ :=
    watchNode_partialTagWith h.open_scope hn h.partial? h.partials_eq hr _
  rw [outcome_of_watched hw, hl]
  rfl

end

theorem watched_withBlock {left : Nat} {log : List String} (hl : w.levels = left + 1)
    (hr : r.eval w.setting w.log = .ok (some v) log) (hv : v.isNull = false) (ns : List Node) :
    w.watched (withBlock r ns) =
      watcher left (w.setting.push ⟨v, [], none⟩) ns ⟨w.pending, log⟩ := by
  rw [watched, hl]
  exact watchNode_withBlock hr hv ns

/-- With an open scope, the tag of a partial comes to the same as a `with` block with the nodes of
the partial, as long as none of them asks for the body that is pending at the tag: nodes are rendered
in the same scopes and see the same partials. At the nesting limit each fails by its name. -/
theorem open_partial_is_inclusion (h : w.Includes name t) (hn : name ≠ partialBlockName)
    (hr : w.Gives r.eval (some v)) (hv : v.isNull = false) :
    (w.depth < w.setting.engine.options.maxDepth →
      (∀ m ∈ w.moments (withBlock r t.nodes), ¬ m.FromStart) →
      w.outcome (partialTagWith name r []) = w.outcome (withBlock r t.nodes) ∧
        w.watched (partialTagWith name r []) = w.watched (withBlock r t.nodes)) ∧
    (w.depth < w.setting.engine.options.maxDepth → w.setting.engine.Propagates →
      Silent w.setting.engine w.setting.extra t.nodes →
      w.outcome (partialTagWith name r []) = w.outcome (withBlock r t.nodes)) ∧
    (w.setting.engine.options.maxDepth ≤ w.depth →
      w.outcome (partialTagWith name r []) =
          .error (.nestingLimit name w.setting.engine.options.maxDepth) ∧
        w.outcome (withBlock r t.nodes) =
          .error (.nestingLimit "with" w.setting.engine.options.maxDepth)) := by
  obtain ⟨log, hr⟩ := hr
  refine ⟨?_, ?_, ?_⟩
  · intro hd ha
    obtain ⟨left, hl⟩ := exists_levels hd
    have hwith := watched_withBlock hl hr hv t.nodes
    have hpartial := watched_partialTagWith h hn hr hl
    rw [moments, hwith] at ha
    have hsame := (unaware_watcher left _ t.nodes).withPending_eq ha none
    rw [hsame] at hpartial
    exact ⟨(outcome_of_watched hpartial).trans (outcome_of_watched hwith).symm,
      hpartial.trans hwith.symm⟩
  · intro hd he hs
    obtain ⟨left, hl⟩ := exists_levels hd
    have hunasking : Unasking (renderer left (w.setting.push ⟨v, [], none⟩) t.nodes) :=
      unasking_renderer he left hs ⟨rfl, rfl⟩
    rw [outcome_of_watched (watched_partialTagWith h hn hr hl),
      outcome_of_watched (watched_withBlock hl hr hv t.nodes), Watched.result_withPending,
      outcome_withPending]
    rw [← renderer_watcher] at hunasking
    exact hunasking.outcome_exact trivial
  · intro hd
    have hl : w.levels = 0 := Nat.sub_eq_zero_of_le hd
    exact ⟨outcome_partialTagWith_of_zero h hn hr hl, outcome_block_of_zero hl _⟩

/-- Shows a name bound by the caller, its turn in a loop, the context around the argument, and a
partial that the caller defines. -/
def reaching : Template := ⟨[
  .value ⟨none, [.path ⟨["x"], 0, false⟩], [], []⟩ true,
  .value ⟨none, [.path ⟨["@index"], 0, false⟩], [], []⟩ true,
  .value ⟨none, [.path ⟨["y"], 1, false⟩], [], []⟩ true,
  .partialTag ⟨.fixed "q", .empty, none⟩], []⟩

/-- A caller in the second turn of a loop, with a body pending. -/
def openCaller : Walker where
  setting :=
    { engine :=
        { Engine.create { limitPartialScope := false } with
          partials := [("p", .template reaching)] }
      extra := none
      scope := ⟨⟨.object [("y", .string "&")], [("x", .string "<")], some ⟨1, .null, 2, .null⟩⟩, []⟩
      defined := [("q", ⟨[.text "q"], []⟩)] }
  pending := some ⟨[.text "body"], .ofContext .null, []⟩
  depth := 3
  log := []
  events := []

theorem open_partial_is_inclusion_in_loop :
    openCaller.outcome (partialTagWith "p" (.literal (.string "v")) []) = .ok "&lt;1&amp;q" ∧
      openCaller.watched (partialTagWith "p" (.literal (.string "v")) []) =
        openCaller.watched (withBlock (.literal (.string "v")) reaching.nodes) ∧
      openCaller.outcome (withBlock (.literal (.string "v")) reaching.nodes) =
        .ok "&lt;1&amp;q" := by
  have h : openCaller.Includes "p" reaching := ⟨rfl, rfl, rfl, rfl⟩
  have hr : openCaller.Gives (Reference.literal (.string "v")).eval (some (.string "v")) :=
    ⟨[], rfl⟩
  have hd : openCaller.depth < openCaller.setting.engine.options.maxDepth := by decide
  have ha : ∀ m ∈ openCaller.moments (withBlock (.literal (.string "v")) reaching.nodes),
      ¬ m.FromStart := by decide +kernel
  have hs : Silent openCaller.setting.engine openCaller.setting.extra reaching.nodes := by
    rintro name i body hw ⟨s, log, log', -, hname⟩
    simp [reaching, Node.within_cons, Node.Inside] at hw
    obtain ⟨rfl, -, -⟩ := hw
    injection hname with hname
    exact absurd hname (by decide)
  have hout : openCaller.outcome (partialTagWith "p" (.literal (.string "v")) []) =
      .ok "&lt;1&amp;q" := by rfl
  have main := open_partial_is_inclusion h (by decide) hr rfl
  refine ⟨hout, (main.1 hd ha).2, ?_⟩
  rw [← main.2.1 hd (fun _ _ => builtin_propagates) hs, hout]

/-- Shows its context in brackets. -/
def bracketing : Template := ⟨[
  .text "[", .value ⟨none, [.path ⟨[], 0, false⟩], [], []⟩ true, .text "]"], []⟩

/-- A caller where the partial is registered under the name that stands for a pending body. -/
def reservedCaller : Walker :=
  .start { Engine.create { limitPartialScope := false } with
    partials := [(partialBlockName, .template bracketing)] } ⟨[], []⟩
    (.object [("v", .string "x")]) none

/-- The tag of that name asks for a pending body, and there is none. -/
theorem reserved_name_is_not_included :
    reservedCaller.Includes partialBlockName bracketing ∧
      reservedCaller.depth < reservedCaller.setting.engine.options.maxDepth ∧
      reservedCaller.setting.engine.Propagates ∧
      reservedCaller.Gives (Reference.path ⟨["v"], 0, false⟩).eval (some (.string "x")) ∧
      Silent reservedCaller.setting.engine reservedCaller.setting.extra bracketing.nodes ∧
      (∀ m ∈ reservedCaller.moments (withBlock (.path ⟨["v"], 0, false⟩) bracketing.nodes),
        ¬ m.FromStart) ∧
      reservedCaller.outcome (partialTagWith partialBlockName (.path ⟨["v"], 0, false⟩) []) =
        .ok "" ∧
      reservedCaller.outcome (withBlock (.path ⟨["v"], 0, false⟩) bracketing.nodes) =
        .ok "[x]" := by
  refine ⟨⟨rfl, rfl, rfl, rfl⟩, by decide, fun _ _ => builtin_propagates, ⟨[], rfl⟩, ?_,
    by decide +kernel, rfl, rfl⟩
  intro name i body hw
  simp [bracketing, Node.within_cons, Node.Inside] at hw

end Walker
end TextTemplate

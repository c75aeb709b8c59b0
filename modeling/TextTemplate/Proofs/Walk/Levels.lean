import TextTemplate.Proofs.Walk.Agreement

/-! Partials, nodes, and the levels that the nesting limit allows: every walk ends, and as the
renderer does. -/

namespace TextTemplate

/-- `deeper` is what the nesting limit leaves at depth `d`, and renders as `inner` walks. -/
structure Below (inner : List Node → Walk (Outcome String)) (deeper : Option Renderer) (e : Engine)
    (d : Nat) : Prop where
  left : deeper = none ↔ e.options.maxDepth ≤ d
  serves : ∀ go, deeper = some go → Serves inner go e (d + 1)

variable {inner : List Node → Walk (Outcome String)} {deeper : Option Renderer}
variable {e : Engine} {d : Nat} {s : Setting} {w : Walker}

theorem Below.lt {go : Renderer} (hb : Below inner (some go) e d) : d < e.options.maxDepth := by
  apply Nat.lt_of_not_le
  intro hd
  cases hb.left.2 hd

theorem Render.takePending_bind {α : Type} (k : Option PendingBody → Render α) (st : RenderState) :
    (Render.takePending >>= k) st = k st.pending { st with pending := none } := rfl

namespace Walk
variable {p : PendingBody} {c : Course String}

/-- The body is lost when it cannot be shown. -/
theorem pendingBody_of_le (hd : w.setting.engine.options.maxDepth ≤ w.depth) :
    pendingBody inner p w =
      some (.error (.nestingLimit partialBlockName w.setting.engine.options.maxDepth),
        { w with pending := none, events := w.events ++ [.stopped] }) := by
  rw [pendingBody]
  simp [descend_of_le { w with pending := none } _ hd]

/-- Where the body was written, without a pending one, and a level deeper. -/
def atBody (w : Walker) (p : PendingBody) : Walker :=
  { w with
    setting := { w.setting with scope := p.scope, defined := p.defined }
    pending := none
    depth := w.depth + 1
    events := [] }

theorem pendingBody_of_lt (hd : w.depth < w.setting.engine.options.maxDepth)
    (h : inner p.nodes (atBody w p) = some (c.outcome, c.walker (atBody w p))) :
    pendingBody inner p w = some (c.outcome, { w with
      pending := some p, log := w.log ++ c.notes, events := w.events ++ [.aside c.events] }) := by
  simp only [atBody, Course.walker, List.nil_append] at h
  rw [pendingBody]
  simp [descend_of_lt { w with pending := none } _ hd, h]

end Walk

theorem follows_pendingBody (hb : Below inner deeper e d) (h : At e d s w) {p : PendingBody}
    (hp : w.pending = some p) (fallback : Render String) :
    Follows (Walk.pendingBody inner p) (do
      match ← .takePending with
      | some p => renderPending deeper s p
      | none => fallback) w := by
  obtain ⟨rfl, rfl, rfl⟩ := h
  cases deeper with
  | none =>
    have hd := hb.left.1 rfl
    let stopped := EngineError.nestingLimit partialBlockName w.setting.engine.options.maxDepth
    refine ⟨⟨.error stopped, none, [], [.stopped]⟩, ?_, ?_, rfl, ?_⟩
    · intro log events
      rw [Walk.pendingBody_of_le (w := { w with log, events }) hd]
      simp [Course.walker, stopped]
    · intro log
      simp only [hp, Course.ended, List.append_nil]
      rfl
    · intro _
      rw [hp]
      rfl
  | some go =>
    let there : Setting := { w.setting with scope := p.scope, defined := p.defined }
    obtain ⟨c, walks, renders, -, -⟩ := hb.serves go rfl there (Walk.atBody w p) p.nodes
      ⟨rfl, rfl, rfl⟩
    refine ⟨⟨c.outcome, some p, c.notes, [.aside c.events]⟩, ?_, ?_, ?_, ?_⟩
    · intro log events
      exact Walk.pendingBody_of_lt (w := { w with log, events }) hb.lt (walks log [])
    · intro log
      have h : go there p.nodes ⟨none, log⟩ = c.ended log := renders log
      simp only [there] at h
      simp only [Render.takePending_bind, hp, renderPending, Setting.descend, pure_bind,
        Render.leaving, h]
      cases hc : c.outcome <;> simp only [Course.ended, hc]
    · rw [hp]
      rfl
    · intro h
      simp [Event.stops] at h

theorem follows_takeNone {m : Walk (Outcome String)} {fallback : Render String}
    {shown : PendingBody → Render String} (hp : w.pending = none) (h : Follows m fallback w) :
    Follows m (do
      match ← .takePending with
      | some p => shown p
      | none => fallback) w := by
  obtain ⟨c, walks, renders, hp', hs⟩ := h
  refine ⟨c, walks, ?_, hp', hs⟩
  intro log
  rw [← renders log, hp, Render.takePending_bind]

namespace Walk
variable {f : Frame} {t : Template} {c : Course String}

theorem framed_eq (h : inner t.nodes { w with setting := w.setting.enter f t } =
      some (c.outcome, c.walker { w with setting := w.setting.enter f t })) :
    framed inner f t w = some (c.outcome, c.walker { w with
      setting := { w.setting with defined := w.setting.defined.insertAll t.partials } }) := by
  rw [framed]
  simp only [Setting.enter, Course.walker] at h
  cases hl : w.setting.engine.options.limitPartialScope with
  | true =>
    simp only [hl, if_true] at h
    simp [hl, h, Course.walker]
  | false =>
    simp only [hl, Bool.false_eq_true, if_false] at h
    simp [hl, Setting.push, h, Course.walker]
    rfl

/-- The body of a partial tag, as it is pending meanwhile. -/
def bodyAt (w : Walker) (body : Option (List Node)) : Option PendingBody :=
  body.map fun ns => ⟨ns, w.setting.scope, w.setting.defined⟩

theorem included_of_le (name : String) (body : Option (List Node))
    (hd : w.setting.engine.options.maxDepth ≤ w.depth) :
    included inner name f body t w =
      some (.error (.nestingLimit name w.setting.engine.options.maxDepth),
        { w with events := w.events ++ [.aside []] }) := by
  have hstop := descend_of_le { w with pending := bodyAt w body, events := [] } name hd
  simp only [bodyAt] at hstop
  rw [included, entered]
  simp [hstop]

/-- In a partial, a level deeper. -/
def atPartial (w : Walker) (f : Frame) (body : Option (List Node)) (t : Template) : Walker :=
  { w with
    setting := w.setting.enter f t
    pending := bodyAt w body
    depth := w.depth + 1
    events := [] }

theorem included_of_lt (name : String) (body : Option (List Node))
    (hd : w.depth < w.setting.engine.options.maxDepth)
    (h : inner t.nodes (atPartial w f body t) =
      some (c.outcome, c.walker (atPartial w f body t))) :
    included inner name f body t w = some (c.outcome,
      { w with log := w.log ++ c.notes, events := w.events ++ [.aside c.events] }) := by
  have hf := framed_eq
    (w := { w with pending := bodyAt w body, depth := w.depth + 1, events := [] }) h
  have hgo := descend_of_lt { w with pending := bodyAt w body, events := [] } name hd
  simp only [bodyAt] at hf hgo
  rw [included, entered]
  simp [hgo, hf, Course.walker]

end Walk

/-- The body of a tag is pending while its partial is rendered, and the one before it afterwards. -/
theorem follows_included (hb : Below inner deeper e d) (h : At e d s w) (name : String) (f : Frame)
    (body : Option (List Node)) (t : Template) :
    Follows (Walk.included inner name f body t)
      (.withPending (body.map fun nodes => ⟨nodes, s.scope, s.defined⟩) do
        let go ← s.descend deeper name
        go (s.enter f t) t.nodes) w := by
  obtain ⟨rfl, rfl, rfl⟩ := h
  cases deeper with
  | none =>
    have hd := hb.left.1 rfl
    let stopped := EngineError.nestingLimit name w.setting.engine.options.maxDepth
    refine ⟨⟨.error stopped, w.pending, [], [.aside []]⟩, ?_, ?_, rfl, ?_⟩
    · intro log events
      rw [Walk.included_of_le (w := { w with log, events }) name body hd]
      simp [Course.walker, stopped]
    · intro log
      simp only [Course.ended, List.append_nil]
      rfl
    · intro h
      simp [Event.stops] at h
  | some go =>
    obtain ⟨c, walks, renders, -, -⟩ := hb.serves go rfl (w.setting.enter f t)
      (Walk.atPartial w f body t) t.nodes ⟨rfl, rfl, rfl⟩
    refine ⟨⟨c.outcome, w.pending, c.notes, [.aside c.events]⟩, ?_, ?_, rfl, ?_⟩
    · intro log events
      exact Walk.included_of_lt (w := { w with log, events }) name body hb.lt (walks log [])
    · intro log
      have h : go (w.setting.enter f t) t.nodes ⟨Walk.bodyAt w body, log⟩ = c.ended log :=
        renders log
      simp only [Walk.bodyAt] at h
      simp only [Render.withPending, Render.leaving, Setting.descend, pure_bind, h]
      cases hc : c.outcome <;> simp only [Course.ended, hc]
    · intro h
      simp [Event.stops] at h

theorem Pervasive.contextFor {P : ∀ {α : Type}, Eval α → Prop} (hP : Pervasive P s.engine)
    (i : Invocation) : P (s.contextFor i) := by
  rw [Setting.contextFor]
  cases i.params with
  | nil => exact hP.pure _
  | cons p ps => exact hP.bind (hP.reference p) fun _ => hP.pure _

theorem renderPartial_eq (name : String) (i : Invocation) (body : Option (List Node))
    (target : Registered) :
    renderPartial deeper s name i body target = (do
      let context ← .eval (s.contextFor i)
      let hash ← .eval (evalHash s i.hash [])
      match target with
      | .native f => .ofExcept (f context)
      | .template t =>
        .withPending (body.map fun nodes => ⟨nodes, s.scope, s.defined⟩) do
          let go ← s.descend deeper name
          go (s.enter ⟨context, hash, none⟩ t) t.nodes) := by
  rw [renderPartial, Setting.contextFor]
  cases i.params with
  | nil => rfl
  | cons p ps =>
    funext st
    simp only [bind, EStateM.bind, Render.eval]
    cases p.eval s st.log <;> rfl

theorem follows_found (hb : Below inner deeper e d) (h : At e d s w) (name : String)
    (i : Invocation) (body : Option (List Node)) (target : Registered) :
    Follows (Walk.found inner name i body target)
      (renderPartial deeper s name i body target) w := by
  rw [Walk.found, renderPartial_eq]
  refine follows_bind (h.follows_eval ((Eval.appends _).contextFor i))
    (fun _ => rfl) fun context pending => ?_
  refine follows_bind (At.follows_eval h ((Eval.appends _).evalHash i.hash []))
    (fun _ => rfl) fun hash pending => ?_
  cases target with
  | native f => exact follows_outcome (f context)
  | template t =>
    exact follows_included hb (w := { w with pending }) h name ⟨context, hash, none⟩ body t

theorem follows_partialTag (hb : Below inner deeper e d) (h : At e d s w) (name : PartialName)
    (i : Invocation) (body : Option (List Node)) {fallback : Render String}
    (hf : ∀ w, At e d s w → Follows (Walk.fallback inner body) fallback w) :
    Follows (Walk.node inner (.partialTag ⟨name, i, body⟩)) (do
      let name ← .eval (name.eval s)
      if name = partialBlockName then
        match ← .takePending with
        | some p => renderPending deeper s p
        | none => fallback
      else
        match s.partial? name with
        | some target => renderPartial deeper s name i body target
        | none => fallback) w := by
  rw [Walk.node.eq_def]
  refine follows_bind (h.follows_eval ((Eval.appends _).partialName name))
    (fun _ => rfl) fun name pending => ?_
  have h : At e d s { w with pending } := h
  refine follows_get ?_ fun _ _ => rfl
  by_cases hn : name = partialBlockName
  · simp only [hn, if_true]
    cases pending with
    | none => exact follows_takeNone rfl (hf _ h)
    | some p => exact follows_pendingBody hb h rfl fallback
  · obtain ⟨rfl, he, hd⟩ := h
    have h : At e d w.setting { w with pending } := ⟨rfl, he, hd⟩
    simp only [hn, if_false]
    cases w.setting.partial? name with
    | none => exact hf _ h
    | some target => exact follows_found hb h name i body target

mutual

theorem follows_node (hb : Below inner deeper e d) :
    ∀ n w, At e d s w → Follows (Walk.node inner n) (renderNode deeper s n) w
  | .text text, w, h => by
    rw [Walk.node, renderNode]
    exact follows_pure text
  | .value i escaped, w, h => by
    rw [Walk.node, renderNode]
    refine follows_bind (h.follows_eval ((Eval.appends _).invocation i))
      (fun _ => rfl) fun out pending => ?_
    obtain ⟨rfl, -, -⟩ := h
    exact follows_get (follows_pure _) fun _ _ => rfl
  | .block b, w, h => by
    rw [Walk.node, renderNode]
    obtain ⟨rfl, rfl, rfl⟩ := h
    refine follows_descend hb.left (fun _ => rfl) rfl fun go hgo => ?_
    exact follows_block (hb.serves go hgo) b ⟨rfl, rfl, rfl⟩
  | .partialTag ⟨name, i, some body⟩, w, h => by
    rw [renderNode]
    refine follows_partialTag hb h name i (some body) fun w h => ?_
    exact follows_filed (fun _ => rfl) (follows_nodes hb body w h)
  | .partialTag ⟨name, i, none⟩, w, h => by
    rw [renderNode]
    exact follows_partialTag hb h name i none fun w _ => follows_pure ""

theorem follows_nodes (hb : Below inner deeper e d) :
    ∀ ns w, At e d s w → Follows (Walk.nodes inner ns) (renderNodes deeper s ns) w
  | [], w, h => by
    rw [Walk.nodes, renderNodes]
    exact follows_pure ""
  | n :: ns, w, h => by
    rw [Walk.nodes, renderNodes]
    refine follows_bind (follows_node hb n w h) (fun _ => rfl) fun out pending => ?_
    have hns := follows_nodes hb ns { w with pending } h
    obtain ⟨rfl, -, -⟩ := h
    refine follows_get ?_ fun _ _ => rfl
    exact follows_bind hns (fun _ => rfl) fun outs pending => follows_pure _

end

/-- Where the limit is reached, nothing is deeper. -/
theorem below_none (h : e.options.maxDepth ≤ d) : Below inner none e d := by
  refine ⟨by simp [h], ?_⟩
  intro go hgo
  cases hgo

theorem below_some {go : Renderer} (h : d < e.options.maxDepth) (hgo : Serves inner go e (d + 1)) :
    Below inner (some go) e d := by
  refine ⟨by simp [h], ?_⟩
  rintro _ ⟨⟩
  exact hgo

theorem serves_list (hb : Below inner deeper e d) :
    Serves (fun ns => Walk.filed .list (Walk.nodes inner ns)) (renderNodes deeper) e d := by
  intro s w ns h
  exact follows_filed (fun _ => rfl) (follows_nodes hb ns w h)

/-- A renderer with so many levels left serves a walk that may go that much deeper. -/
theorem renderer_serves (e : Engine) {left levels : Nat} (h : e.options.maxDepth - d = left)
    (hl : left < levels) : Serves (Walk.upTo levels) (renderer left) e d := by
  induction left generalizing d levels with
  | zero =>
    obtain ⟨levels, rfl⟩ := Nat.exists_eq_add_one_of_ne_zero (Nat.ne_zero_of_lt hl)
    exact serves_list (below_none (by omega))
  | succ left ih =>
    obtain ⟨levels, rfl⟩ := Nat.exists_eq_add_one_of_ne_zero (Nat.ne_zero_of_lt hl)
    have hnext : Serves (Walk.upTo levels) (renderer left) e (d + 1) := ih (by omega) (by omega)
    exact serves_list (below_some (by omega) hnext)

/-- What the nesting limit leaves at depth `d`. -/
def deeperAt (e : Engine) (d : Nat) : Option Renderer :=
  match e.options.maxDepth - d with
  | 0 => none
  | left + 1 => some (renderer left)

theorem below_deeperAt (e : Engine) {d levels : Nat} (hl : e.options.maxDepth ≤ d + levels) :
    Below (Walk.upTo levels) (deeperAt e d) e d := by
  rw [deeperAt]
  cases h : e.options.maxDepth - d with
  | zero => exact below_none (by omega)
  | succ left => exact below_some (by omega) (renderer_serves e (by omega) (by omega))

/-- Walking a template ends as rendering it does. -/
theorem Walk.template_eq (e : Engine) (t : Template) (data : Value) (extra : Option Value)
    {levels : Nat} (hl : e.options.maxDepth < levels) :
    Walk.template levels e t data extra = some (e.render t data extra) := by
  let start := Walker.start e t data extra
  obtain ⟨c, walks, renders, -, -⟩ :=
    renderer_serves e (d := 0) (Nat.sub_zero _) hl start.setting start t.nodes ⟨rfl, rfl, rfl⟩
  have hw := walks [] []
  have hr := renders []
  rw [Walk.template, Engine.render]
  simp only [start, Walker.start] at hw hr
  simp only [Walker.start, hw, hr]
  cases hc : c.outcome <;> simp [Course.ended, Course.walker, hc]

end TextTemplate

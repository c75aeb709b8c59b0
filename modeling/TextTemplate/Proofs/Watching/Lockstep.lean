import TextTemplate.Proofs.Watching.Basic

/-! What the steps of rendering keep between two engines, all of rendering keeps. -/

namespace TextTemplate

/-- A relation that the steps of rendering keep between two engines that show the same things. What
is shown after a tag asks for the body that was pending from the start need only be known where tags
may be `asking`. -/
structure Lockstep (R : ∀ {α : Type}, Watched α → Watched α → Prop) (asking : Prop)
    (e e' : Engine) : Prop where
  kin : Kin e e'
  maxDepth : e'.options.maxDepth = e.options.maxDepth
  eval : ∀ {α : Type} (x : Eval α), R (.eval x) (.eval x)
  bind : ∀ {α β : Type} {x y : Watched α} {f g : α → Watched β},
    R x y → (∀ a, R (f a) (g a)) → R (x >>= f) (y >>= g)
  attempt : ∀ {α : Type} {x y : Watched α}, R x y → R x.attempt y.attempt
  withPending : ∀ {x y : Watched String} (p : Option PendingBody), R x y →
    R (.withPending p x) (.withPending p y)
  take : ∀ {f g : Option PendingBody → Watched String}, (asking → ∀ p, R (f p) (g p)) →
    R (.take >>= f) (.take >>= g)
  leaving : asking → ∀ {x y : Watched String} (p : Option PendingBody), R x y →
    R (x.leaving p) (y.leaving p)
  begun : ∀ (n : Node) (scope : Scope) (defined : Dict Template),
    R (.tell (.begun n scope defined)) (.tell (.begun n scope defined))
  hooked : ∀ s : Setting, s.engine = e → ∀ (n : Node) (out : String),
    R (s.watchHooked n out) ((s.under e').watchHooked n out)
  stepped : ∀ s : Setting, s.engine = e → ∀ (index : Nat) (key value : Value) (out : String),
    R (s.watchStepped index key value out) ((s.under e').watchStepped index key value out)

/-- What is rendered is related in the same setting of both engines. -/
def RelatedIn (R : ∀ {α : Type}, Watched α → Watched α → Prop) (e e' : Engine)
    (body body' : Setting → Watched String) : Prop :=
  ∀ s : Setting, s.engine = e → R (body s) (body' (s.under e'))

/-- The levels below are related. -/
inductive RelatedBelow (R : ∀ {α : Type}, Watched α → Watched α → Prop) (e e' : Engine) :
    Option Watcher → Option Watcher → Prop
  | deeper {go go' : Watcher} (h : ∀ ns, RelatedIn R e e' (go · ns) (go' · ns)) :
      RelatedBelow R e e' (some go) (some go')
  | limit : RelatedBelow R e e' none none

namespace Lockstep
variable {R : ∀ {α : Type}, Watched α → Watched α → Prop} {asking : Prop} {e e' : Engine}
variable {α β : Type} {x y : Watched α} {s : Setting} {go go' : Watcher}
variable {deeper deeper' : Option Watcher} {body body' inverse inverse' : Setting → Watched String}

section
variable (h : Lockstep R asking e e')
include h

theorem pure (a : α) : R (Pure.pure a) (Pure.pure a) := h.eval (Pure.pure a)

theorem map (f : α → β) (hx : R x y) : R (f <$> x) (f <$> y) := h.bind hx fun a => h.pure (f a)

theorem ofExcept (r : Except EngineError α) : R (.ofExcept r) (.ofExcept r) := by
  cases r with
  | ok a => exact h.pure a
  | error e => exact h.eval (throw e)

theorem run {part part' : Part → Option Value → Watched String}
    (hp : ∀ p context, R (part p context) (part' p context)) (run : Run α) :
    R (run.watch part) (run.watch part') := by
  induction run with
  | done r => exact h.ofExcept r
  | render p context next ih => exact h.bind (h.attempt (hp p context)) ih
  | note message next ih => exact h.bind (h.eval _) fun _ => ih

theorem descend (hs : s.engine = e) (hd : RelatedBelow R e e' deeper deeper') (name : String)
    {f f' : Watcher → Watched α}
    (hf : ∀ go go', (∀ ns, RelatedIn R e e' (go · ns) (go' · ns)) → R (f go) (f' go')) :
    R (s.watchDescend deeper name >>= f) ((s.under e').watchDescend deeper' name >>= f') := by
  cases hd with
  | deeper hgo => exact hf _ _ hgo
  | limit =>
    -- Both fail with the number of the same limit.
    have hlimit : (s.under e').watchDescend none name = s.watchDescend none name := by
      simp only [Setting.watchDescend, Setting.under, h.maxDepth, hs]
    have hfail : ∀ k : Watcher → Watched α, s.watchDescend none name >>= k =
        .eval (throw (.nestingLimit name s.engine.options.maxDepth)) := fun _ => rfl
    rw [hlimit, hfail, hfail]
    exact h.eval _

theorem turns (hb : RelatedIn R e e' body body') (hs : s.engine = e) (aliases : List String)
    (container : Value) (length index : Nat) (items : List (Value × Value)) :
    R (watchTurns body s aliases container length index items)
      (watchTurns body' (s.under e') aliases container length index items) := by
  induction items generalizing index with
  | nil => exact h.pure ""
  | cons item items ih =>
    obtain ⟨key, value⟩ := item
    rw [watchTurns, watchTurns]
    refine h.bind (hb (s.push _) hs) fun out => ?_
    refine h.bind (h.stepped s hs index key value out) fun out => ?_
    exact h.bind (ih (index + 1)) fun outs => h.pure _

theorem chosen (hb : RelatedIn R e e' body body') (hs : s.engine = e) (kind : BlockKind)
    (aliases : List String) (subject : Option Value) :
    R (watchChosen body s kind aliases subject)
      (watchChosen body' (s.under e') kind aliases subject) := by
  cases subject with
  | none =>
    rw [watchChosen, watchChosen]
    split
    · exact hb s hs
    · exact h.pure ""
  | some v =>
    rw [watchChosen, watchChosen]
    split
    · exact hb s hs
    · split
      · exact h.turns hb hs aliases v _ 0 _
      · exact hb (s.push _) hs

theorem ordinary (hb : RelatedIn R e e' body body') (hs : s.engine = e) (i : Invocation)
    (negated : Bool) (kind : BlockKind) :
    R (watchOrdinary body s i negated kind)
      (watchOrdinary body' (s.under e') i negated kind) := by
  have hkin : Kin s.engine e' := hs ▸ h.kin
  rw [watchOrdinary, watchOrdinary, hkin.subject]
  refine h.bind (h.eval _) fun subject => ?_
  rw [hkin.holds]
  refine h.bind (h.eval _) fun holds => ?_
  cases negated <;> cases holds <;> simp only [Bool.false_eq_true, if_true, if_false]
  · exact h.pure none
  · exact h.map some (h.chosen hb hs kind i.aliases subject)
  · exact h.map some (hb s hs)
  · exact h.pure none

theorem helper (hs : s.engine = e) {part part' : Part → Setting → Watched String}
    (hp : ∀ p, RelatedIn R e e' (part p) (part' p)) (c : BlockCall) (negated : Bool) :
    R (watchHelper s c negated part) (watchHelper (s.under e') c negated part') := by
  have hkin : Kin s.engine e' := hs ▸ h.kin
  rw [watchHelper, watchHelper, hkin.helper?]
  cases s.engine.helpers.get? c.name with
  | none => exact h.pure ""
  | some helper =>
    dsimp only
    rw [hkin.evalParams, hkin.evalHash, hkin.call, hkin.emit]
    refine h.bind (h.eval _) fun args => h.bind (h.eval _) fun hash => ?_
    refine h.bind (h.run (fun p context => ?_) _) fun out => h.pure _
    cases context with
    | none => exact hp _ s hs
    | some context => exact hp _ (s.push _) hs

theorem branch (hb : RelatedIn R e e' body body') (hi : RelatedIn R e e' inverse inverse')
    (hs : s.engine = e) (i : Invocation) (negated : Bool) :
    R (watchBranch s i negated body inverse)
      (watchBranch (s.under e') i negated body' inverse') := by
  have hp : ∀ p, RelatedIn R e e' (watchPart body inverse p) (watchPart body' inverse' p) := by
    intro p
    cases p with
    | body => exact hb
    | inverse => exact hi
  have hcall : (s.under e').blockCall? i = s.blockCall? i := by
    subst hs
    rw [Setting.blockCall?, Setting.blockCall?, h.kin.bareHelper?]
  rw [watchBranch, watchBranch, hcall]
  cases s.blockCall? i with
  | none => exact h.ordinary hb hs i negated _
  | some c => exact h.map some (h.helper hs hp c negated)

theorem alternates (hgo : ∀ ns, RelatedIn R e e' (go · ns) (go' · ns))
    (alternates : List Alternate) :
    RelatedIn R e e' (watchAlternates go · alternates) (watchAlternates go' · alternates) := by
  induction alternates with
  | nil => exact fun _ _ => h.pure ""
  | cons a rest ih =>
    obtain ⟨condition, ns⟩ := a
    intro s hs
    cases condition with
    | none => exact hgo ns s hs
    | some condition =>
      dsimp only
      rw [watchAlternates, watchAlternates]
      refine h.bind (h.branch (hgo ns) ih hs condition false) fun out => ?_
      cases out with
      | none => exact ih s hs
      | some out => exact h.pure out

theorem block (hgo : ∀ ns, RelatedIn R e e' (go · ns) (go' · ns)) (b : Block) :
    RelatedIn R e e' (watchBlock go · b) (watchBlock go' · b) := by
  intro s hs
  have hrest := h.alternates hgo b.alternates
  dsimp only
  rw [watchBlock, watchBlock]
  refine h.bind (h.branch (hgo b.body) hrest hs b.invocation b.negated) fun out => ?_
  cases out with
  | none => exact hrest s hs
  | some out => exact h.pure out

theorem pending (ha : asking) (hs : s.engine = e) (hd : RelatedBelow R e e' deeper deeper')
    (p : PendingBody) : R (watchPending deeper s p) (watchPending deeper' (s.under e') p) :=
  h.descend hs hd partialBlockName fun _ _ hgo =>
    h.leaving ha (some p) (hgo p.nodes { s with scope := p.scope, defined := p.defined } hs)

theorem partialNodes (hs : s.engine = e) (hd : RelatedBelow R e e' deeper deeper') (name : String)
    (i : Invocation) (body : Option (List Node)) (target : Registered) :
    R (watchPartial deeper s name i body target)
      (watchPartial deeper' (s.under e') name i body target) := by
  have hkin : Kin s.engine e' := hs ▸ h.kin
  rw [watchPartial, watchPartial, hkin.contextFor, hkin.evalHash]
  refine h.bind (h.eval _) fun context => h.bind (h.eval _) fun hash => ?_
  cases target with
  | native f => exact h.ofExcept _
  | template t =>
    refine h.withPending _ ?_
    refine h.descend hs hd name fun go go' hgo => ?_
    rw [hkin.enter]
    exact hgo t.nodes _ hs

theorem tag (hs : s.engine = e) (hd : RelatedBelow R e e' deeper deeper') (name : PartialName)
    (i : Invocation) (body : Option (List Node)) {fallback fallback' : Watched String}
    (hf : R fallback fallback') :
    R (watchTag deeper s name i body fallback)
      (watchTag deeper' (s.under e') name i body fallback') := by
  have hkin : Kin s.engine e' := hs ▸ h.kin
  rw [watchTag, watchTag, hkin.partialName]
  refine h.bind (h.eval _) fun name => ?_
  by_cases hn : name = partialBlockName
  · simp only [hn, if_true]
    refine h.take fun ha p => ?_
    cases p with
    | none => exact hf
    | some p => exact h.pending ha hs hd p
  · simp only [hn, if_false, hkin.partial?]
    cases s.partial? name with
    | none => exact hf
    | some target => exact h.partialNodes hs hd name i body target

/-! The levels below are given here, so that the two proofs follow the tree. -/

mutual

theorem node (hs : s.engine = e) (hd : RelatedBelow R e e' deeper deeper') :
    ∀ n, R (watchNode deeper s n) (watchNode deeper' (s.under e') n)
  | .text text => by
    rw [watchNode, watchNode]
    exact h.pure text
  | .value i escaped => by
    have hkin : Kin s.engine e' := hs ▸ h.kin
    rw [watchNode, watchNode, hkin.invocation, hkin.emit]
    exact h.bind (h.eval _) fun out => h.pure _
  | .block b => by
    rw [watchNode, watchNode]
    exact h.descend hs hd b.name fun go go' hgo => h.block hgo b s hs
  | .partialTag ⟨name, i, some body⟩ => by
    rw [watchNode, watchNode]
    exact h.tag hs hd name i (some body) (nodes hs hd body)
  | .partialTag ⟨name, i, none⟩ => by
    rw [watchNode, watchNode]
    exact h.tag hs hd name i none (h.pure "")

theorem nodes (hs : s.engine = e) (hd : RelatedBelow R e e' deeper deeper') :
    ∀ ns, R (watchNodes deeper s ns) (watchNodes deeper' (s.under e') ns)
  | [] => by
    rw [watchNodes, watchNodes]
    exact h.pure ""
  | n :: ns => by
    rw [watchNodes, watchNodes]
    refine h.bind (h.begun n s.scope s.defined) fun _ => ?_
    refine h.bind (node hs hd n) fun out => ?_
    refine h.bind (h.hooked s hs n out) fun out => ?_
    exact h.bind (nodes hs hd ns) fun outs => h.pure _

end

theorem below (left : Nat) : RelatedBelow R e e' (watchersBelow left) (watchersBelow left) := by
  induction left with
  | zero => exact .limit
  | succ left ih =>
    refine .deeper fun ns s hs => ?_
    rw [watcher_eq]
    exact h.nodes hs ih ns

/-- Nodes are related on every level. -/
theorem watcher (left : Nat) (ns : List Node) :
    RelatedIn R e e' (TextTemplate.watcher left · ns) (TextTemplate.watcher left · ns) := by
  intro s hs
  rw [watcher_eq]
  exact h.nodes hs (h.below left) ns

end
end Lockstep
end TextTemplate

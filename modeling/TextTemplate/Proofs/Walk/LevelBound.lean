import TextTemplate.Proofs.Walk.Nesting

/-! The nesting limit bounds the lists inside one another only together with the bodies of tags that
find no partial. -/

namespace TextTemplate
namespace Walk

/-- From `w`, the walk succeeds, puts everything back, and opens `h` lists inside one another. -/
def Reaches (h : Nat) (m : Walk (Outcome String)) (w : Walker) : Prop :=
  ∃ out es, (∀ events, m { w with events } = some (.ok out, { w with events := events ++ es })) ∧
    tallest es = h

section
variable {inner : List Node → Walk (Outcome String)} {m : Walk (Outcome String)} {w : Walker}
variable {h : Nat} {name : String} {body : List Node}

theorem reaches_filed (hm : Reaches h m w) : Reaches (h + 1) (filed .list m) w := by
  obtain ⟨out, es, hm, hes⟩ := hm
  refine ⟨out, [.list es], ?_, ?_⟩
  · intro events
    rw [filed_apply, hm []]
    rfl
  · rw [tallest_singleton, Event.height, hes]

theorem reaches_nil : Reaches 0 (nodes inner []) w := by
  refine ⟨"", [], ?_, rfl⟩
  intro events
  rw [nodes, pure_apply, List.append_nil]

theorem reaches_single {n : Node} (hn : Reaches h (node inner n) w) :
    Reaches h (nodes inner [n]) w := by
  obtain ⟨out, es, hn, hes⟩ := hn
  refine ⟨w.setting.hooked n out ++ "", es, ?_, hes⟩
  intro events
  simp [nodes, hn]

/-- A tag whose partial is missing shows its body on the level where it stands. -/
theorem reaches_fallback (hn : name ≠ partialBlockName) (hp : w.setting.partial? name = none)
    (i : Invocation) (hb : Reaches h (nodes inner body) w) :
    Reaches (h + 1) (node inner (.partialTag ⟨.fixed name, i, some body⟩)) w := by
  obtain ⟨out, es, hb, hes⟩ := reaches_filed hb
  refine ⟨out, es, ?_, hes⟩
  intro events
  have hname : eval (PartialName.eval · (.fixed name)) { w with events } =
      some (.ok name, { w with events }) := rfl
  rw [node.eq_def]
  simp [hname, hn, hp, hb]

/-- The condition of `if true`. -/
def holdsAlways : Invocation := ⟨some "if", [.literal (.bool true)], [], []⟩

def always (body : List Node) : Node := .block ⟨"if", holdsAlways, false, body, []⟩

theorem branch_always {out : String} {w' : Walker} (rest : Walk (Outcome String))
    (hb : inner body w = some (.ok out, w')) :
    branch inner holdsAlways false body rest w = some (.ok (some out), w') := by
  have hsubject : eval (holdsAlways.subject ·) w = some (.ok (some (.bool true)), w) := rfl
  have hholds : eval (·.holds .ifTrue holdsAlways (some (.bool true))) w = some (.ok true, w) := rfl
  have hkind : BlockKind.of holdsAlways = .ifTrue := by decide
  have hhelper : holdsAlways.helper = some "if" := rfl
  rw [branch]
  simp [hkind, hhelper, ordinary, hsubject, hholds, chosen, hb]

theorem reaches_always (hd : w.depth < w.setting.engine.options.maxDepth)
    (hb : Reaches h (inner body) { w with depth := w.depth + 1 }) :
    Reaches h (node inner (always body)) w := by
  obtain ⟨out, es, hb, hes⟩ := hb
  refine ⟨out, es, ?_, hes⟩
  intro events
  have hgo := descend_of_lt { w with events } "if" hd
  have hbranch := branch_always (alternates inner []) (hb events)
  rw [always, node]
  simp [hgo, block, hbranch]

/-- The list inside so many bodies of tags of one partial. -/
def wrapped (name : String) (ns : List Node) : Nat → List Node
  | 0 => ns
  | k + 1 => [.partialTag ⟨.fixed name, ⟨none, [], [], []⟩, some (wrapped name ns k)⟩]

theorem reaches_wrapped (hn : name ≠ partialBlockName) (hp : w.setting.partial? name = none)
    {ns : List Node} (hns : Reaches h (nodes inner ns) w) (k : Nat) :
    Reaches (h + k) (nodes inner (wrapped name ns k)) w := by
  induction k with
  | zero => exact hns
  | succ k ih => exact reaches_single (reaches_fallback hn hp _ ih)

/-- Blocks inside one another, with so many bodies of partial tags around each and in the last. -/
def tower (name : String) (k : Nat) : Nat → List Node
  | 0 => wrapped name [] k
  | d + 1 => wrapped name [always (tower name k d)] k

theorem reaches_tower (name : String) (hn : name ≠ partialBlockName) (k d : Nat) :
    ∀ w : Walker, w.setting.partial? name = none → w.depth + d ≤ w.setting.engine.options.maxDepth →
      Reaches ((d + 1) * (k + 1)) (upTo (d + 1) (tower name k d)) w := by
  induction d with
  | zero =>
    intro w hp _
    have hinside : Reaches (0 + k) (nodes (upTo 0) (wrapped name [] k)) w :=
      reaches_wrapped hn hp reaches_nil k
    have hlist := reaches_filed hinside
    rw [Nat.zero_add] at hlist
    rw [Nat.zero_add, Nat.one_mul]
    exact hlist
  | succ d ih =>
    intro w hp hd
    have hle : w.depth + 1 + d ≤ w.setting.engine.options.maxDepth := by omega
    have hdeeper := ih { w with depth := w.depth + 1 } hp hle
    have hlt : w.depth < w.setting.engine.options.maxDepth := by omega
    have hblock := reaches_single (reaches_always hlt hdeeper)
    have hlist := reaches_filed (reaches_wrapped hn hp hblock k)
    rw [Nat.succ_mul (d + 1)]
    exact hlist

variable {e : Engine}

theorem chainOf_wrapped (hl : (PartialName.fixed name).mayLack e) (ns : List Node) (k : Nat) :
    chainOf e (wrapped name ns k) = chainOf e ns + k := by
  induction k with
  | zero => rfl
  | succ k ih =>
    simp only [wrapped, chainOf, Node.chain, if_pos hl, ih]
    omega

theorem fallbacksOf_wrapped (hl : (PartialName.fixed name).mayLack e) {ns : List Node}
    (hns : chainOf e ns = 0) (k : Nat) :
    fallbacksOf e (wrapped name ns k) = max (fallbacksOf e ns) k := by
  induction k with
  | zero => exact (Nat.max_zero _).symm
  | succ k ih =>
    simp only [wrapped, fallbacksOf, Node.fallbacks, if_pos hl, chainOf_wrapped hl, hns, ih]
    omega

theorem fallbacksOf_tower (hl : (PartialName.fixed name).mayLack e) (k d : Nat) :
    fallbacksOf e (tower name k d) = k := by
  induction d with
  | zero => rw [tower, fallbacksOf_wrapped hl rfl, fallbacksOf, Nat.zero_max]
  | succ d ih =>
    have hblock : fallbacksOf e [always (tower name k d)] = k := by
      simp [always, fallbacksOf, Node.fallbacks, fallbacksIn, ih]
    rw [tower, fallbacksOf_wrapped hl rfl, hblock, Nat.max_self]

end

/-- The walk fails at the nesting limit, in the name of what was to be opened. -/
def Refuses (called : String) (m : Walk (Outcome String)) (w : Walker) : Prop :=
  ∃ w', m w = some (.error (.nestingLimit called w.setting.engine.options.maxDepth), w')

theorem refuses_block (inner : List Node → Walk (Outcome String)) (b : Block) {w : Walker}
    (hd : w.setting.engine.options.maxDepth ≤ w.depth) :
    Refuses b.name (node inner (.block b)) w := by
  refine ⟨w, ?_⟩
  rw [node, bind_apply, descend_of_le w b.name hd]
  rfl

end Walk

namespace Engine
variable (e : Engine) (t : Template) (data : Value) (extra : Option Value)

theorem tame_start : Tame e (e.fallbacks t) (.start e t data extra) := by
  have hnone : Shallow e (e.fallbacks t) [] := nofun
  refine ⟨rfl, ?_, hnone.insertAll rendered_le, nofun⟩
  intro name u hu
  exact registered_le hu

/-- A render is a walk with a level more than the limit, and the levels bound its lists. -/
theorem render_opens : ∃ r w,
    Walk.upTo (e.options.maxDepth + 1) t.nodes (.start e t data extra) = some (r, w) ∧
    e.render t data extra = ⟨r, w.log⟩ ∧
    tallest w.events ≤ (e.options.maxDepth + 1) * (e.fallbacks t + 1) := by
  have hrender := Walk.template_eq e t data extra (Nat.lt_succ_self _)
  rw [Walk.template] at hrender
  obtain ⟨⟨r, w⟩, hwalk, hr⟩ := Option.bind_eq_some_iff.1 hrender
  have hnodes : fallbacksOf e t.nodes ≤ e.fallbacks t := Nat.le_trans t.nodes_le rendered_le
  obtain ⟨-, es, hes, ht⟩ :=
    Walk.opens_upTo _ t.nodes hnodes _ r w (e.tame_start t data extra) hwalk
  refine ⟨r, w, hwalk, (Option.some.inj hr).symm, ?_⟩
  rw [hes]
  exact ht

/-- As many lists as that are reached, whatever the limit. -/
theorem create_reaches (options : Options) (k : Nat) :
    ∃ t, (create options).fallbacks t = k ∧ ∃ out w,
      Walk.upTo (options.maxDepth + 1) t.nodes (.start (create options) t data extra) =
        some (.ok out, w) ∧
      tallest w.events = (options.maxDepth + 1) * (k + 1) := by
  refine ⟨⟨Walk.tower "missing" k options.maxDepth, []⟩, ?_, ?_⟩
  · have hlack : (PartialName.fixed "missing").mayLack (create options) :=
      PartialName.mayLack_fixed (.inr rfl)
    exact (Nat.max_zero _).trans (Walk.fallbacksOf_tower hlack k options.maxDepth)
  · have hdepth : 0 + options.maxDepth ≤ options.maxDepth := by omega
    obtain ⟨out, es, hw, hes⟩ :=
      Walk.reaches_tower "missing" (by decide) k options.maxDepth
        (.start (create options) ⟨[], []⟩ data extra) rfl hdepth
    exact ⟨out, _, hw [], hes⟩

/-- Where every tag with a body names a registered partial, no more lists stand inside one another than
the limit and one. In general the body of a tag that finds no partial opens on the level of its tag,
so that each level counts once more for every body in a longest chain of these; so many are reached,
whatever the limit. All else goes a level deeper, and is refused where none is left. -/
theorem lists_within_levels :
    (∃ r w,
      Walk.upTo (e.options.maxDepth + 1) t.nodes (.start e t data extra) = some (r, w) ∧
      e.render t data extra = ⟨r, w.log⟩ ∧
      (e.fallbacks t = 0 → tallest w.events ≤ e.options.maxDepth + 1) ∧
      tallest w.events ≤ (e.options.maxDepth + 1) * (e.fallbacks t + 1)) ∧
    (∀ k, ∃ u, (create e.options).fallbacks u = k ∧ ∃ out w,
      Walk.upTo (e.options.maxDepth + 1) u.nodes (.start (create e.options) u data extra) =
        some (.ok out, w) ∧
      tallest w.events = (e.options.maxDepth + 1) * (k + 1)) ∧
    ∀ inner (w : Walker) below,
      let low := { w with depth := w.setting.engine.options.maxDepth + below }
      (∀ b, Walk.Refuses b.name (Walk.node inner (.block b)) low) ∧
      (∀ p, Walk.Refuses partialBlockName (Walk.pendingBody inner p) low) ∧
      ∀ name f body t, Walk.Refuses name (Walk.included inner name f body t) low := by
  refine ⟨?_, create_reaches data extra e.options, ?_⟩
  · obtain ⟨r, w, hwalk, hrender, ht⟩ := e.render_opens t data extra
    refine ⟨r, w, hwalk, hrender, ?_, ht⟩
    intro hnone
    rw [hnone, Nat.zero_add, Nat.mul_one] at ht
    exact ht
  · intro inner w below low
    have hd : low.setting.engine.options.maxDepth ≤ low.depth := Nat.le_add_right ..
    refine ⟨?_, ?_, ?_⟩
    · intro b
      exact Walk.refuses_block inner b hd
    · intro p
      exact ⟨_, Walk.pendingBody_of_le hd⟩
    · intro name f body t
      exact ⟨_, Walk.included_of_le name body hd⟩

/-- A partial that shows the body of its tag. -/
def frame : Template := ⟨[.partialTag ⟨.fixed partialBlockName, ⟨none, [], [], []⟩, none⟩], []⟩

/-- Tags of it, one in the body of the other. -/
def twiceFramed : Template :=
  let around ns : Node := .partialTag ⟨.fixed "frame", ⟨none, [], [], []⟩, some ns⟩
  ⟨[around [around [.text "x"]]], []⟩

/-- The inner tag would open a fourth list. -/
theorem lists_within_levels_framed :
    let e := (create { maxDepth := 2 }).registerTemplate "frame" frame
    e.fallbacks twiceFramed = 0 ∧
      (e.render twiceFramed .null none).result = .error (.nestingLimit "frame" 2) ∧
      ∃ r w, Walk.upTo 3 twiceFramed.nodes (.start e twiceFramed .null none) = some (r, w) ∧
        tallest w.events ≤ 3 := by
  intro e
  have hnone : e.fallbacks twiceFramed = 0 := by decide
  obtain ⟨⟨r, w, hwalk, -, hle, -⟩, -, -⟩ := lists_within_levels e twiceFramed .null none
  exact ⟨hnone, rfl, r, w, hwalk, hle hnone⟩

end Engine
end TextTemplate

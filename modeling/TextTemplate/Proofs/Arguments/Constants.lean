import TextTemplate.Render.Node

/-! A constant among the arguments of a tag is worth what a path is that leads to the same value. -/

namespace TextTemplate

mutual

/-- The constant in all places of a path. -/
def Reference.put (p : Path) (l : Literal) : Reference → Reference
  | .literal l' => .literal l'
  | .path q => if q = p then .literal l else .path q
  | .call i => .call (i.put p l)

def Invocation.put (p : Path) (l : Literal) : Invocation → Invocation
  | ⟨helper, params, hash, aliases⟩ => ⟨helper, putParams p l params, putHash p l hash, aliases⟩

def putParams (p : Path) (l : Literal) : List Reference → List Reference
  | [] => []
  | r :: rs => r.put p l :: putParams p l rs

def putHash (p : Path) (l : Literal) : List (String × Reference) → List (String × Reference)
  | [] => []
  | (key, r) :: rest => (key, r.put p l) :: putHash p l rest

end

def PartialName.put (p : Path) (l : Literal) : PartialName → PartialName
  | fixed name => fixed name
  | computed call => computed (call.put p l)

/-- In all arguments of a node; what stands inside it may mean something else by the path. -/
def Node.put (p : Path) (l : Literal) : Node → Node
  | text s => text s
  | value i escaped => value (i.put p l) escaped
  | block b => block { b with invocation := b.invocation.put p l }
  | partialTag t => partialTag { t with name := t.name.put p l, invocation := t.invocation.put p l }

/-- The path leads to the constant, and is not taken for a helper. -/
structure Setting.Holds (s : Setting) (p : Path) (l : Literal) : Prop where
  value : s.resolve? p = some l.toValue
  name : p.identifier?.filter s.engine.hasHelper = none

section
variable {s : Setting} {p : Path} {l : Literal}

theorem Reference.identifier?_put (h : s.Holds p l) (r : Reference) :
    (r.put p l).identifier?.filter s.engine.hasHelper =
      r.identifier?.filter s.engine.hasHelper := by
  cases r with
  | literal l' => rw [Reference.put]
  | path q =>
    rw [Reference.put]
    split
    · rename_i hq
      rw [hq]
      exact h.name.symm
    · rfl
  | call i => rw [Reference.put]; rfl

theorem Setting.bareHelper?_put (h : s.Holds p l) (i : Invocation) :
    s.bareHelper? (i.put p l) = s.bareHelper? i := by
  obtain ⟨helper, params, hash, aliases⟩ := i
  rw [Invocation.put]
  match params, hash with
  | [r], [] => exact r.identifier?_put h
  | [], _ => rfl
  | _ :: _ :: _, _ => rfl
  | [_], (_, _) :: _ => rfl

mutual

theorem Reference.eval_put (h : s.Holds p l) : ∀ r : Reference, (r.put p l).eval s = r.eval s
  | .literal _ => by rw [Reference.put]
  | .path q => by
    rw [Reference.put]
    split
    · rename_i hq
      rw [hq, Reference.eval, Reference.eval, h.value]
    · rfl
  | .call i => by rw [Reference.put, Reference.eval, Reference.eval, Invocation.eval_put h i]

theorem Invocation.eval_put (h : s.Holds p l) : ∀ i : Invocation, (i.put p l).eval s = i.eval s
  | ⟨some name, params, hash, _⟩ => by
    rw [Invocation.put, Invocation.eval, Invocation.eval, evalParams_put h params]
    simp only [evalHash_put h hash []]
  | ⟨none, [], _, _⟩ => by rw [Invocation.put, putParams, Invocation.eval, Invocation.eval]
  | ⟨none, r :: rs, hash, aliases⟩ => by
    have hb := Setting.bareHelper?_put h ⟨none, r :: rs, hash, aliases⟩
    rw [Invocation.put, putParams] at hb ⊢
    rw [Invocation.eval, Invocation.eval, hb, Reference.eval_put h r]

theorem evalParams_put (h : s.Holds p l) :
    ∀ rs : List Reference, evalParams s (putParams p l rs) = evalParams s rs
  | [] => by rw [putParams]
  | r :: rs => by
    rw [putParams, evalParams, evalParams, Reference.eval_put h r, evalParams_put h rs]

theorem evalHash_put (h : s.Holds p l) :
    ∀ (hash : List (String × Reference)) (d : Dict Value),
      evalHash s (putHash p l hash) d = evalHash s hash d
  | [], d => by rw [putHash]
  | (key, r) :: rest, d => by
    rw [putHash, evalHash, evalHash, Reference.eval_put h r]
    simp only [evalHash_put h rest]

end

theorem Invocation.subject_put (h : s.Holds p l) (i : Invocation) :
    (i.put p l).subject s = i.subject s := by
  obtain ⟨helper, params, hash, aliases⟩ := i
  rw [Invocation.put]
  cases params with
  | nil => rfl
  | cons r rs => exact r.eval_put h

theorem lookup_putHash (key : String) : ∀ hash : List (String × Reference),
    (putHash p l hash).lookup key = (hash.lookup key).map (Reference.put p l)
  | [] => by rw [putHash]; rfl
  | (k, r) :: rest => by
    rw [putHash, List.lookup_cons, List.lookup_cons]
    cases key == k with
    | true => rfl
    | false => exact lookup_putHash key rest

theorem Setting.test_put (h : s.Holds p l) (i : Invocation) (subject : Option Value) :
    s.test (i.put p l) subject = s.test i subject := by
  have hflag : (i.put p l).hashValue? "includeZero" =
      (i.hashValue? "includeZero").map (Reference.put p l) := by
    obtain ⟨helper, params, hash, aliases⟩ := i
    rw [Invocation.put]
    exact lookup_putHash _ _
  rw [test, test, hflag]
  cases i.hashValue? "includeZero" with
  | none => rfl
  | some r => simp only [Option.map_some, r.eval_put h]

theorem Setting.holds_put (h : s.Holds p l) (kind : BlockKind) (i : Invocation)
    (subject : Option Value) : s.holds kind (i.put p l) subject = s.holds kind i subject := by
  cases kind <;> simp only [holds, test_put h]

theorem renderHelper_put (h : s.Holds p l) (name : String) (params : List Reference)
    (hash : List (String × Reference)) (negated : Bool) (part : Part → Setting → Render String) :
    renderHelper s name (putParams p l params) (putHash p l hash) negated part =
      renderHelper s name params hash negated part := by
  simp only [renderHelper, evalParams_put h, evalHash_put h]

theorem renderBranch_put (h : s.Holds p l) (i : Invocation) (negated : Bool)
    (body inverse : Setting → Render String) :
    renderBranch s (i.put p l) negated body inverse = renderBranch s i negated body inverse := by
  have hb := Setting.bareHelper?_put h i
  have hs := i.subject_put h
  have hh := fun kind => Setting.holds_put h kind i
  obtain ⟨helper, params, hash, aliases⟩ := i
  rw [Invocation.put] at hb hs hh ⊢
  have hk : BlockKind.of ⟨helper, putParams p l params, putHash p l hash, aliases⟩ =
      BlockKind.of ⟨helper, params, hash, aliases⟩ := rfl
  simp only [renderBranch, hb, hs, hh, hk, renderHelper_put h]

theorem PartialName.eval_put (h : s.Holds p l) (n : PartialName) :
    (n.put p l).eval s = n.eval s := by
  cases n with
  | fixed name => rfl
  | computed call => simp only [PartialName.put, PartialName.eval, call.eval_put h]

theorem renderPartial_put (h : s.Holds p l) (deeper : Option Renderer) (name : String)
    (i : Invocation) (body : Option (List Node)) (target : Registered) :
    renderPartial deeper s name (i.put p l) body target =
      renderPartial deeper s name i body target := by
  obtain ⟨helper, params, hash, aliases⟩ := i
  rw [Invocation.put]
  cases params with
  | nil => simp only [renderPartial, putParams, evalHash_put h]
  | cons r rs => simp only [renderPartial, putParams, evalHash_put h, r.eval_put h]

/-- Where a path leads to a constant, a tag renders the same with the constant in its place. -/
theorem renderNode_put (h : s.Holds p l) (deeper : Option Renderer) (n : Node) :
    renderNode deeper s (n.put p l) = renderNode deeper s n := by
  cases n with
  | text t => rw [Node.put]
  | value i escaped => rw [Node.put, renderNode, renderNode, i.eval_put h]
  | block b =>
    rw [Node.put, renderNode, renderNode]
    simp only [renderBlock, renderBranch_put h]
  | partialTag t =>
    obtain ⟨name, i, body⟩ := t
    cases body <;> simp only [Node.put, renderNode, name.eval_put h, renderPartial_put h]

end
end TextTemplate

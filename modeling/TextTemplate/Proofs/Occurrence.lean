import TextTemplate.Template.Basic

/-! Where a node stands in a tree. -/

namespace TextTemplate

/-- The node stands in the list, at any depth. The bodies of partial tags count. -/
inductive Node.Within (n : Node) : List Node → Prop
  | here {ns : List Node} (h : n ∈ ns) : n.Within ns
  | body {b : Block} {ns : List Node} (h : .block b ∈ ns) (hn : n.Within b.body) : n.Within ns
  | alternate {b : Block} {a : Alternate} {ns : List Node} (h : .block b ∈ ns)
      (ha : a ∈ b.alternates) (hn : n.Within a.body) : n.Within ns
  | partialBody {name : PartialName} {i : Invocation} {body ns : List Node}
      (h : .partialTag ⟨name, i, some body⟩ ∈ ns) (hn : n.Within body) : n.Within ns

/-- The node stands in the template or in a partial that it defines. -/
inductive Template.Holds (n : Node) : Template → Prop
  | nodes {t : Template} (h : n.Within t.nodes) : t.Holds n
  | partials {t p : Template} {name : String} (h : (name, p) ∈ t.partials) (hn : p.Holds n) :
      t.Holds n

variable {n m : Node} {ns ms : List Node}

namespace Node

theorem Within.mono (h : n.Within ns) (hs : ns ⊆ ms) : n.Within ms := by
  cases h with
  | here h => exact .here (hs h)
  | body h hn => exact .body (hs h) hn
  | alternate h ha hn => exact .alternate (hs h) ha hn
  | partialBody h hn => exact .partialBody (hs h) hn

@[simp] theorem within_nil : ¬ n.Within [] := by
  intro h
  cases h with
  | here h | body h _ | alternate h _ _ | partialBody h _ => cases h

/-- The node stands in a branch or in the body of the other one. -/
def Inside (n : Node) : Node → Prop
  | .block b => n.Within b.body ∨ ∃ a ∈ b.alternates, n.Within a.body
  | .partialTag ⟨_, _, body⟩ => ∃ ns, body = some ns ∧ n.Within ns
  | _ => False

theorem within_cons : n.Within (m :: ns) ↔ n = m ∨ n.Inside m ∨ n.Within ns := by
  constructor
  · intro h
    cases h with
    | here h =>
      rcases List.mem_cons.1 h with rfl | h
      · exact .inl rfl
      · exact .inr (.inr (.here h))
    | body h hn =>
      rcases List.mem_cons.1 h with rfl | h
      · exact .inr (.inl (.inl hn))
      · exact .inr (.inr (.body h hn))
    | alternate h ha hn =>
      rcases List.mem_cons.1 h with rfl | h
      · exact .inr (.inl (.inr ⟨_, ha, hn⟩))
      · exact .inr (.inr (.alternate h ha hn))
    | partialBody h hn =>
      rcases List.mem_cons.1 h with rfl | h
      · exact .inr (.inl ⟨_, rfl, hn⟩)
      · exact .inr (.inr (.partialBody h hn))
  · rintro (rfl | h | h)
    · exact .here (List.mem_cons_self ..)
    · cases m with
      | text s => cases h
      | value i escaped => cases h
      | block b =>
        rcases h with h | ⟨a, ha, h⟩
        · exact .body (List.mem_cons_self ..) h
        · exact .alternate (List.mem_cons_self ..) ha h
      | partialTag tag =>
        obtain ⟨name, i, body⟩ := tag
        obtain ⟨ns, rfl, h⟩ := h
        exact .partialBody (List.mem_cons_self ..) h
    · exact h.mono (List.subset_cons_self ..)

end Node
end TextTemplate

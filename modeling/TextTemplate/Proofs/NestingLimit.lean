import TextTemplate.Proofs.Likeness.Node

/-! A render that ends within the nesting limit does not depend on it. -/

namespace TextTemplate

/-- The engine with another nesting limit. -/
def Engine.withLimit (e : Engine) (limit : Nat) : Engine :=
  { e with options := { e.options with maxDepth := limit } }

theorem kin_withLimit (e : Engine) (limit limit' : Nat) :
    Kin (e.withLimit limit) (e.withLimit limit') := by
  constructor <;> try first | rfl | exact fun _ => rfl
  · rintro s hs
    funext index key value output
    simp only [Setting.stepped, Setting.under, hs]
    rfl
  · rintro s hs
    funext node output
    simp only [Setting.hooked, Setting.under, hs]
    rfl

namespace Engine
variable {e : Engine} {t : Template} {data : Value} {extra : Option Value} {limit limit' : Nat}

/-- A render that ends otherwise than at the nesting limit ends the same with a higher limit. -/
theorem render_withLimit_eq (he : e.Propagates) (h : limit ≤ limit')
    (hf : ∀ name n, ((e.withLimit limit).render t data extra).result ≠
      .error (.nestingLimit name n)) :
    ((e.withLimit limit').render t data extra).result =
      ((e.withLimit limit).render t data extra).result := by
  have hspans : Tolerance.limited.Spans (e.withLimit limit) (e.withLimit limit') limit limit' :=
    .inr ⟨h, fun name => ⟨name, limit, rfl⟩⟩
  have hs : (Walker.start (e.withLimit limit) t data extra).setting.Of (e.withLimit limit) extra :=
    ⟨rfl, rfl⟩
  have hlike := like_renderer (kin_withLimit e limit limit') he hspans t.nodes _ hs
  rw [result_render, Walker.directly, Walker.direct_eq] at hf ⊢
  rw [result_render, Walker.directly, Walker.direct_eq]
  exact hlike.outcome_limited rfl hf

/-- A template with two levels of blocks. -/
def nested : Template := ⟨[
  .block ⟨"wrap", ⟨some "wrap", [], [], []⟩, false, [
    .text "a",
    .block ⟨"if", ⟨some "if", [.literal (.bool true)], [], []⟩, false, [.text "b"], []⟩], []⟩], []⟩

/-- An engine with a helper that wraps its block. -/
def wrapping : Engine := { create {} with helpers := [("wrap", fun _ => do
  let out ← Run.body none
  pure (.safe ("(" ++ out ++ ")")))] }

theorem render_withLimit_eq_nested :
    ((wrapping.withLimit 2).render nested .null none).result = .ok "(ab)" ∧
      ((wrapping.withLimit 9).render nested .null none).result =
        ((wrapping.withLimit 2).render nested .null none).result := by
  have h : ((wrapping.withLimit 2).render nested .null none).result = .ok "(ab)" := by rfl
  refine ⟨h, render_withLimit_eq ?_ (by decide) ?_⟩
  · intro name helper hn c
    simp only [wrapping, Dict.get?_cons, Dict.get?_nil] at hn
    split at hn
    · cases hn
      exact ⟨fun out => trivial, fun err => rfl⟩
    · cases hn
  · intro name n
    rw [h]
    nofun

end Engine
end TextTemplate

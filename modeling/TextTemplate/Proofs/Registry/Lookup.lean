import TextTemplate.Proofs.Watching.Hooks

/-! Rendering sees of an engine its options and what its registries answer, and nothing else. -/

namespace TextTemplate

/-- Engines with the same options whose registries give the same answers. -/
structure SameAnswers (e e' : Engine) : Prop where
  options : e'.options = e.options
  helpers : ∀ name, e'.helpers.get? name = e.helpers.get? name
  partials : ∀ name, e'.partials.get? name = e.partials.get? name

namespace SameAnswers
variable {e e' : Engine}

theorem kin (h : SameAnswers e e') : Kin e e' where
  helpers := h.helpers
  partials := h.partials
  escapeHtml := by rw [h.options]
  entities := by rw [h.options]
  limitPartialScope := by rw [h.options]
  stepped s hs := by
    funext index key value output
    simp only [Setting.stepped, Setting.under, h.options, hs]
  hooked s hs := by
    funext node output
    simp only [Setting.hooked, Setting.under, h.options, hs]

theorem render (h : SameAnswers e e') (t : Template) (data : Value) (extra : Option Value) :
    e'.render t data extra = e.render t data extra :=
  Engine.render_eq_of_kin h.kin (by rw [h.options]) t data extra

theorem renderNamed (h : SameAnswers e e') (name : String) (data : Value) (extra : Option Value) :
    e'.renderNamed name data extra = e.renderNamed name data extra := by
  simp only [Engine.renderNamed, h.partials, h.render]

end SameAnswers
end TextTemplate

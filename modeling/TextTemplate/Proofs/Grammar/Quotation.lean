import TextTemplate.Proofs.Grammar.Concatenation
import TextTemplate.Proofs.Scanning.Quoting
import TextTemplate.Render.Node

/-! A source with a backslash before each of its tags compiles to its own text, and so renders to
it. -/

namespace TextTemplate

/-- A template that only shows a text. -/
def Template.ofText (s : String) : Template := ⟨if s = "" then [] else [.text s], []⟩

section
variable {d : Delimiters} {s q g : List Char} {ts : List Tag} {xs : List (List Char)}

/-- With a backslash before each tag, a source says nothing but texts, and those are the source. -/
theorem Tag.Backslashed.spells (hd : d.Unmarked)
    (hb : ∀ c ∈ d.opening.toList, Text.isBlank c = false) (h : Backslashed d s ts q)
    (hg : Text.Blank g) :
    ∃ xs : List (List Char), xs.flatten = g ++ s ∧ Spells d (g ++ q) (xs.map Symbol.text) := by
  induction h generalizing g with
  | @rest s h =>
    have hn := not_infix_blank_append d.opening_toList_ne hb hg (first?_eq_none_iff.1 h)
    exact ⟨[g ++ s], List.append_nil _, .rest (first?_eq_none_iff.2 hn)⟩
  | @tag s gap gap' q t ts h found next ih =>
    obtain ⟨xs, hxs, hspells⟩ := ih found.blank.2
    have hfirst := found.first?_backslashed hd hb h hg next.slashed
    refine ⟨(g ++ t.ahead gap) :: t.raw :: xs, ?_, .tag hfirst rfl hspells⟩
    rw [List.flatten_cons, List.flatten_cons, hxs, found.eq_ahead, List.append_assoc]

theorem forestYield_texts : forestYield (xs.map Tree.text) = xs.map Symbol.text := by
  induction xs with
  | nil => rfl
  | cons x xs ih => simp [forestYield, Tree.yield, ih]

theorem forestDefinitions_texts : forestDefinitions (xs.map Tree.text) = [] := by
  induction xs with
  | nil => rfl
  | cons x xs ih => simp [forestDefinitions, Tree.definitions, ih]

/-- Texts next to each other are one. -/
theorem forestNodes_texts : forestNodes (xs.map Tree.text) = forestNodes [.text xs.flatten] := by
  induction xs with
  | nil => rfl
  | cons x xs ih =>
    rw [List.flatten_cons, forestNodes_text_append, List.map_cons]
    change consNode? _ (forestNodes (xs.map Tree.text)) = consNode? _ (forestNodes _)
    rw [ih]

theorem Template.ofForest_texts :
    Template.ofForest (xs.map Tree.text) = Template.ofText (String.ofList xs.flatten) := by
  rw [ofForest, forestDefinitions_texts, forestNodes_texts, ofText]
  by_cases h : xs.flatten = []
  · simp [forestNodes, Tree.node?, consNode?, definedPartials, h]
  · have hne : String.ofList xs.flatten ≠ "" := by
      intro he
      exact h (by simpa using congrArg String.toList he)
    simp [forestNodes, Tree.node?, consNode?, definedPartials, h, hne, consNode]

end

theorem renderNodes_ofText {s : Setting} (h : s.engine.options.renderHook = none)
    (deeper : Option Renderer) (text : String) (st : RenderState) :
    renderNodes deeper s (Template.ofText text).nodes st = .ok text st := by
  rw [Template.ofText]
  split
  · rename_i he
    rw [he, renderNodes]
    rfl
  · simp only [renderNodes, renderNode, Setting.hooked_of_none h, pure_bind, String.append_empty]
    rfl

theorem Engine.render_ofText {e : Engine} (h : e.options.renderHook = none) (text : String)
    (data : Value) (extra : Option Value) :
    e.render (Template.ofText text) data extra = ⟨.ok text, []⟩ := by
  have hr : ∀ (n : Nat) (s : Setting) (st : RenderState), s.engine = e →
      renderer n s (Template.ofText text).nodes st = .ok text st := by
    rintro n s st rfl
    cases n <;> exact renderNodes_ofText h _ text st
  simp only [render, hr]

/-- Quoting is complete: a backslash directly before each tag turns a source that scans into a
template that shows the source itself. -/
theorem Template.compile_backslashAll (source : String) {rest : List Char}
    (h : (Tag.scan .braces source.toList).rest = .ok rest) :
    let tags := (Tag.scan .braces source.toList).tags
    let quoted := Tag.backslashAll tags source.toList
    (∃ gaps rest, List.Forall₂ (Tag.GapsOf .braces) tags gaps ∧
        source.toList = (List.zipWith Tag.piece tags gaps).flatten ++ rest ∧
        quoted = (List.zipWith Tag.backslashed tags gaps).flatten ++ rest) ∧
      Template.compile .braces (String.ofList quoted) = .ok (Template.ofText source) ∧
      ∀ (e : Engine) (data : Value) (extra : Option Value), e.options.renderHook = none →
        e.render (Template.ofText source) data extra = ⟨.ok source, []⟩ := by
  have hd : Delimiters.braces.Unmarked := by decide
  have hb : ∀ c ∈ Delimiters.braces.opening.toList, Text.isBlank c = false := by
    intro c hc
    obtain rfl : c = '\x7b' := by simpa [Delimiters.braces] using hc
    decide
  obtain ⟨q, hq⟩ := Tag.Backslashed.of_scan hd source.toList h
  have hquoted := hq.backslashAll_eq hd hb Text.blank_nil
  obtain ⟨xs, hxs, hspells⟩ := hq.spells hd hb Text.blank_nil
  simp only [List.nil_append] at hquoted hxs hspells
  intro tags quoted
  refine ⟨?_, ?_, fun e data extra he => Engine.render_ofText he source data extra⟩
  · obtain ⟨gaps, rest, hg, hs, hqs⟩ := hq.exists_gaps
    exact ⟨gaps, rest, hg, hs, hquoted.trans hqs⟩
  · refine (Template.compile_eq_ok_iff_spells _ _).2 ⟨xs.map .text, ?_, ?_⟩
    · rw [forestYield_texts, String.toList_ofList, show quoted = q from hquoted]
      exact hspells
    · rw [Template.ofForest_texts, hxs, String.ofList_toList]

theorem Template.compile_backslashAll_mixed :
    let source := "a \x7b\x7b~b\x7d\x7d\\\x7b\x7bc\x7d\x7d\x7b\x7b!-- \x7d\x7d --\x7d\x7d"
    (Tag.scan .braces source.toList).rest = .ok [] ∧
      Tag.backslashAll (Tag.scan .braces source.toList).tags source.toList =
        ("a \\\x7b\x7b~b\x7d\x7d\\\\\x7b\x7bc\x7d\x7d" ++
          "\\\x7b\x7b!-- \x7d\x7d --\x7d\x7d").toList ∧
      Template.compile .braces
        ("a \\\x7b\x7b~b\x7d\x7d\\\\\x7b\x7bc\x7d\x7d" ++
          "\\\x7b\x7b!-- \x7d\x7d --\x7d\x7d") = .ok (Template.ofText source) := by
  intro source
  have hrest : (Tag.scan .braces source.toList).rest = .ok [] := by decide +kernel
  have hquoted : Tag.backslashAll (Tag.scan .braces source.toList).tags source.toList =
      ("a \\\x7b\x7b~b\x7d\x7d\\\\\x7b\x7bc\x7d\x7d" ++
        "\\\x7b\x7b!-- \x7d\x7d --\x7d\x7d").toList := by decide +kernel
  obtain ⟨-, hcompile, -⟩ := Template.compile_backslashAll source hrest
  rw [hquoted, String.ofList_toList] at hcompile
  exact ⟨hrest, hquoted, hcompile⟩

end TextTemplate

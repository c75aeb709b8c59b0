import TextTemplate.Proofs.Printing.Paths
import TextTemplate.Proofs.Resolution

/-! A path whose segments are all in brackets reads the properties that it spells. Only a first segment
that begins with `@` is taken for a special name all the same. -/

namespace TextTemplate

/-- The keys lead from value to value, each one to a property of an object. -/
inductive Value.Chain : Value → List String → Value → Prop
  | here {v : Value} : Chain v [] v
  | property {entries : Dict Value} {key : String} {keys : List String} {v w : Value}
      (h : entries.get? key = some v) (hw : Chain v keys w) : Chain (.object entries) (key :: keys) w

theorem Value.Chain.drill?_eq {v w : Value} {keys : List String} (h : Chain v keys w) :
    v.drill? keys = some w := by
  induction h with
  | here => rfl
  | @property entries key keys v w hkey _ ih =>
    have hchild : (object entries).child? key = some v := hkey
    -- The last key is read apart from the others.
    cases keys with
    | nil =>
      cases ih
      rw [drill?, hchild, Option.orElse_some]
    | cons next keys =>
      rw [drill?, hchild, Option.bind_some]
      · exact ih
      · exact List.cons_ne_nil next keys

namespace Path

/-- What makes a path strict. -/
def strictMarks : List (List Char) :=
  [['t', 'h', 'i', 's', '/'], ['t', 'h', 'i', 's', '.'], ['.', '/']]

/-- A path out of so many scopes, behind a mark of a strict path or none. -/
def bracketedText (σ : PathStyle) (depth : Nat) (mark : List Char) (keys : List String) : List Char :=
  leaveText depth ++ (mark ++ segmentsText σ.separator keys)

section
variable {σ : PathStyle} {depth : Nat} {mark s : List Char} {key : String} {keys : List String}

theorem leave_mark (h : mark ∈ strictMarks) : leave (mark ++ s) = (0, mark ++ s) := by
  simp only [strictMarks, List.mem_cons, List.not_mem_nil, or_false] at h
  obtain rfl | rfl | rfl := h <;> rfl

theorem dropStrict_mark (h : mark ∈ strictMarks) : dropStrict (mark ++ s) = (true, s) := by
  simp only [strictMarks, List.mem_cons, List.not_mem_nil, or_false] at h
  obtain rfl | rfl | rfl := h <;> simp [dropStrict, Text.after?]

theorem leave_marked (hmark : mark = [] ∨ mark ∈ strictMarks) :
    leave (mark ++ segmentsText σ.separator (key :: keys)) =
      (0, mark ++ segmentsText σ.separator (key :: keys)) := by
  rcases hmark with rfl | h
  · rfl
  · exact leave_mark h

theorem dropStrict_marked (hmark : mark = [] ∨ mark ∈ strictMarks) :
    dropStrict (mark ++ segmentsText σ.separator (key :: keys)) =
      (decide (mark ≠ []), segmentsText σ.separator (key :: keys)) := by
  rcases hmark with rfl | h
  · rfl
  · have hn : mark ≠ [] := by
      rintro rfl
      exact absurd h (by decide)
    rw [dropStrict_mark h, decide_eq_true hn]

theorem head?_bracketedText (hmark : mark = [] ∨ mark ∈ strictMarks) :
    (bracketedText σ depth mark (key :: keys)).head? ≠ some '@' := by
  cases depth with
  | succ n => exact nofun
  | zero =>
    rcases hmark with rfl | h
    · exact nofun
    · simp only [strictMarks, List.mem_cons, List.not_mem_nil, or_false] at h
      obtain rfl | rfl | rfl := h <;> exact nofun

/-- Brackets hold the keys as they are. -/
theorem parse_bracketedText (hmark : mark = [] ∨ mark ∈ strictMarks)
    (hclose : ∀ k ∈ key :: keys, ']' ∉ k.toList) :
    parse (bracketedText σ depth mark (key :: keys)) =
      .ok ⟨key :: keys, depth, decide (mark ≠ [])⟩ := by
  have hsplit := split_text σ (List.cons_ne_nil key keys) hclose
  have hcontext : isContext (segmentsText σ.separator (key :: keys)) = false := rfl
  rw [parse_of_head (head?_bracketedText hmark), bracketedText, leave_append, leave_marked hmark]
  simp [dropStrict_marked hmark, endSegments, hcontext, hsplit, Except.map, Function.comp_def]

end

end Path

namespace Scope
open TextTemplate.Path

/-- Brackets hide nothing but the `@` of a special name: where the keys lead to a value, a path of
keys in brackets that begins with no `@` has that value, and one that does has what the special
name gives. -/
theorem resolve?_bracketedText (s : Scope) (extra : Option Value) (σ : PathStyle) (depth : Nat)
    (mark : List Char) (first : String) (rest : List String) (f : Frame) (v : Value)
    (hmark : mark = [] ∨ mark ∈ strictMarks) (hclose : ∀ key ∈ first :: rest, ']' ∉ key.toList)
    (hf : s.frames[depth]? = some f)
    (hb : mark = [] → ∀ g ∈ s.frames.drop depth, g.bindings.get? first = none)
    (hv : f.context.Chain (first :: rest) v) :
    ∃ p, parse (bracketedText σ depth mark (first :: rest)) = .ok p ∧
      ((∀ name, first ≠ "@" ++ name) → s.resolve? extra p = some v) ∧
      ∀ name, first = "@" ++ name →
        s.resolve? extra p = (s.special? depth name).bind (·.drill? rest) := by
  obtain ⟨hlt, hget⟩ := List.getElem?_eq_some_iff.1 hf
  have hdrop : s.frames.drop depth = f :: s.frames.drop (depth + 1) := by
    rw [List.drop_eq_getElem_cons hlt, hget]
  let p : Path := ⟨first :: rest, depth, decide (mark ≠ [])⟩
  refine ⟨p, parse_bracketedText hmark hclose, ?_, ?_⟩
  · intro hn
    have hunbound : decide (mark ≠ []) = false →
        (s.frames.drop depth).findSome? (·.bindings.get? first) = none := by
      intro hm
      exact List.findSome?_eq_none_iff.2 (hb (by simpa using hm))
    rw [resolve?_unbound (p := p) hn rfl hdrop hunbound, hv.drill?_eq, Option.orElse_some]
  · -- The bindings and the data do not come into it, whatever the brackets say.
    rintro name rfl
    exact resolve?_special (p := p) hdrop rfl

theorem resolve?_bracketedText_outside :
    let s : Scope := ⟨.of .null, [.of (.object [("a.b", .object [("", .bool true)])])]⟩
    ∃ p, parse "../this.[a.b].[]".toList = .ok p ∧ s.resolve? none p = some (.bool true) := by
  intro s
  have hclose : ∀ key ∈ ["a.b", ""], ']' ∉ key.toList := by decide
  have hv : (Value.object [("a.b", .object [("", .bool true)])]).Chain ["a.b", ""] (.bool true) :=
    .property rfl (.property rfl .here)
  obtain ⟨p, hp, hvalue, -⟩ := resolve?_bracketedText s none ⟨'.', .inl rfl, .least⟩ 1 "this.".toList
    "a.b" [""] _ _ (.inr (by decide)) hclose rfl nofun hv
  refine ⟨p, hp, hvalue ?_⟩
  intro name he
  cases specialName?_eq_some_iff.2 he

/-- The key `@index` is there, and in brackets, and is not read. -/
theorem bracketed_special_name :
    let s : Scope := .ofContext (.object [("@index", .string "z")])
    let p : Path := ⟨["@index"], 0, false⟩
    parse "[@index]".toList = .ok p ∧ s.context.Chain ["@index"] (.string "z") ∧
      (∀ g ∈ s.frames, g.bindings.get? "@index" = none) ∧ s.resolve? none p = none := by
  intro s p
  refine ⟨?_, .property rfl .here, ?_, rfl⟩
  · have hclose : ∀ key ∈ ["@index"], ']' ∉ key.toList := by decide
    have hp : parse (bracketedText ⟨'.', .inl rfl, .least⟩ 0 [] ["@index"]) = .ok p :=
      parse_bracketedText (.inl rfl) hclose
    exact hp
  · intro g hg
    obtain rfl := List.mem_singleton.1 hg
    rfl

end Scope
end TextTemplate

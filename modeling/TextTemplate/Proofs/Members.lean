import TextTemplate.Proofs.Numbers.Text
import TextTemplate.Proofs.Resolution
import TextTemplate.TodoList

/-! The helper `lookup` reads what a path reads: below its container, the segment that its key is
shown as. Only a double it takes for no position of an array, also where it is shown as one. -/

namespace TextTemplate

namespace Number

/-- The position that the number is shown as. -/
def position? : Number → Option Nat
  | int n => n.toNat?
  | double x => (whole? x).bind fun n => if n.natAbs < Nat.pow 10 15 then n.toNat? else none

theorem position?_doubleText (x : Float) :
    Value.position? (String.ofList (doubleText x)) = none := by
  rcases mem_doubleText x with h | ⟨h, -⟩ <;>
    exact Value.position?_eq_none_of_mem (by rwa [String.toList_ofList]) (by decide) (by decide)

theorem position?_display (m : Number) : Value.position? m.display = m.position? := by
  cases m with
  | int n => exact Value.position?_intText n
  | double x =>
    rw [display, position?]
    cases whole? x with
    | none => exact position?_doubleText x
    | some n =>
      rw [Option.bind_some]
      dsimp only
      split
      · exact Value.position?_intText n
      · exact position?_doubleText x

theorem text_int_ne_length (n : Int) : text (.int n) ≠ "length" := by
  intro h
  have hl : 'l' ∈ intText n := by
    rw [String.ofList_injective h]
    decide
  rcases eq_sign_or_isDigit_of_mem_intText hl with h | h <;> cases h

theorem text_double_ne_length (x : Float) : text (.double x) ≠ "length" := by
  intro h
  have hx := mem_doubleText x
  rw [String.ofList_injective h] at hx
  revert hx
  decide

theorem display_ne_length (m : Number) : m.display ≠ "length" := by
  cases m with
  | int n => exact text_int_ne_length n
  | double x =>
    rcases display_double x with h | ⟨k, -, h⟩ <;> rw [h]
    · exact text_double_ne_length x
    · exact text_int_ne_length k

end Number

/-- Among the items, a segment that a number is shown as reads the one at its position. -/
theorem Value.drill?_display (items : List Value) (m : Number) :
    (array items).drill? [m.display] = m.position?.bind (items[·]?) := by
  rw [drill?, child?, m.position?_display, if_neg m.display_ne_length]
  cases m.position?.bind (items[·]?) <;> rfl

namespace Helper

/-- The item at the position that a double is shown as. -/
def PassesOver (container key item : Value) : Prop :=
  ∃ items x n, container = .array items ∧ key = .number (.double x) ∧
    Number.position? (.double x) = some n ∧ items[n]? = some item

section
variable {container key item : Value}

theorem PassesOver.drill?_eq (h : PassesOver container key item) :
    memberOf? container key = none ∧ container.drill? [key.display] = some item := by
  obtain ⟨items, x, n, rfl, rfl, hn, hitem⟩ := h
  refine ⟨rfl, ?_⟩
  rw [Value.display, Value.drill?_display, hn, Option.bind_some, hitem]

theorem memberOf?_eq (h : ∀ item, ¬ PassesOver container key item) :
    memberOf? container key = container.drill? [key.display] := by
  cases container with
  | array items =>
    cases key with
    | number m =>
      rw [Value.display, Value.drill?_display]
      cases m with
      | int n =>
        rw [memberOf?, Number.position?]
        cases n with
        | ofNat n => rfl
        | negSucc n => rw [if_pos (Int.negSucc_lt_zero n)]; rfl
      | double x =>
        rw [memberOf?, eq_comm, Option.eq_none_iff_forall_ne_some]
        intro item hitem
        obtain ⟨n, hn, hitem⟩ := Option.bind_eq_some_iff.1 hitem
        exact h item ⟨items, x, n, rfl, rfl, hn, hitem⟩
    | null | bool b | string s | array _ | object _ => rfl
  | null | bool b | number m | string s | object _ => rfl

end
end Helper

namespace Scope
open Helper

/-- A path of one segment below a name reads that segment of what the name is bound to. -/
theorem resolve?_below {s : Scope} {name : String} {v : Value} (hn : specialName? name = none)
    (hb : s.binding? name = some v) (extra : Option Value) (segment : String) :
    s.resolve? extra ⟨[name, segment], 0, false⟩ = v.drill? [segment] := by
  have hl : s.leave? 0 = some s := rfl
  simp only [resolve?, hl, hn, hb, bind, Option.bind_some, Bool.false_eq_true, if_false]

/-- With two arguments or more, `lookup` gives the value of the path that reads its key below its
container, and `null` where that has none. A double, shown as the position of an item, it passes
over. -/
theorem lookup_reads_segment (c : Call) (s : Scope) (extra : Option Value) (name : String)
    (container key : Value) (more : List Value) (hn : specialName? name = none)
    (hb : s.binding? name = some container) :
    ∃ v, lookup { c with args := container :: key :: more } = .done (.ok (.value v)) ∧
      (∀ item, PassesOver container key item →
        v = .null ∧ s.resolve? extra ⟨[name, key.display], 0, false⟩ = some item) ∧
      ((∀ item, ¬ PassesOver container key item) →
        v = (s.resolve? extra ⟨[name, key.display], 0, false⟩).getD .null) := by
  rw [resolve?_below hn hb]
  refine ⟨(memberOf? container key).getD .null, rfl, ?_, ?_⟩
  · intro item h
    obtain ⟨hnone, hitem⟩ := h.drill?_eq
    exact ⟨by rw [hnone]; rfl, hitem⟩
  · intro h
    rw [memberOf?_eq h]

/-- Two texts under the name `xs`, and a helper that adds. -/
def listing : Setting where
  engine := (Engine.create {}).registerHelper "add" TodoList.add
  extra := none
  scope := ⟨⟨.null, [("xs", .array [.string "a", .string "b"])], none⟩, []⟩
  defined := []

theorem lookup_reads_segment_in_list :
    specialName? "xs" = none ∧
    listing.scope.binding? "xs" = some (.array [.string "a", .string "b"]) ∧
    lookup (listing.call "lookup"
        [.array [.string "a", .string "b"], .number (.int 1)] [] false) =
      .done (.ok (.value (.string "b"))) := by
  have hn : specialName? "xs" = none := by decide
  have hb : listing.scope.binding? "xs" = some (.array [.string "a", .string "b"]) := rfl
  refine ⟨hn, hb, ?_⟩
  obtain ⟨v, hv, -, hread⟩ := lookup_reads_segment (listing.call "lookup" [] [] false) listing.scope
    none "xs" _ (.number (.int 1)) [] hn hb
  have hint : ∀ item, ¬ PassesOver (.array [.string "a", .string "b"]) (.number (.int 1)) item := by
    rintro item ⟨items, x, n, -, h, -⟩
    cases h
  rw [hread hint] at hv
  exact hv

/-- The sum of 0 and 1 is shown as `1` and is a double: `lookup` finds nothing where the path finds
the second item. -/
theorem sum_passed_over :
    (Invocation.eval listing ⟨some "add",
        [.literal (.number (.int 0)), .literal (.number (.int 1))], [], []⟩ []) =
      .ok (.value (.number (.double 1))) [] ∧
    (Value.number (.double 1)).display = "1" ∧
    (Invocation.eval listing ⟨some "lookup", [.path ⟨["xs"], 0, false⟩, .call ⟨some "add",
        [.literal (.number (.int 0)), .literal (.number (.int 1))], [], []⟩], [], []⟩ []) =
      .ok (.value .null) [] ∧
    listing.resolve? ⟨["xs", "1"], 0, false⟩ = some (.string "b") := by
  refine ⟨?_, ?_, ?_, ?_⟩ <;> rfl

end Scope
end TextTemplate

import Mathlib.Data.List.TakeWhile
import Mathlib.Order.Bounds.Defs
import TextTemplate.Text.Blank
import TextTemplate.Text.Search

/-! Places in a text: where a text occurs, where a search stops, and what trimming takes away. -/

namespace TextTemplate

/-- `w` stands in `s` after `i` characters. -/
def OccursAt (w s : List Char) (i : Nat) : Prop := w <+: s.drop i

namespace OccursAt
variable {w s u v : List Char} {i j : Nat}

theorem iff_exists : OccursAt w s i ↔ ∃ r, s.drop i = w ++ r := by
  constructor
  · rintro ⟨r, hr⟩
    exact ⟨r, hr.symm⟩
  · rintro ⟨r, hr⟩
    exact ⟨r, hr.symm⟩

theorem append (v w r : List Char) : OccursAt w (v ++ (w ++ r)) v.length := by
  simp [OccursAt]

theorem of_append (h : OccursAt (v ++ w) s i) : OccursAt w s (i + v.length) := by
  obtain ⟨r, hr⟩ := iff_exists.1 h
  refine iff_exists.2 ⟨r, ?_⟩
  rw [← List.drop_drop, hr, List.append_assoc, List.drop_left]

/-- An occurrence that starts after `v` occurs in what follows `v`. -/
theorem append_left_iff : OccursAt w (v ++ s) (v.length + i) ↔ OccursAt w s i := by
  rw [OccursAt, OccursAt, ← List.drop_drop, List.drop_left]

theorem isInfix (h : OccursAt w s i) : w <:+: s :=
  (List.IsPrefix.isInfix h).trans (List.drop_suffix i s).isInfix

end OccursAt

theorem infix_iff_exists_occursAt {w s : List Char} : w <:+: s ↔ ∃ i, OccursAt w s i := by
  constructor
  · rintro ⟨v, r, rfl⟩
    refine ⟨v.length, ?_⟩
    rw [List.append_assoc]
    exact OccursAt.append v w r
  · rintro ⟨i, hi⟩
    exact hi.isInfix

namespace Text
variable {α : Type} {stop : List Char → Option α} {s w r : List Char} {a : α} {i : Nat}

theorem isSome_after?_iff : (after? w s).isSome ↔ w <+: s := by
  rw [Option.isSome_iff_exists]
  constructor
  · rintro ⟨r, hr⟩
    exact ⟨r, (after?_eq_some_iff.1 hr).symm⟩
  · rintro ⟨r, hr⟩
    exact ⟨r, after?_eq_some_iff.2 hr.symm⟩

theorem upTo_cons_of_none {c : Char} {cs : List Char} (h : stop (c :: cs) = none) :
    upTo stop (c :: cs) = (upTo stop cs).map fun (w, a) => (c :: w, a) := by
  rw [upTo, h]

theorem upTo_eq_none_iff : upTo stop s = none ↔ ∀ i, stop (s.drop i) = none := by
  induction s with
  | nil =>
    rw [upTo]
    cases h : stop [] <;> simp [h]
  | cons c cs ih =>
    cases h : stop (c :: cs) with
    | some a =>
      rw [upTo, h]
      simp only [reduceCtorEq, false_iff]
      intro hn
      have h0 := hn 0
      rw [List.drop_zero, h] at h0
      cases h0
    | none =>
      rw [upTo_cons_of_none h, Option.map_eq_none_iff, ih]
      constructor
      · intro hn i
        cases i with
        | zero => exact h
        | succ i => exact hn i
      · intro hn i
        exact hn (i + 1)

/-- The search stops at the first place where it can. -/
theorem upTo_isLeast (h : upTo stop s = some (w, a)) :
    stop (s.drop w.length) = some a ∧ IsLeast {i | (stop (s.drop i)).isSome} w.length := by
  induction s generalizing w with
  | nil =>
    rw [upTo] at h
    cases hs : stop [] with
    | none => simp [hs] at h
    | some b =>
      rw [hs] at h
      cases h
      exact ⟨hs, Option.isSome_of_eq_some hs, fun i _ => Nat.zero_le i⟩
  | cons c cs ih =>
    cases hs : stop (c :: cs) with
    | some b =>
      rw [upTo, hs] at h
      cases h
      exact ⟨hs, Option.isSome_of_eq_some hs, fun i _ => Nat.zero_le i⟩
    | none =>
      rw [upTo_cons_of_none hs] at h
      obtain ⟨⟨v, b⟩, hv, he⟩ := Option.map_eq_some_iff.1 h
      cases he
      obtain ⟨ha, hmem, hleast⟩ := ih hv
      refine ⟨ha, hmem, ?_⟩
      intro i hi
      cases i with
      | zero =>
        have hi : (stop (c :: cs)).isSome := hi
        rw [hs] at hi
        cases hi
      | succ i => exact Nat.succ_le_succ (hleast hi)

theorem fromFirst?_eq_none_iff : fromFirst? w s = none ↔ ¬ w <:+: s := by
  rw [fromFirst?, Option.map_eq_none_iff, upTo_eq_none_iff, infix_iff_exists_occursAt, not_exists]
  refine forall_congr' fun i => ?_
  rw [Option.map_eq_none_iff, OccursAt, ← isSome_after?_iff, Option.not_isSome_iff_eq_none]

theorem fromFirst?_isLeast (h : fromFirst? w s = some r) :
    ∃ v u, s = v ++ (w ++ u) ∧ IsLeast {i | OccursAt w s i} v.length := by
  obtain ⟨⟨v, t⟩, hu, -⟩ := Option.map_eq_some_iff.1 h
  obtain ⟨hstop, hleast⟩ := upTo_isLeast hu
  simp only [Option.isSome_map, isSome_after?_iff] at hleast
  obtain ⟨t', rfl, ht'⟩ := upTo_eq_some hu
  obtain ⟨u, hu, -⟩ := Option.map_eq_some_iff.1 ht'
  rw [after?_eq_some_iff.1 hu] at hleast ⊢
  exact ⟨v, u, rfl, hleast⟩

theorem contains_iff : contains w s = true ↔ w <:+: s := by
  rw [contains, Option.isSome_iff_ne_none, ne_eq, fromFirst?_eq_none_iff, not_not]

/-- White space and nothing else. -/
def Blank (s : List Char) : Prop := ∀ c ∈ s, isBlank c

theorem blank_nil : Blank [] := by
  intro c hc
  cases hc

theorem blank_takeWhile (s : List Char) : Blank (s.takeWhile isBlank) := by
  intro c hc
  exact List.mem_takeWhile_imp hc

/-- Trimming takes away white space, and all of it on that side. -/
theorem exists_eq_trimStart (s : List Char) : ∃ gap, Blank gap ∧ s = gap ++ trimStart s :=
  ⟨s.takeWhile isBlank, blank_takeWhile s, List.takeWhile_append_dropWhile.symm⟩

theorem head?_trimStart (s : List Char) : ∀ c ∈ (trimStart s).head?, isBlank c = false := by
  intro c hc
  have h := List.head?_dropWhile_not isBlank s
  rw [trimStart] at hc
  rw [Option.mem_def.1 hc] at h
  simpa using h

theorem exists_eq_trimEnd (s : List Char) : ∃ gap, Blank gap ∧ s = trimEnd s ++ gap := by
  obtain ⟨gap, hb, he⟩ := exists_eq_trimStart s.reverse
  refine ⟨gap.reverse, ?_, ?_⟩
  · intro c hc
    exact hb c (List.mem_reverse.1 hc)
  · rw [trimEnd, ← List.reverse_append]
    exact List.reverse_eq_iff.1 he

theorem getLast?_trimEnd (s : List Char) : ∀ c ∈ (trimEnd s).getLast?, isBlank c = false := by
  intro c hc
  rw [trimEnd, List.getLast?_reverse] at hc
  exact head?_trimStart s.reverse c hc

theorem exists_eq_trim (s : List Char) :
    ∃ gap gap', Blank gap ∧ Blank gap' ∧ s = gap ++ trim s ++ gap' := by
  obtain ⟨gap, hb, hs⟩ := exists_eq_trimStart s
  obtain ⟨gap', hb', hs'⟩ := exists_eq_trimEnd (trimStart s)
  refine ⟨gap, gap', hb, hb', ?_⟩
  rw [trim, List.append_assoc, ← hs', ← hs]

theorem trim_isInfix (s : List Char) : trim s <:+: s := by
  obtain ⟨gap, gap', -, -, hs⟩ := exists_eq_trim s
  exact ⟨gap, gap', hs.symm⟩

end Text
end TextTemplate

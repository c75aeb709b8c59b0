import TextTemplate.Proofs.Printing.Words
import TextTemplate.Value.Access

/-! The texts of numbers, and the positions in an array that they spell. Those of doubles spell
none. -/

namespace TextTemplate

namespace Number
variable {c : Char} {n : Int}

theorem mem_writeScientific (l : DecimalLayout) (s : Scientific) :
    '.' ∈ writeScientific l s ∨
      'e' ∈ writeScientific l s ∧ ('+' ∈ writeScientific l s ∨ '-' ∈ writeScientific l s) := by
  rw [writeScientific]
  split
  · simp [positional]
  · by_cases h : s.exponent < 0 <;> simp [exponential, h]

/-- A double is never written with digits alone. -/
theorem mem_doubleText (x : Float) :
    '.' ∈ doubleText x ∨ 'e' ∈ doubleText x ∧ ('+' ∈ doubleText x ∨ '-' ∈ doubleText x) := by
  by_cases hz : (Binary64.parts x).mantissa = 0
  · simp [doubleText, hz]
  · have h := mem_writeScientific layout (Shortest.scientific (Binary64.parts x))
    simp only [doubleText, hz, if_false, List.mem_append]
    exact h.imp .inr (And.imp .inr (Or.imp .inr .inr))

theorem eq_sign_or_isDigit_of_mem_intText (h : c ∈ intText n) : c = '-' ∨ c.isDigit := by
  rw [intText, List.mem_append] at h
  rcases h with h | h
  · split at h
    · exact .inl (List.mem_singleton.1 h)
    · cases h
  · exact .inr (isDigit_of_mem_toDigits h)

theorem doubleText_ne_intText (x : Float) (n : Int) : doubleText x ≠ intText n := by
  have hnot : ∀ c, c ≠ '-' → c.isDigit = false → c ∉ intText n := by
    intro c hsign hdigit hc
    rcases eq_sign_or_isDigit_of_mem_intText hc with h | h
    · exact hsign h
    · rw [hdigit] at h
      cases h
  intro h
  rcases mem_doubleText x with hc | ⟨hc, -⟩
  · exact hnot '.' (by decide) (by decide) (h ▸ hc)
  · exact hnot 'e' (by decide) (by decide) (h ▸ hc)

/-- A double is shown as the text of a double, or as that of a whole number with few digits. -/
theorem display_double (x : Float) :
    display (.double x) = text (.double x) ∨
      ∃ k : Int, k.natAbs < Nat.pow 10 15 ∧ display (.double x) = text (.int k) := by
  rw [display]
  cases whole? x with
  | none => exact .inl rfl
  | some k =>
    dsimp only
    split
    · exact .inr ⟨k, ‹_›, rfl⟩
    · exact .inl rfl

end Number

namespace Value
variable {key : String} {c : Char}

theorem position?_eq_none_of_mem (h : c ∈ key.toList) (hplus : c ≠ '+')
    (hdigit : c.isDigit = false) : position? key = none := by
  have hnot : ∀ digits : List Char, c ∈ digits → ¬ (digits ≠ [] ∧ digits.all Char.isDigit) := by
    intro digits hc hall
    have hd := List.all_eq_true.1 hall.2 c hc
    rw [hdigit] at hd
    cases hd
  rw [position?]
  split
  · rename_i ds hds
    rw [hds] at h
    exact if_neg (hnot ds ((List.mem_cons.1 h).resolve_left hplus))
  · exact if_neg (hnot _ h)

theorem position?_digits {ds : List Char} (hn : ds ≠ []) (hall : ∀ c ∈ ds, c.isDigit) :
    position? (String.ofList ds) = some (Number.digitsValue ds) := by
  obtain ⟨d, ds, rfl⟩ := List.exists_cons_of_ne_nil hn
  have hplus : d ≠ '+' := by
    rintro rfl
    cases hall '+' (.head _)
  rw [position?, String.toList_ofList]
  split
  · rename_i heq
    exact absurd (List.cons.inj heq).1 hplus
  rw [if_pos ⟨hn, List.all_eq_true.2 hall⟩]

/-- A whole number spells the position that it is. -/
theorem position?_intText (n : Int) : position? (String.ofList (Number.intText n)) = n.toNat? := by
  cases n with
  | ofNat n =>
    have htext : Number.intText (.ofNat n) = Nat.toDigits 10 n := rfl
    rw [htext, position?_digits Nat.toDigits_ne_nil fun c => Number.isDigit_of_mem_toDigits,
      Number.digitsValue_toDigits]
    rfl
  | negSucc n =>
    have hsign : '-' ∈ Number.intText (.negSucc n) := by simp [Number.intText]
    apply position?_eq_none_of_mem (c := '-') _ (by decide) (by decide)
    rwa [String.toList_ofList]

end Value
end TextTemplate

import TextTemplate.ParseError

/-! The pair of texts that open and close a tag. -/

namespace TextTemplate

structure Delimiters where
  opening : String
  closing : String
  opening_ne : opening ≠ ""
  closing_ne : closing ≠ ""
deriving DecidableEq

namespace Delimiters
variable {opening closing : String} {d : Delimiters}

/-- Two curly brackets on either side. -/
def braces : Delimiters := ⟨"\x7b\x7b", "\x7d\x7d", by decide, by decide⟩

instance : Inhabited Delimiters := ⟨braces⟩

/-- Refuses an empty text on either side. -/
def of (opening closing : String) : Except ParseError Delimiters :=
  if h : opening ≠ "" ∧ closing ≠ "" then .ok ⟨opening, closing, h.1, h.2⟩
  else .error .emptyDelimiters

theorem of_self (d : Delimiters) : of d.opening d.closing = .ok d := by
  simp [of, d.opening_ne, d.closing_ne]

theorem of_eq_ok_iff : of opening closing = .ok d ↔ d.opening = opening ∧ d.closing = closing := by
  constructor
  · intro h
    unfold of at h
    split at h <;> cases h
    exact ⟨rfl, rfl⟩
  · rintro ⟨rfl, rfl⟩
    exact of_self d

theorem of_eq_error_iff {e : ParseError} :
    of opening closing = .error e ↔ e = .emptyDelimiters ∧ (opening = "" ∨ closing = "") := by
  by_cases ho : opening = "" <;> by_cases hc : closing = "" <;> simp [of, ho, hc, eq_comm]

end Delimiters
end TextTemplate

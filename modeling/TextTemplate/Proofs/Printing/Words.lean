import TextTemplate.Proofs.Printing.Pieces

/-! Literals and paths are read back from what is written for them. -/

namespace TextTemplate
variable {σ : PathStyle} {p : Path} {w s v lead whole : List Char} {segments : List String}
  {name : String}

/-! Strings -/

theorem unescape_escaped (v : List Char) : unescape (v.flatMap escapeQuoted) = v := by
  induction v with
  | nil => rfl
  | cons c v ih =>
    by_cases hc : c = '"' ∨ c = '\\'
    · rcases hc with rfl | rfl <;> simp [escapeQuoted, unescape, ih]
    · have hplain : unescape (c :: v.flatMap escapeQuoted) =
          c :: unescape (v.flatMap escapeQuoted) := by
        rw [unescape] <;> simp_all
      simp [escapeQuoted, hc, hplain, ih]

theorem stringLiteral_escaped (v : List Char) :
    stringLiteral '"' (v.flatMap escapeQuoted ++ ['"']) = .ok v := by
  have h := Token.upToQuote?_escaped v []
  simp [stringLiteral, h, unescape_escaped]

theorem readAs_quoted (v : List Char) : Token.ReadAs (quoted v) .string (quoted v) where
  solid := Text.Solid.enclosed (by decide) (by decide)
  unkeyed r _ := Token.splitKey_of_word (w := []) (by simp) fun c hc => by
    cases hc
    exact ⟨by decide +kernel, by decide⟩
  body k r _ := by
    have h := Token.upToQuote?_escaped v r
    simp only [quoted, List.cons_append, List.append_assoc, List.nil_append, Token.readBody]
    simp [Text.isBlank, Token.isQuote, h]


/-! Words -/

/-- A word is one piece, where it does not begin like another piece or like a key. -/
theorem readAs_word (hw : Token.Wordlike w) (hs : Text.Solid w)
    (hc : ∀ c ∈ w.head?, c ≠ '(' ∧ c ≠ ')' ∧ c ≠ '"' ∧ c ≠ '\'' ∧ c ≠ '|')
    (hk : ∀ r, Text.Ended r → Token.splitKey (w ++ r) = (none, w ++ r)) :
    Token.ReadAs w .word w where
  solid := hs
  unkeyed := hk
  body k r hr := by
    obtain ⟨c, hhead, hb⟩ := hs.head
    obtain ⟨s, rfl⟩ := List.head?_eq_some_iff.1 hhead
    obtain ⟨hopen, hclose, hdouble, hsingle, hpipe⟩ := hc c rfl
    have hend := hw.wordEnd? hr
    rw [List.cons_append] at hend ⊢
    simp [Token.readBody, Token.isQuote, hb, hopen, hclose, hdouble, hsingle, hpipe, hend]

theorem isKeyChar_of_isAlphanum {c : Char} (h : c.isAlphanum) : Token.isKeyChar c := by
  simp [Token.isKeyChar, Text.isAlphanumeric_of_isAlphanum h]

/-- No character of a key ends a word or begins another piece. -/
theorem plain_of_isKeyChar {c : Char} (h : Token.isKeyChar c) :
    Text.isBlank c = false ∧ c ≠ '(' ∧ c ≠ ')' ∧ c ≠ '"' ∧ c ≠ '\'' ∧ c ≠ '|' ∧ c ≠ '[' := by
  have hne : ∀ d : Char, Token.isKeyChar d = false → c ≠ d := by
    rintro d hd rfl
    rw [hd] at h
    cases h
  have hb : Text.isBlank c = false := by
    cases hb : Text.isBlank c with
    | false => rfl
    | true =>
      have halpha := Text.isAlphanumeric_eq_false_of_isBlank hb
      simp only [Token.isKeyChar, halpha, Bool.false_or, Bool.or_eq_true, decide_eq_true_eq] at h
      rcases h with (rfl | rfl) | rfl <;> exact absurd hb (by decide)
  refine ⟨hb, ?_, ?_, ?_, ?_, ?_, ?_⟩ <;> exact hne _ (by decide +kernel)

/-- A word of key characters is one piece, since no key ends without its sign. -/
theorem readAs_plain (hn : w ≠ []) (h : ∀ c ∈ w, Token.isKeyChar c) :
    Token.ReadAs w .word w := by
  apply readAs_word
  · apply Token.wordlike_of_forall
    intro c hc
    obtain ⟨hb, hopen, hclose, -, -, hpipe, hbracket⟩ := plain_of_isKeyChar (h c hc)
    exact ⟨hb, hopen, hclose, hpipe, hbracket⟩
  · apply Text.Solid.of_forall hn
    intro c hc
    exact (plain_of_isKeyChar (h c hc)).1
  · intro c hc
    obtain ⟨-, hopen, hclose, hdouble, hsingle, hpipe, -⟩ :=
      plain_of_isKeyChar (h c (List.mem_of_mem_head? hc))
    exact ⟨hopen, hclose, hdouble, hsingle, hpipe⟩
  · intro r hr
    apply Token.splitKey_of_word h
    intro c hc
    cases hr c hc
    exact ⟨Token.isKeyChar_space, by decide⟩

/-! Numbers -/

theorem Number.digitsValue_toDigits (n : Nat) : digitsValue (Nat.toDigits 10 n) = n :=
  Nat.ofDigitChars_ten_toDigits

theorem Number.isDigit_of_mem_toDigits {n : Nat} {c : Char} (h : c ∈ Nat.toDigits 10 n) :
    c.isDigit :=
  Nat.isDigit_of_mem_toDigits (by decide) (by decide) h

theorem Number.ofNumeral?_intText {n : Int}
    (h : Int64.minValue.toInt ≤ n ∧ n ≤ Int64.maxValue.toInt) :
    ofNumeral? (intText n) = some (.int n) := by
  have hdigits : ∀ c ∈ Nat.toDigits 10 n.natAbs, c.isDigit := fun c => isDigit_of_mem_toDigits
  have hvalue := digitsValue_toDigits n.natAbs
  obtain ⟨d, ds, hds⟩ := List.exists_cons_of_ne_nil (Nat.toDigits_ne_nil (n := n.natAbs) (b := 10))
  rw [hds] at hdigits hvalue
  have hd := hdigits d (.head _)
  have hall : (d :: ds).all Char.isDigit := List.all_eq_true.2 hdigits
  by_cases hn : n < 0
  · have habs : -(n.natAbs : Int) = n := by omega
    rw [intText, if_pos hn, hds]
    simp only [List.cons_append, List.nil_append, ofNumeral?, List.head?_cons, Option.any_some, hd,
      not_true_eq_false, if_false, hvalue, if_true, habs]
    rw [if_pos ⟨hall, h⟩]
  · have habs : (n.natAbs : Int) = n := by omega
    have hsign : d ≠ '-' := by
      rintro rfl
      cases hd
    rw [intText, if_neg hn, hds]
    rw [List.nil_append, ofNumeral?]
    · simp only [List.head?_cons, Option.any_some, hd, not_true_eq_false, if_false, hvalue, habs,
        Bool.false_eq_true]
      rw [if_pos ⟨hall, h⟩]
    · intro s hs
      exact hsign (List.cons.inj hs).1

theorem isKeyChar_of_mem_intText {n : Int} {c : Char} (h : c ∈ Number.intText n) :
    Token.isKeyChar c := by
  rw [Number.intText, List.mem_append] at h
  rcases h with h | h
  · split at h
    · cases List.mem_singleton.1 h
      simp [Token.isKeyChar]
    · cases h
  · have hd := Number.isDigit_of_mem_toDigits h
    exact isKeyChar_of_isAlphanum (by simp [Char.isAlphanum, hd])

end TextTemplate

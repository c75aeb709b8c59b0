import Mathlib.Data.Nat.Digits.Defs
import TextTemplate.Proofs.Arguments.Constants
import TextTemplate.Proofs.Grammar.PlainTag
import TextTemplate.Proofs.Numbers.Text
import TextTemplate.Proofs.Printing.RoundTrip

/-! Whole numbers in a template: those of 64 bits with a sign are what they spell, longer ones are
doubles. -/

namespace TextTemplate

namespace Binary64
variable {n : Nat}

theorem exponentOf_of_log2 (hlow : 2 ^ 63 ≤ n) (hhigh : n < 2 ^ 64) : exponentOf n 1 = 11 := by
  have hn : n ≠ 0 := by omega
  have hlog : n.log2 = 63 := (Nat.log2_eq_iff hn).2 ⟨hlow, hhigh⟩
  have hone : Nat.log2 1 = 0 := by decide
  have hquot : 2 ^ 53 ≤ n / 2 ^ 10 := by omega
  rw [exponentOf, hlog, hone]
  simp [scaled, mantissaBits, leastExponent]
  omega

theorem exists_nearestBits? (hlow : 2 ^ 63 ≤ n) (hhigh : n < 2 ^ 64) :
    ∃ bits, nearestBits? n 1 = some bits := by
  have hn : n ≠ 0 := by omega
  have hscaled : scaled n 1 11 = (n, 2 ^ 11) := by simp [scaled]
  have hround : roundDiv n (2 ^ 11) ≤ 2 ^ 53 := by
    rw [roundDiv]
    split <;> omega
  refine ⟨1085 * 2 ^ 52 + roundDiv n (2 ^ 11), ?_⟩
  have hfits : 1085 * 2 ^ 52 + roundDiv n (2 ^ 11) < 2047 * Nat.pow 2 mantissaBits := by
    simp only [mantissaBits, Nat.pow_eq]
    omega
  simp only [nearestBits?, if_neg hn, exponentOf_of_log2 hlow hhigh, hscaled]
  exact if_pos hfits

theorem exists_nearest? (hlow : 2 ^ 63 ≤ n) (hhigh : n < 2 ^ 64) :
    ∃ x, nearest? false n 0 = some x := by
  have hlength : (Nat.toDigits 10 n).length ≤ 20 := by
    apply Nat.toDigits_length _ _ _ (by decide)
    omega
  obtain ⟨bits, hbits⟩ := exists_nearestBits? hlow hhigh
  have hplaces : ¬ (n = 0 ∨ ((Nat.toDigits 10 n).length : Int) + 0 < -330) := by omega
  have hfew : ¬ 310 < ((Nat.toDigits 10 n).length : Int) + 0 := by omega
  have hnearest : nearestBits? (n * Nat.pow 10 (0 : Int).toNat) (Nat.pow 10 (-(0 : Int)).toNat) =
      some bits := by simpa using hbits
  simp only [nearest?, if_neg hplaces, if_neg hfew, hnearest]
  exact ⟨_, rfl⟩

end Binary64

namespace Number
variable {n : Int}

/-- Digits alone are a numeral without fraction and exponent. -/
theorem double?_digits (negative : Bool) {ds : List Char} (h : ∀ c ∈ ds, c.isDigit) :
    double? negative ds = Binary64.nearest? negative (digitsValue ds) 0 := by
  have htake : ds.takeWhile Char.isDigit = ds := List.takeWhile_eq_self_iff.2 h
  have hdrop : ds.dropWhile Char.isDigit = [] := List.dropWhile_eq_nil_iff.2 h
  simp only [double?, htake, hdrop, exponentOf?, Option.bind_some, List.append_nil]
  rfl

/-- A whole number of 64 bits without room for a sign is read as the nearest double. -/
theorem ofNumeral?_intText_of_long (hlow : 2 ^ 63 ≤ n) (hhigh : n < 2 ^ 64) :
    ∃ x, Binary64.nearest? false n.toNat 0 = some x ∧
      ofNumeral? (intText n) = some (.double x) := by
  obtain ⟨k, rfl⟩ := Int.eq_ofNat_of_zero_le (show 0 ≤ n by omega)
  obtain ⟨x, hx⟩ := Binary64.exists_nearest? (n := k) (by omega) (by omega)
  refine ⟨x, hx, ?_⟩
  have htext : intText k = Nat.toDigits 10 k := rfl
  have hdigits : ∀ c ∈ Nat.toDigits 10 k, c.isDigit := fun c => isDigit_of_mem_toDigits
  have hdouble := double?_digits false hdigits
  rw [digitsValue_toDigits, hx] at hdouble
  have hvalue := digitsValue_toDigits k
  rw [htext]
  obtain ⟨d, ds, hds⟩ := List.exists_cons_of_ne_nil (Nat.toDigits_ne_nil (n := k) (b := 10))
  rw [hds] at hdigits hvalue hdouble ⊢
  have hd := hdigits d (.head _)
  have hsign : d ≠ '-' := by
    rintro rfl
    cases hd
  have hlong : ¬ ((k : Int) ≤ Int64.maxValue.toInt) := by
    have hmax : Int64.maxValue.toInt = 2 ^ 63 - 1 := by decide
    omega
  rw [ofNumeral?]
  · simp only [List.head?_cons, Option.any_some, hd, not_true_eq_false, if_false, hvalue,
      Bool.false_eq_true, hlong, and_false, hdouble, Option.map_some]
  · intro s hs
    exact hsign (List.cons.inj hs).1

/-- What is shown like a whole number without being one is small. -/
theorem display_double_ne (x : Float) (hn : 10 ^ 15 ≤ n) :
    display (.double x) ≠ display (.int n) := by
  have hself : display (.int n) = text (.int n) := rfl
  intro h
  rw [hself] at h
  rcases display_double x with hx | ⟨k, hk, hx⟩ <;> rw [hx] at h
  · exact doubleText_ne_intText x n (String.ofList_injective h)
  · have hpos := (Value.position?_intText k).symm.trans
      ((congrArg Value.position? h).trans (Value.position?_intText n))
    have hnat : n.toNat? = some n.toNat := Int.mem_toNat?.2 (by omega)
    have hkn : k = n.toNat := Int.mem_toNat?.1 (hpos.trans hnat)
    simp only [Nat.pow_eq] at hk
    omega

end Number

/-- What the digits of a whole number of 64 bits are read as. -/
inductive Number.ReadFrom (n : Int) : Number → Prop
  | whole (h : n < 2 ^ 63) : ReadFrom n (.int n)
  | rounded (x : Float) (h : 2 ^ 63 ≤ n) (hx : Binary64.nearest? false n.toNat 0 = some x)
      (hd : display (.double x) ≠ display (.int n)) : ReadFrom n (.double x)

theorem Number.exists_readFrom {n : Int} (hlow : -2 ^ 63 ≤ n) (hhigh : n < 2 ^ 64) :
    ∃ m, ReadFrom n m ∧ ofNumeral? (intText n) = some m := by
  by_cases hn : n < 2 ^ 63
  · have hmin : Int64.minValue.toInt = -2 ^ 63 := by decide
    have hmax : Int64.maxValue.toInt = 2 ^ 63 - 1 := by decide
    exact ⟨.int n, .whole hn, ofNumeral?_intText ⟨by omega, by omega⟩⟩
  · obtain ⟨x, hx, hread⟩ := ofNumeral?_intText_of_long (n := n) (by omega) hhigh
    exact ⟨.double x, .rounded x (by omega) hx (display_double_ne x (by omega)), hread⟩

/-! Numerals as arguments -/

/-- A text that is read as `r` alone and among other arguments. -/
structure Reference.ReadFrom (a : List Char) (r : Reference) : Prop where
  alone : Reference.parse a = .ok r
  positional {l l' k : List (List Char)} {ps ps' : List Reference}
    {hash : List (String × Reference)} (hl : List.Forall₂ Written l ps)
    (hl' : List.Forall₂ Written l' ps') (hk : List.Forall₂ WrittenEntry k hash) :
    Invocation.parseArguments (Text.spaced (l ++ a :: l' ++ k)) =
      .ok ⟨none, ps ++ r :: ps', hash, []⟩
  keyed {key : String} {l k k' : List (List Char)} {ps : List Reference}
    {hash hash' : List (String × Reference)} (hkey : IsKey key) (hl : List.Forall₂ Written l ps)
    (hk : List.Forall₂ WrittenEntry k hash) (hk' : List.Forall₂ WrittenEntry k' hash') :
    Invocation.parseArguments (Text.spaced (l ++ (k ++ (key.toList ++ '=' :: a) :: k'))) =
      .ok ⟨none, ps, hash ++ (key, r) :: hash', []⟩

theorem Invocation.parseArguments_written {l k : List (List Char)} {ps : List Reference}
    {hash : List (String × Reference)} (hl : List.Forall₂ Reference.Written l ps)
    (hk : List.Forall₂ WrittenEntry k hash) (hne : l ++ k ≠ []) :
    parseArguments (Text.spaced (l ++ k)) = .ok ⟨none, ps, hash, []⟩ := by
  have hsolid := forall_of_forall₂ (fun _ _ hw => hw.solid) hl
  have hsolid' := forall_of_forall₂ (fun _ _ hw => hw.solid) hk
  have hall : ∀ a ∈ l ++ k, Text.Solid a := by
    intro a ha
    exact (List.mem_append.1 ha).elim (hsolid a) (hsolid' a)
  have hentries := gatherFrom_entries (l := []) (i := ⟨none, ps, [], []⟩) hk nofun rfl
  rw [List.append_nil] at hentries
  rw [parseArguments_eq, Token.all, (Text.solid_spaced hne hall).trim_eq, ← gatherFrom,
    gatherFrom_params hl hsolid' rfl rfl]
  refine hentries.trans ?_
  rw [Text.spaced, gatherFrom, Token.allFrom_nil]
  rfl

section
variable {w : List Char} {m : Number} {n : Int}

theorem Reference.ofWord_numeral (h : Number.ofNumeral? w = some m) :
    ofWord w = .ok (.literal (.number m)) := by
  have hne : ∀ v, Number.ofNumeral? v = none → w ≠ v := by
    rintro v hv rfl
    rw [hv] at h
    cases h
  rw [ofWord, if_neg (hne _ rfl), if_neg (hne _ rfl), if_neg (hne _ rfl), h]

theorem Number.intText_ne_nil (n : Int) : intText n ≠ [] := by
  simp [intText, Nat.toDigits_ne_nil]

theorem Reference.written_intText (h : Number.ofNumeral? (Number.intText n) = some m) :
    Written (Number.intText n) (.literal (.number m)) := by
  have hkey : ∀ c ∈ Number.intText n, Token.isKeyChar c := fun c => isKeyChar_of_mem_intText
  have has : Number.intText n ≠ ['a', 's'] := by
    intro ha
    rw [ha] at h
    cases h
  exact ⟨balanced_of_isKeyChar hkey, .word, _, readAs_plain (Number.intText_ne_nil n) hkey, has,
    fun _ _ => ofWord_numeral h⟩

theorem Reference.parse_intText (h : Number.ofNumeral? (Number.intText n) = some m) :
    Reference.parse (Number.intText n) = .ok (.literal (.number m)) := by
  have htrim := (written_intText h).solid.trim_eq
  have hkey : ∀ c ∈ Number.intText n, Token.isKeyChar c := fun c => isKeyChar_of_mem_intText
  have hword := ofWord_numeral h
  obtain ⟨c, cs, hcs⟩ := List.exists_cons_of_ne_nil (Number.intText_ne_nil n)
  rw [hcs] at htrim hkey hword ⊢
  obtain ⟨-, hopen, -, hdouble, hsingle, -⟩ := plain_of_isKeyChar (hkey c (.head _))
  rw [Reference.parse, htrim]
  simp [Token.isQuote, hdouble, hsingle, hopen, hword]

theorem Reference.readFrom_intText (h : Number.ofNumeral? (Number.intText n) = some m) :
    ReadFrom (Number.intText n) (.literal (.number m)) where
  alone := parse_intText h
  positional hl hl' hk := by
    refine Invocation.parseArguments_written ?_ hk (by simp)
    exact List.rel_append hl (.cons (written_intText h) hl')
  keyed hkey hl hk hk' := by
    refine Invocation.parseArguments_written hl ?_ (by simp)
    exact List.rel_append hk (.cons ⟨_, rfl, hkey, written_intText h⟩ hk')

/-! A numeral alone in its tag -/

theorem Invocation.parse_intText (h : Number.ofNumeral? (Number.intText n) = some m) :
    Invocation.parse (Number.intText n) = .ok ⟨none, [.literal (.number m)], [], []⟩ := by
  have hargs := (Reference.readFrom_intText h).positional .nil .nil .nil
  have hspaced : Text.spaced ([] ++ Number.intText n :: [] ++ []) = Number.intText n := by
    simp [Text.spaced]
  rw [hspaced] at hargs
  exact parse_of_parseArguments hargs (by simp) (fun hmany => absurd hmany (by simp)) fun _ => rfl

theorem Tag.ofInside_intText (n : Int) :
    ofInside (Number.intText n) = .ok (.escapedValue, Number.intText n) := by
  obtain ⟨c, cs, hcs⟩ := List.exists_cons_of_ne_nil (Number.intText_ne_nil n)
  have hne : ∀ d, d ≠ '-' → d.isDigit = false → c ≠ d := by
    rintro d hsign hdigit rfl
    rcases Number.eq_sign_or_isDigit_of_mem_intText (hcs ▸ List.mem_cons_self ..) with h | h
    · exact hsign h
    · rw [hdigit] at h
      cases h
  have hword : afterKeyword? ['e', 'l', 's', 'e'] (c :: cs) = none := by
    have hafter : Text.after? ['e', 'l', 's', 'e'] (c :: cs) = none :=
      if_neg (Ne.symm (hne 'e' (by decide) (by decide)))
    rw [afterKeyword?, hafter]
  rw [hcs, ofInside]
  · rw [hword]
  · nofun
  all_goals
    intro s hs
    exact hne _ (by decide) (by decide) (List.cons.inj hs).1

theorem Template.compile_intText (h : Number.ofNumeral? (Number.intText n) = some m) :
    Template.compile .braces (String.ofList (Delimiters.braces.around (Number.intText n))) =
      .ok ⟨[.value ⟨none, [.literal (.number m)], [], []⟩ true], []⟩ := by
  have hplain : ∀ c ∈ Number.intText n, c ≠ '~' ∧ c ≠ '!' ∧ c ≠ '\x7b' ∧ c ≠ '\x7d' := by
    intro c hc
    rcases Number.eq_sign_or_isDigit_of_mem_intText hc with rfl | h
    · decide
    · refine ⟨?_, ?_, ?_, ?_⟩ <;> rintro rfl <;> cases h
  have htrim := (Reference.written_intText h).solid.trim_eq
  refine compile_around (Number.intText_ne_nil n) hplain ?_ (Invocation.parse_intText h) rfl
  rw [htrim, Tag.ofInside_intText]

theorem renderNode_literal (deeper : Option Renderer) (s : Setting) (l : Literal) (escaped : Bool)
    (st : RenderState) :
    renderNode deeper s (.value ⟨none, [.literal l], [], []⟩ escaped) st =
      .ok (s.emit escaped (.value l.toValue)) st := by
  rw [renderNode, Invocation.eval]
  rfl

end

/-- A whole number of 64 bits, with a sign or without, is written in a template as in data. It is
read as itself when it fits into 64 bits with a sign, a longer one as the nearest double, which is
shown otherwise. In a tag the numeral does what the number that it is read as does in the data. -/
theorem whole_numeral (n : Int) (hlow : -2 ^ 63 ≤ n) (hhigh : n < 2 ^ 64) :
    ∃ m, Number.ReadFrom n m ∧
      Reference.ReadFrom (Number.intText n) (.literal (.number m)) ∧
      Template.compile .braces (String.ofList (Delimiters.braces.around (Number.intText n))) =
        .ok ⟨[.value ⟨none, [.literal (.number m)], [], []⟩ true], []⟩ ∧
      ∀ deeper s,
        (∀ escaped st,
          renderNode deeper s (.value ⟨none, [.literal (.number m)], [], []⟩ escaped) st =
            .ok (s.emit escaped (.value (.number m))) st) ∧
        ∀ p, s.Holds p (.number m) → ∀ node,
          renderNode deeper s (node.put p (.number m)) = renderNode deeper s node := by
  obtain ⟨m, hm, hread⟩ := Number.exists_readFrom hlow hhigh
  refine ⟨m, hm, Reference.readFrom_intText hread, Template.compile_intText hread, ?_⟩
  intro deeper s
  refine ⟨?_, ?_⟩
  · exact renderNode_literal deeper s (.number m)
  · intro p hp node
    exact renderNode_put hp deeper node

theorem whole_numeral_largest :
    (-2 ^ 63 ≤ (2 ^ 63 - 1 : Int) ∧ (2 ^ 63 - 1 : Int) < 2 ^ 64) ∧
      Reference.parse (Number.intText (2 ^ 63 - 1)) =
        .ok (.literal (.number (.int (2 ^ 63 - 1)))) := by
  have hrange : -2 ^ 63 ≤ (2 ^ 63 - 1 : Int) ∧ (2 ^ 63 - 1 : Int) < 2 ^ 64 := by decide
  refine ⟨hrange, ?_⟩
  obtain ⟨m, hm, hread, -⟩ := whole_numeral (2 ^ 63 - 1) hrange.1 hrange.2
  cases hm with
  | whole => exact hread.alone
  | rounded x h => exact absurd h (by decide)

/-- The first whole number with one bit too many. -/
theorem long_numeral_rounded :
    Number.intText (2 ^ 63) = "9223372036854775808".toList ∧
      Reference.parse "9223372036854775808".toList =
        .ok (.literal (.number (.double (.ofBits 0x43e0000000000000)))) ∧
      (Number.double (.ofBits 0x43e0000000000000)).display = "9.223372036854776e+18" ∧
      (Number.int (2 ^ 63)).display = "9223372036854775808" := by
  refine ⟨by decide +kernel, ?_, by decide +kernel, by decide +kernel⟩
  rfl

end TextTemplate

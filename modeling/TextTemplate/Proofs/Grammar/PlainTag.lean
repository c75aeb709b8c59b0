import TextTemplate.Proofs.Grammar.Concatenation

/-! A plain tag in curly brackets that stands alone: how it is found, and what it compiles to. -/

namespace TextTemplate
variable {w : List Char} {i : Invocation}

/-- A tag that says `w`. -/
def Delimiters.around (d : Delimiters) (w : List Char) : List Char :=
  d.opening.toList ++ (w ++ d.closing.toList)

/-- A text without marks, between curly brackets, is the inside of a plain tag. -/
theorem Markup.find?_plain (hn : w ≠ [])
    (hw : ∀ c ∈ w, c ≠ '~' ∧ c ≠ '!' ∧ c ≠ '\x7b' ∧ c ≠ '\x7d') :
    find? .braces (Delimiters.braces.around w) =
      some ([], false, ⟨false, .plain, w, false⟩, []) := by
  have hend : Text.upTo (afterEnd? .braces .plain) (w ++ Delimiters.braces.closing.toList) =
      some (w, false, []) := by
    have hclosing : Text.upTo (afterEnd? .braces .plain) Delimiters.braces.closing.toList =
        some ([], false, []) := by decide
    rw [Text.upTo_append_of_none, hclosing]
    · simp
    · intro i hi
      have hne : w.drop i ≠ [] := List.drop_eq_nil_iff.not.2 (Nat.not_le.2 hi)
      obtain ⟨c, cs, hc⟩ := List.exists_cons_of_ne_nil hne
      obtain ⟨htilde, -, -, hclose⟩ := hw c (List.mem_of_mem_drop (hc ▸ List.mem_cons_self ..))
      rw [hc, List.cons_append, afterEnd?_plain (by simpa using htilde)]
      have hafter : ∀ u, Text.after? Delimiters.braces.closing.toList (c :: u) = none := by
        intro u
        exact if_neg (Ne.symm hclose)
      rw [hafter, Option.map_none]
  obtain ⟨c, cs, rfl⟩ := List.exists_cons_of_ne_nil hn
  obtain ⟨htilde, hbang, hopen, -⟩ := hw c (.head _)
  have hunmarked : Delimiters.braces.Unmarked := by decide
  have hplain : ∀ e, e ≠ .plain →
      ¬ Enclosure.opening e <+: c :: cs ++ Delimiters.braces.closing.toList := by
    intro e he hp
    cases e with
    | plain => exact he rfl
    | braces => exact hopen (List.cons_prefix_cons.1 hp).1.symm
    | dashes => exact hbang (List.cons_prefix_cons.1 hp).1.symm
  have hread : read? .braces (Delimiters.braces.around (c :: cs)) =
      some (⟨false, .plain, c :: cs, false⟩, []) := by
    have h := readAs?_append .braces false .plain (c :: cs ++ Delimiters.braces.closing.toList)
    rw [hend] at h
    rw [Delimiters.around, read?_eq_readAs? hunmarked (startsTilde_of_head? (by simpa using htilde))
      hplain]
    exact h
  have hquoted : quotedRead? .braces (Delimiters.braces.around (c :: cs)) =
      some (false, ⟨false, .plain, c :: cs, false⟩, []) := by
    have hslash : Text.after? (backslash true) (Delimiters.braces.around (c :: cs)) = none := rfl
    have hnone : Text.after? (backslash false) (Delimiters.braces.around (c :: cs)) =
        some (Delimiters.braces.around (c :: cs)) := rfl
    simp only [quotedRead?, List.findSome?_cons, hslash, hnone, Option.bind_none, Option.map_none,
      Option.bind_some, hread, Option.map_some]
  exact Text.upTo_cons_of_some hquoted

/-- A value alone in its tag compiles to the node that shows it. -/
theorem Template.compile_around (hn : w ≠ [])
    (hw : ∀ c ∈ w, c ≠ '~' ∧ c ≠ '!' ∧ c ≠ '\x7b' ∧ c ≠ '\x7d')
    (hkind : Tag.ofInside (Text.trim w) = .ok (.escapedValue, w)) (hi : Invocation.parse w = .ok i)
    (ha : i.aliases = []) :
    Template.compile .braces (String.ofList (Delimiters.braces.around w)) =
      .ok ⟨[.value i true], []⟩ := by
  have hopen : Text.contains Delimiters.braces.opening.toList w = false := by
    rw [← Bool.not_eq_true, Text.contains_iff]
    intro h
    exact (hw _ (h.subset (List.mem_cons_self ..))).2.2.1 rfl
  have hmarkup : Tag.ofMarkup .braces ⟨false, .plain, w, false⟩ = .ok (.escapedValue, w) := by
    rw [Tag.ofMarkup, hopen]
    exact hkind
  have hfirst : Tag.first? .braces (Delimiters.braces.around w) = .ok (some
      ⟨.escapedValue, [], w, [], Markup.text .braces ⟨false, .plain, w, false⟩⟩) := by
    simp only [Tag.first?, Markup.find?_plain hn hw, hmarkup]
    rfl
  have hsymbol : Tag.valueSymbol w true = .ok (.value i true) := by
    simp only [Tag.valueSymbol, hi, withinTag, Except.mapError, bind, Except.bind, ha, ne_eq,
      not_true_eq_false, if_false]
    rfl
  rw [Template.compile_eq_ok_iff_spells, String.toList_ofList]
  exact ⟨[.text [], .value i true, .text []], .tag hfirst hsymbol (.rest rfl), rfl⟩

end TextTemplate

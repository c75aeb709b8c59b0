import Mathlib
import TextTemplate.FunctionName

/-! The name of a template's function: what it is made of, when there is none but an underscore, and
that a function's name is the name of its own function. -/

namespace TextTemplate.FunctionName

/-- A letter or an underscore, and then letters, digits and underscores. -/
inductive IsIdentifier : List Char → Prop
  | intro {c : Char} {cs : List Char} (hc : c.isAlpha ∨ c = '_') (h : ∀ d ∈ cs, isWordChar d) :
      IsIdentifier (c :: cs)

/-- A name that can be given to a function, reserved words aside: a lone underscore is none. -/
def Legal (name : String) : Prop := IsIdentifier name.toList ∧ name ≠ "_"

/-- A letter or digit of an identifier, or one of the two capitals beyond ASCII that are small as
one. -/
def Counts (c : Char) : Prop := c.isAlphanum ∨ c = '\u212a' ∨ c = '\u0130'

/-- What is written for a character of the template's name, apart from underscores. -/
def folded (c : Char) : List Char := if Text.isCapital c then small c else [c]

section
variable {c d : Char} {s : List Char}

/-! Letters and digits on their way -/

theorem ne_underscore (h : c.isAlphanum) : c ≠ '_' := by
  rintro rfl
  exact absurd h (by decide)

theorem isAlphanum_toLower (c : Char) : c.toLower.isAlphanum = c.isAlphanum := by
  by_cases hc : c.isUpper
  · have halpha : c.isAlpha = true := by simp [Char.isAlpha, hc]
    simp [Char.isAlphanum, halpha]
  · rw [Char.toLower_eq_of_not_isUpper hc]

theorem exists_folded_iff : (∃ d ∈ folded c, d.isAlphanum) ↔ Counts c := by
  rw [folded, Counts]
  by_cases hc : Text.isCapital c
  · rw [if_pos hc, small]
    by_cases hkelvin : c = '\u212a'
    · simp [hkelvin]
    · by_cases hdotted : c = '\u0130'
      · simp [hdotted]
      · simp [hkelvin, hdotted, isAlphanum_toLower]
  · have hkelvin : c ≠ '\u212a' := by
      rintro rfl
      exact hc (by decide)
    have hdotted : c ≠ '\u0130' := by
      rintro rfl
      exact hc (by decide)
    simp [hc, hkelvin, hdotted]

theorem mem_snakeCase_iff (hd : d ≠ '_') : d ∈ snakeCase s ↔ ∃ c ∈ s, d ∈ folded c := by
  cases s with
  | nil => simp [snakeCase]
  | cons c cs =>
    have hrest : ∀ a : Char, (d ∈ if Text.isCapital a then '_' :: small a else [a]) ↔
        d ∈ folded a := by
      intro a
      rw [folded]
      by_cases ha : Text.isCapital a <;> simp [ha, hd]
    simp only [snakeCase, List.mem_append, List.mem_flatMap, hrest, List.exists_mem_cons_iff]
    rfl

theorem exists_snakeCase_iff : (∃ d ∈ snakeCase s, d.isAlphanum) ↔ ∃ c ∈ s, Counts c := by
  constructor
  · rintro ⟨d, hm, hd⟩
    obtain ⟨c, hc, hfolded⟩ := (mem_snakeCase_iff (ne_underscore hd)).1 hm
    exact ⟨c, hc, exists_folded_iff.1 ⟨d, hfolded, hd⟩⟩
  · rintro ⟨c, hc, hcounts⟩
    obtain ⟨d, hfolded, hd⟩ := exists_folded_iff.2 hcounts
    exact ⟨d, (mem_snakeCase_iff (ne_underscore hd)).2 ⟨c, hc, hfolded⟩, hd⟩

theorem of_mem_replaceRuns (h : c ∈ replaceRuns s) : c = '_' ∨ (c ∈ s ∧ isWordChar c) := by
  fun_induction replaceRuns s with
  | case1 => cases h
  | case2 a s ha ih =>
    rcases List.mem_cons.1 h with rfl | h
    · exact .inr ⟨.head _, ha⟩
    · exact (ih h).imp_right fun ⟨hm, hc⟩ => ⟨.tail _ hm, hc⟩
  | case3 a _ b s _ ih =>
    rcases List.mem_cons.1 h with rfl | h
    · exact .inl rfl
    · exact (ih h).imp_right fun ⟨hm, hc⟩ => ⟨.tail _ hm, hc⟩
  | case4 a _ b s _ ih => exact (ih h).imp_right fun ⟨hm, hc⟩ => ⟨.tail _ hm, hc⟩
  | case5 => exact .inl (List.mem_singleton.1 h)

theorem mem_replaceRuns (hc : isWordChar c) (h : c ∈ s) : c ∈ replaceRuns s := by
  fun_induction replaceRuns s with
  | case1 => cases h
  | case2 a s _ ih =>
    rcases List.mem_cons.1 h with rfl | h
    · exact .head _
    · exact .tail _ (ih h)
  | case3 a ha b s _ ih =>
    rcases List.mem_cons.1 h with rfl | h
    · exact absurd hc ha
    · exact .tail _ (ih h)
  | case4 a ha b s _ ih =>
    rcases List.mem_cons.1 h with rfl | h
    · exact absurd hc ha
    · exact ih h
  | case5 a ha =>
    cases List.mem_singleton.1 h
    exact absurd hc ha

theorem isWordChar_of_mem_replaceRuns (h : c ∈ replaceRuns s) : isWordChar c := by
  rcases of_mem_replaceRuns h with rfl | ⟨-, hc⟩
  · rfl
  · exact hc

theorem exists_replaceRuns_iff : (∃ c ∈ replaceRuns s, c ≠ '_') ↔ ∃ c ∈ s, c.isAlphanum := by
  constructor
  · rintro ⟨c, hm, hne⟩
    obtain ⟨hc, hword⟩ := (of_mem_replaceRuns hm).resolve_left hne
    refine ⟨c, hc, ?_⟩
    simpa [isWordChar, hne] using hword
  · rintro ⟨c, hc, halpha⟩
    exact ⟨c, mem_replaceRuns (by simp [isWordChar, halpha]) hc, ne_underscore halpha⟩

/-! The ends of a name -/

theorem trimUnderscores_eq (s : List Char) :
    trimUnderscores s = (s.dropWhile (· = '_')).rdropWhile (· = '_') := rfl

theorem mem_of_mem_trimUnderscores (h : c ∈ trimUnderscores s) : c ∈ s := by
  rw [trimUnderscores_eq] at h
  exact (List.dropWhile_sublist _).subset ((List.rdropWhile_prefix _ _).subset h)

theorem head?_trimUnderscores (s : List Char) : (trimUnderscores s).head? ≠ some '_' := by
  intro h
  obtain ⟨r, hr⟩ := List.head?_eq_some_iff.1 h
  obtain ⟨t, ht⟩ := List.rdropWhile_prefix (· = '_') (s.dropWhile (· = '_'))
  rw [← trimUnderscores_eq, hr, List.cons_append] at ht
  have hnot := List.head?_dropWhile_not (· = '_') s
  rw [← ht] at hnot
  simp at hnot

theorem trimUnderscores_eq_nil_iff : trimUnderscores s = [] ↔ ∀ c ∈ s, c = '_' := by
  rw [trimUnderscores_eq, List.rdropWhile_eq_nil_iff]
  constructor
  · intro h c hc
    rw [← List.takeWhile_append_dropWhile (p := (· = '_')) (l := s), List.mem_append] at hc
    rcases hc with hc | hc
    · exact of_decide_eq_true (List.all_eq_true.1 List.all_takeWhile c hc)
    · exact of_decide_eq_true (h c hc)
  · intro h c hc
    exact decide_eq_true (h c ((List.dropWhile_sublist _).subset hc))

theorem guardStart_isIdentifier (h : ∀ c ∈ s, isWordChar c) : IsIdentifier (guardStart s) := by
  rw [guardStart]
  split
  · exact .intro (.inr rfl) h
  · rename_i hstart
    cases s with
    | nil => exact absurd rfl hstart
    | cons c s =>
      have hword := h c (.head _)
      have hdigit : ¬ c.isDigit := hstart
      refine .intro ?_ fun d hd => h d (.tail _ hd)
      simpa [isWordChar, Char.isAlphanum, hdigit] using hword

theorem guardStart_eq_lone_iff (h : s.head? ≠ some '_') : guardStart s = ['_'] ↔ s = [] := by
  rw [guardStart]
  split
  · simp
  · rename_i hstart
    constructor
    · rintro rfl
      exact absurd rfl h
    · rintro rfl
      exact absurd rfl hstart

/-! Capitals -/

theorem toNat_lt_of_isWordChar (h : isWordChar c) : c.toNat < 0x80 := by
  rw [isWordChar, Bool.or_eq_true, decide_eq_true_eq] at h
  rcases h with h | rfl
  · simp only [Char.isAlphanum, Char.isAlpha, Char.isUpper, Char.isLower, Char.isDigit,
      Bool.or_eq_true, Bool.and_eq_true, decide_eq_true_eq, UInt32.le_iff_toNat_le,
      Char.reduceVal, UInt32.reduceToNat] at h
    rw [Char.toNat]
    omega
  · decide

theorem isCapital_eq_isUpper (h : isWordChar c) : Text.isCapital c = c.isUpper := by
  have hwide : ∀ r ∈ Text.wideCapitals, 0x80 ≤ r.first := by decide +kernel
  have hc := toNat_lt_of_isWordChar h
  rw [Text.isCapital, Bool.or_eq_left_iff_imp]
  intro hany
  obtain ⟨r, hr, hin⟩ := List.any_eq_true.1 hany
  have hfirst := hwide r hr
  simp only [Text.Stride.contains, Bool.and_eq_true, decide_eq_true_eq] at hin
  omega

theorem isUpper_of_mem_folded (h : d ∈ folded c) : d.isUpper = false := by
  rw [folded] at h
  split at h
  · rw [small] at h
    split at h
    · cases List.mem_singleton.1 h
      rfl
    · split at h
      · rcases List.mem_pair.1 h with rfl | rfl <;> rfl
      · cases List.mem_singleton.1 h
        exact Char.isUpper_toLower_eq_false c
  · rename_i hc
    cases List.mem_singleton.1 h
    rw [Text.isCapital, Bool.or_eq_true, not_or] at hc
    exact Bool.eq_false_iff.2 hc.1

theorem isCapital_of_mem_replaceRuns (h : c ∈ replaceRuns (snakeCase s)) :
    Text.isCapital c = false := by
  rw [isCapital_eq_isUpper (isWordChar_of_mem_replaceRuns h)]
  by_cases hc : c = '_'
  · rw [hc]
    rfl
  · obtain ⟨hm, -⟩ := (of_mem_replaceRuns h).resolve_left hc
    obtain ⟨a, -, ha⟩ := (mem_snakeCase_iff hc).1 hm
    exact isUpper_of_mem_folded ha

/-! A name that is given to a template again -/

/-- What a name is before it is guarded: small letters, digits and underscores, with none of these
at an end. -/
structure Bare (s : List Char) : Prop where
  word : ∀ c ∈ s, isWordChar c
  uncapital : ∀ c ∈ s, Text.isCapital c = false
  start : s.head? ≠ some '_'
  finish : s.getLast? ≠ some '_'

theorem getLast?_trimUnderscores (s : List Char) : (trimUnderscores s).getLast? ≠ some '_' := by
  intro h
  have hnot := List.head?_dropWhile_not (· = '_') (s.dropWhile (· = '_')).reverse
  rw [trimUnderscores, List.getLast?_reverse] at h
  rw [h] at hnot
  cases hnot

theorem bare_trimUnderscores (s : List Char) :
    Bare (trimUnderscores (replaceRuns (snakeCase s))) where
  word _ hc := isWordChar_of_mem_replaceRuns (mem_of_mem_trimUnderscores hc)
  uncapital _ hc := isCapital_of_mem_replaceRuns (mem_of_mem_trimUnderscores hc)
  start := head?_trimUnderscores _
  finish := getLast?_trimUnderscores _

theorem snakeCase_eq_self (h : ∀ c ∈ s, Text.isCapital c = false) : snakeCase s = s := by
  cases s with
  | nil => rfl
  | cons c s =>
    obtain ⟨hc, hs⟩ := List.forall_mem_cons.1 h
    have hrest : (s.flatMap fun a => if Text.isCapital a then '_' :: small a else [a]) = s := by
      rw [List.flatMap_congr fun a ha => by rw [hs a ha, if_neg Bool.false_ne_true]]
      exact List.flatMap_singleton' s
    rw [snakeCase, hrest, hc, if_neg Bool.false_ne_true, List.singleton_append]

theorem replaceRuns_eq_self (h : ∀ c ∈ s, isWordChar c) : replaceRuns s = s := by
  induction s with
  | nil => rfl
  | cons c s ih =>
    obtain ⟨hc, hs⟩ := List.forall_mem_cons.1 h
    rw [replaceRuns.eq_def]
    simp only [hc, if_true, ih hs]

theorem dropWhile_underscore (h : s.head? ≠ some '_') : s.dropWhile (· = '_') = s := by
  cases s with
  | nil => rfl
  | cons c s =>
    refine List.dropWhile_cons_of_neg fun hc => h ?_
    rw [List.head?_cons, of_decide_eq_true hc]

/-- The underscore of the guard is the only one at the start, and trimming takes it away. -/
theorem Bare.trimUnderscores_guardStart (h : Bare s) : trimUnderscores (guardStart s) = s := by
  have htrim : trimUnderscores s = s := by
    have hfinish : s.reverse.head? ≠ some '_' := by
      rw [List.head?_reverse]
      exact h.finish
    rw [trimUnderscores, dropWhile_underscore h.start, dropWhile_underscore hfinish,
      List.reverse_reverse]
  rw [guardStart]
  split
  · rw [trimUnderscores, List.dropWhile_cons_of_pos (by decide)]
    exact htrim
  · exact htrim

theorem Bare.of_guardStart (h : Bare s) :
    ∀ c ∈ guardStart s, isWordChar c ∧ Text.isCapital c = false := by
  intro c hc
  have hguard : c = '_' ∨ c ∈ s := by
    rw [guardStart] at hc
    split at hc
    · exact List.mem_cons.1 hc
    · exact .inr hc
  rcases hguard with rfl | hc
  · decide
  · exact ⟨h.word c hc, h.uncapital c hc⟩

theorem Bare.guardStart_fixed (h : Bare s) :
    guardStart (trimUnderscores (replaceRuns (snakeCase (guardStart s)))) = guardStart s := by
  rw [snakeCase_eq_self fun c hc => (h.of_guardStart c hc).2,
    replaceRuns_eq_self fun c hc => (h.of_guardStart c hc).1, h.trimUnderscores_guardStart]

end

theorem toList_ofTemplate (name : String) : (ofTemplate name).toList =
    guardStart (trimUnderscores (replaceRuns (snakeCase name.toList))) := by
  rw [ofTemplate, String.toList_ofList]

/-- The name is an identifier, whatever the template is called. It is one for a function exactly
where the template's name holds a letter or digit; of any other name a lone underscore is left. -/
theorem ofTemplate_legal_iff (name : String) :
    IsIdentifier (ofTemplate name).toList ∧
      (Legal (ofTemplate name) ↔ ∃ c ∈ name.toList, Counts c) := by
  let runs := replaceRuns (snakeCase name.toList)
  have hlist : (ofTemplate name).toList = guardStart (trimUnderscores runs) := by
    rw [ofTemplate, String.toList_ofList]
  have hidentifier : IsIdentifier (ofTemplate name).toList := by
    rw [hlist]
    exact guardStart_isIdentifier fun c hc =>
      isWordChar_of_mem_replaceRuns (mem_of_mem_trimUnderscores hc)
  have hlone : ofTemplate name = "_" ↔ ∀ c ∈ runs, c = '_' := by
    rw [← String.toList_inj, hlist, ← trimUnderscores_eq_nil_iff]
    exact guardStart_eq_lone_iff (head?_trimUnderscores runs)
  refine ⟨hidentifier, ?_⟩
  calc Legal (ofTemplate name) ↔ ofTemplate name ≠ "_" := and_iff_right hidentifier
    _ ↔ ∃ c ∈ runs, c ≠ '_' := by
      rw [Ne, hlone]
      push Not
      rfl
    _ ↔ ∃ c ∈ snakeCase name.toList, c.isAlphanum := exists_replaceRuns_iff
    _ ↔ ∃ c ∈ name.toList, Counts c := exists_snakeCase_iff

theorem ofTemplate_symbols : ofTemplate "-" = "_" ∧ ¬ Legal (ofTemplate "-") := by
  have hlone : ofTemplate "-" = "_" := by decide
  exact ⟨hlone, fun h => h.2 hlone⟩

/-- The name has no capitals and is its own function's name: a template that is called like a
function has exactly this function. -/
theorem ofTemplate_stable (name : String) :
    ofTemplate (ofTemplate name) = ofTemplate name ∧
      (∀ c ∈ (ofTemplate name).toList, Text.isCapital c = false) ∧
      ∀ source, (ofSource (ofTemplate name) source).toOption = (ofSource name source).toOption := by
  let core := trimUnderscores (replaceRuns (snakeCase name.toList))
  have hlist : (ofTemplate name).toList = guardStart core := toList_ofTemplate name
  have hcore : Bare core := bare_trimUnderscores name.toList
  have hstable : ofTemplate (ofTemplate name) = ofTemplate name := by
    rw [← String.toList_inj, toList_ofTemplate, hlist]
    exact hcore.guardStart_fixed
  refine ⟨hstable, ?_, ?_⟩
  · intro c hc
    rw [hlist] at hc
    exact (hcore.of_guardStart c hc).2
  · intro source
    rw [ofSource, ofSource, hstable]
    cases Template.compile .braces source <;> rfl

/-- The guard adds its underscore again. -/
example : ofTemplate "404" = "_404" ∧ ofTemplate "_404" = "_404" ∧ ofTemplate "_" = "_" := by decide

end TextTemplate.FunctionName

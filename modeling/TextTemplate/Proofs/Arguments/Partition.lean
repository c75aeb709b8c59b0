import TextTemplate.Proofs.Grouping

/-! Reading the pieces of an argument list loses nothing: they stand one behind the other with white
space between them, and each leaves less to read. -/

namespace TextTemplate.Token
variable {s r v : List Char} {c : Char} {t : Token} {ts : List Token}
  {cuts : List (List Char × List Char)}

/-- How a piece is written: its key, and then its value. The names of block parameters stand between
bars, with white space around them. -/
inductive Spelling (t : Token) : List Char → Prop
  | value (hk : t.kind ≠ .blockParams) : Spelling t (keyText t.key ++ t.value)
  | bars {lead trail : List Char} (hk : t.kind = .blockParams) (hl : Text.Blank lead)
      (ht : Text.Blank trail) :
      Spelling t (keyText t.key ++ '|' :: (lead ++ t.value ++ trail ++ ['|']))

/-- The text is what is written for the piece, the white space behind it, and the tail. -/
structure Cut (s : List Char) (t : Token) (spelling gap : List Char) : Prop where
  parts : s = spelling ++ gap ++ t.tail
  spelled : t.Spelling spelling
  blank : Text.Blank gap
  tail : ∀ c ∈ t.tail.head?, Text.isBlank c = false
  shorter : t.tail.length < s.length

/-- The pieces of a text that are read in turn, with what is written for each and the gap behind it,
up to a text that is left. -/
inductive Partition : List Char → List Token → List (List Char × List Char) → List Char → Prop
  | done (s : List Char) : Partition s [] [] s
  | piece {s r spelling gap : List Char} {t : Token} {ts : List Token}
      {cuts : List (List Char × List Char)} (read : next? s = .ok (some t))
      (cut : Cut s t spelling gap) (next : Partition t.tail ts cuts r) :
      Partition s (t :: ts) ((spelling, gap) :: cuts) r

/-! One piece -/

theorem Begins.eq_append {kind : Kind} (h : Begins r s kind v) (hk : kind ≠ .blockParams) :
    s = v ++ r := by
  cases h with
  | group hu => rw [upToParen?_eq_some hu, List.cons_append]
  | string _ hu => rw [upToQuote?_eq_some hu, List.cons_append]
  | word hw => rw [wordEnd?_eq_some hw, List.cons_append]
  | blockParams => exact absurd rfl hk

theorem Begins.exists_bars (h : Begins r s .blockParams v) : ∃ lead trail,
    Text.Blank lead ∧ Text.Blank trail ∧ s = '|' :: (lead ++ v ++ trail ++ ['|']) ++ r := by
  cases h with
  | @blockParams names =>
    obtain ⟨lead, trail, hl, ht, hnames⟩ := Text.exists_eq_trim names
    refine ⟨lead, trail, hl, ht, ?_⟩
    rw [← hnames, List.cons_append, List.append_assoc, List.singleton_append]

/-- What is written for a piece is read up to its end, and no further. -/
theorem Begins.exists_spelling (h : Begins r s t.kind t.value) :
    ∃ w, t.Spelling (keyText t.key ++ w) ∧ s = w ++ r := by
  by_cases hk : t.kind = .blockParams
  · rw [hk] at h
    obtain ⟨lead, trail, hl, ht, hs⟩ := h.exists_bars
    exact ⟨_, .bars hk hl ht, hs⟩
  · exact ⟨t.value, .value hk, h.eq_append hk⟩

theorem exists_cut (h : next? s = .ok (some t)) : ∃ spelling gap, Cut s t spelling gap := by
  have hshorter := length_tail_lt h
  rw [next?] at h
  split at h
  · cases h
  split at h
  · rename_i kind value rest hr
    cases h
    obtain ⟨w, hw, hbody⟩ := Begins.exists_spelling
      (t := ⟨kind, value, (splitKey s).1, Text.trimStart rest⟩) (begins_of_readBody hr)
    obtain ⟨gap, hgap, hrest⟩ := Text.exists_eq_trimStart rest
    refine ⟨_, gap, ?_, hw, hgap, Text.head?_trimStart rest, hshorter⟩
    calc s = keyText (splitKey s).1 ++ (splitKey s).2 := eq_keyText_append s
      _ = keyText (splitKey s).1 ++ (w ++ (gap ++ Text.trimStart rest)) := by rw [hbody, ← hrest]
      _ = keyText (splitKey s).1 ++ w ++ gap ++ Text.trimStart rest := by
        simp only [List.append_assoc]
  · cases h

/-! All pieces -/

theorem count_blank (h : Text.Blank s) (hc : Text.isBlank c = false) : s.count c = 0 :=
  List.count_eq_zero.2 fun hm => by simp [h c hm] at hc

theorem count_trim (hc : Text.isBlank c = false) : (Text.trim s).count c = s.count c := by
  obtain ⟨lead, trail, hl, ht, hs⟩ := Text.exists_eq_trim s
  conv =>
    rhs
    rw [hs, List.count_append, List.count_append, count_blank hl hc, count_blank ht hc,
      Nat.zero_add, Nat.add_zero]

namespace Partition

theorem spelled (h : Partition s ts cuts r) :
    List.Forall₂ (fun t cut => t.Spelling cut.1 ∧ Text.Blank cut.2) ts cuts := by
  induction h with
  | done => exact .nil
  | piece _ cut _ ih => exact .cons ⟨cut.spelled, cut.blank⟩ ih

theorem parts (h : Partition s ts cuts r) :
    s = cuts.flatMap (fun cut => cut.1 ++ cut.2) ++ r := by
  induction h with
  | done => rfl
  | @piece s r spelling gap t ts cuts _ cut _ ih =>
    rw [List.flatMap_cons, List.append_assoc _ _ r, ← ih]
    exact cut.parts

/-- Each piece takes up a character at least. -/
theorem length_le (h : Partition s ts cuts r) : ts.length + r.length ≤ s.length := by
  induction h with
  | done => simp
  | piece _ cut _ ih =>
    have hshorter := cut.shorter
    rw [List.length_cons]
    omega

theorem count_eq (h : Partition s ts cuts r) (hc : Text.isBlank c = false) :
    s.count c = (cuts.flatMap (·.1)).count c + r.count c := by
  induction h with
  | done => simp
  | @piece s r spelling gap t ts cuts _ cut _ ih =>
    have hgap := count_blank cut.blank hc
    simp only [cut.parts, List.flatMap_cons, List.count_append]
    omega

end Partition

/-- The loop goes on until nothing is left or a piece cannot be read. -/
theorem exists_partition (s : List Char) : ∃ ts cuts r, Partition s ts cuts r ∧
    match allFrom s with
    | .ok us => us = ts ∧ r = []
    | .error e => next? r = .error e := by
  fun_induction allFrom s with
  | case1 s e he => exact ⟨[], [], s, .done s, he⟩
  | case2 s hs => exact ⟨[], [], s, .done s, rfl, eq_nil_of_next? hs⟩
  | case3 s t ht ih =>
    obtain ⟨ts, cuts, r, hp, hend⟩ := ih
    obtain ⟨spelling, gap, hcut⟩ := exists_cut ht
    refine ⟨t :: ts, (spelling, gap) :: cuts, r, .piece ht hcut hp, ?_⟩
    cases hall : allFrom t.tail with
    | error e =>
      rw [hall] at hend
      exact hend
    | ok us =>
      rw [hall] at hend
      exact ⟨congrArg (t :: ·) hend.1, hend.2⟩

/-- The pieces of a text, as they are written, and the white space behind them make up the text. It
takes as many turns to read them as there are, and each of them takes up a character of the text;
where there is an error, this is so up to the piece that is at fault. -/
theorem all_lossless (s : List Char) : ∃ ts cuts rest,
    Partition (Text.trim s) ts cuts rest ∧
      List.Forall₂ (fun t cut => t.Spelling cut.1 ∧ Text.Blank cut.2) ts cuts ∧
      Text.trim s = cuts.flatMap (fun cut => cut.1 ++ cut.2) ++ rest ∧
      (∀ c, Text.isBlank c = false →
        s.count c = (cuts.flatMap (·.1)).count c + rest.count c) ∧
      ts.length ≤ s.length ∧
      match all s with
      | .ok us => us = ts ∧ rest = []
      | .error e => next? rest = .error e := by
  obtain ⟨ts, cuts, rest, hp, hend⟩ := exists_partition (Text.trim s)
  refine ⟨ts, cuts, rest, hp, hp.spelled, hp.parts, ?_, ?_, hend⟩
  · intro c hc
    rw [← count_trim hc]
    exact hp.count_eq hc
  · have hturns := hp.length_le
    have htrim := Text.length_trim_le s
    omega

end TextTemplate.Token

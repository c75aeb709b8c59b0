import TextTemplate.Proofs.Arguments.Order
import TextTemplate.Proofs.Scanning.Places

/-! Which texts a group in parentheses can hold: those in which parentheses and quotes are paired. -/

namespace TextTemplate.Token
variable {s r v w inner : List Char} {c q : Char} {b : Bool} {n : Nat} {t : Token} {ts : List Token}

/-- What follows an opening quote, up to and with the closing one. -/
inductive Quoted (q : Char) : List Char → Prop
  | close : Quoted q [q]
  | char {c : Char} {v : List Char} (hc : c ≠ q ∧ c ≠ '\\') (hv : Quoted q v) : Quoted q (c :: v)
  | escaped {c : Char} {v : List Char} (hv : Quoted q v) : Quoted q ('\\' :: c :: v)

/-- Every parenthesis and every quote has its other half, and the pairs do not cross. Inside quotes
nothing else counts. -/
inductive Paired : List Char → Prop
  | nil : Paired []
  | char {c : Char} {w : List Char} (hc : c ≠ '(' ∧ c ≠ ')' ∧ c ≠ '"' ∧ c ≠ '\'') (hw : Paired w) :
      Paired (c :: w)
  | quoted {q : Char} {v w : List Char} (hq : isQuote q) (hv : Quoted q v) (hw : Paired w) :
      Paired (q :: (v ++ w))
  | group {v w : List Char} (hv : Paired v) (hw : Paired w) : Paired ('(' :: (v ++ ')' :: w))

/-- A text in groups, with other texts before and behind each group. The first pair is outermost. -/
def nested : List (List Char × List Char) → List Char → List Char
  | [], s => s
  | (u, w) :: around, s => u ++ '(' :: (nested around s ++ ')' :: w)

/-! Quotes -/

theorem ne_of_isQuote (hq : isQuote q) : q ≠ '(' ∧ q ≠ ')' ∧ '\\' ≠ q := by
  refine ⟨?_, ?_, ?_⟩ <;>
  · rintro rfl
    cases hq

theorem Quoted.upToQuote? (hq : isQuote q) (h : Quoted q v) (s : List Char) :
    upToQuote? q false (v ++ s) = some (v, s) := by
  obtain ⟨-, -, hslash⟩ := ne_of_isQuote hq
  induction h with
  | close => simp [Token.upToQuote?]
  | char hc _ ih => simp [Token.upToQuote?, hc, ih]
  | escaped _ ih => simp [Token.upToQuote?, hslash, ih]

/-- What is read before the end of a string escapes its first character or not. -/
theorem quoted_of_upToQuote? (h : upToQuote? q b s = some (v, r)) :
    Quoted q (if b then '\\' :: v else v) := by
  induction s generalizing b v with
  | nil => cases h
  | cons c s ih =>
    rw [Token.upToQuote?] at h
    split at h
    · rename_i hc
      cases h
      obtain rfl : b = false := Bool.eq_false_iff.2 hc.2
      exact hc.1 ▸ .close
    · rename_i hc
      obtain ⟨⟨w, r'⟩, hw, he⟩ := Option.map_eq_some_iff.1 h
      cases he
      have hrest := ih hw
      cases b with
      | true =>
        simp only [Bool.not_true, Bool.and_false, Bool.false_eq_true, if_false] at hrest
        exact .escaped hrest
      | false =>
        by_cases hs : c = '\\'
        · subst hs
          exact hrest
        · simp only [hs, decide_false, Bool.false_and, Bool.false_eq_true, if_false] at hrest
          exact .char ⟨fun he => hc ⟨he, Bool.false_ne_true⟩, hs⟩ hrest

/-- Inside quotes the search for a parenthesis reads on as a string is read. -/
theorem upToParen?_inside (n : Nat) (q : Char) (b : Bool) (s : List Char) :
    upToParen? n (.inside q b) s = (upToQuote? q b s).bind fun (v, r) =>
      (upToParen? n .outside r).map fun (w, r) => (v ++ w, r) := by
  induction s generalizing b with
  | nil => rfl
  | cons c s ih =>
    rw [upToParen?, upToQuote?]
    split
    · rfl
    · rw [ih]
      cases upToQuote? q (c = '\\' && !b) s <;> simp [Function.comp_def]

/-! Parentheses -/

theorem balanced_quoted_append (hq : isQuote q) (hv : Quoted q v) (hw : Balanced w) :
    Balanced (q :: (v ++ w)) := by
  intro n hn s
  obtain ⟨hopen, hclose, -⟩ := ne_of_isQuote hq
  have hinside : upToParen? n (.inside q false) (v ++ (w ++ s)) =
      (upToParen? n .outside s).map fun (x, r) => (v ++ (w ++ x), r) := by
    simp only [upToParen?_inside, hv.upToQuote? hq, Option.bind_some, hw n hn s, Option.map_map,
      Function.comp_def]
  rw [List.cons_append, List.append_assoc, upToParen?]
  simp [hclose, hopen, hq, hinside, Function.comp_def]

theorem Paired.balanced (h : Paired w) : Balanced w := by
  induction h with
  | nil => exact fun _ _ => .nil
  | char hc _ ih => exact (balanced_singleton hc).append ih
  | quoted hq hv _ ih => exact balanced_quoted_append hq hv ih
  | @group v w _ _ ihv ihw =>
    have h := ihv.group.append ihw
    rwa [List.cons_append, List.append_assoc, List.singleton_append] at h

theorem Paired.append (hv : Paired v) (hw : Paired w) : Paired (v ++ w) := by
  induction hv with
  | nil => exact hw
  | char hc _ ih => exact .char hc ih
  | quoted hq hv _ ih =>
    rw [List.cons_append, List.append_assoc]
    exact .quoted hq hv ih
  | group hv _ _ ih =>
    rw [List.cons_append, List.append_assoc]
    exact .group hv ih

theorem paired_of_forall (h : ∀ c ∈ w, c ≠ '(' ∧ c ≠ ')' ∧ c ≠ '"' ∧ c ≠ '\'') : Paired w := by
  induction w with
  | nil => exact .nil
  | cons c w ih => exact .char (h c (.head _)) (ih fun d hd => h d (.tail _ hd))

/-- A paired text before each of `n` closing parentheses. -/
def ClosesGroups (n : Nat) (v : List Char) : Prop :=
  ∃ ws : List (List Char), ws.length = n ∧ (∀ w ∈ ws, Paired w) ∧ v = ws.flatMap (· ++ [')'])

namespace ClosesGroups

/-- A paired text before what closes the groups belongs to the innermost one. -/
theorem prepend (hn : 0 < n) (hw : Paired w) (h : ClosesGroups n v) : ClosesGroups n (w ++ v) := by
  obtain ⟨ws, hlen, hws, rfl⟩ := h
  cases ws with
  | nil => exact absurd hlen (Nat.ne_of_lt hn)
  | cons x ws =>
    obtain ⟨hx, hrest⟩ := List.forall_mem_cons.1 hws
    refine ⟨(w ++ x) :: ws, hlen, List.forall_mem_cons.2 ⟨hw.append hx, hrest⟩, ?_⟩
    simp

theorem closing (h : ClosesGroups n v) : ClosesGroups (n + 1) (')' :: v) := by
  obtain ⟨ws, rfl, hws, rfl⟩ := h
  exact ⟨[] :: ws, rfl, List.forall_mem_cons.2 ⟨.nil, hws⟩, rfl⟩

theorem opening (hn : 0 < n) (h : ClosesGroups (n + 1) v) : ClosesGroups n ('(' :: v) := by
  obtain ⟨ws, hlen, hws, rfl⟩ := h
  cases ws with
  | nil => cases hlen
  | cons x ws =>
    obtain ⟨hx, hrest⟩ := List.forall_mem_cons.1 hws
    have htail : ClosesGroups n (ws.flatMap (· ++ [')'])) := ⟨ws, Nat.succ.inj hlen, hrest, rfl⟩
    have h := htail.prepend hn (.group hx .nil)
    simpa using h

end ClosesGroups

theorem paired_string (hq : isQuote q) (h : upToQuote? q false s = some (v, r)) :
    Paired (q :: v) := by
  have hp := Paired.quoted hq (quoted_of_upToQuote? h) .nil
  rwa [if_neg Bool.false_ne_true, List.append_nil] at hp

theorem char_cases (c : Char) :
    c = '(' ∨ c = ')' ∨ isQuote c ∨ (c ≠ '(' ∧ c ≠ ')' ∧ c ≠ '"' ∧ c ≠ '\'') := by
  by_cases hopen : c = '('
  · exact .inl hopen
  by_cases hclose : c = ')'
  · exact .inr (.inl hclose)
  by_cases hq : isQuote c
  · exact .inr (.inr (.inl hq))
  · refine .inr (.inr (.inr ⟨hopen, hclose, ?_⟩))
    simpa [isQuote] using hq

theorem closesGroups_of_upToParen? (hn : 0 < n) (h : upToParen? n .outside s = some (v, r)) :
    ClosesGroups n v := by
  -- not on the text alone: behind a string the search goes on with a text that is shorter by more
  induction hl : s.length using Nat.strongRecOn generalizing s n v with
  | _ l ih =>
    subst hl
    cases s with
    | nil => simp [upToParen?] at h
    | cons c s =>
      have hs : s.length < (c :: s).length := Nat.lt_succ_self _
      rw [upToParen?] at h
      split at h
      · rename_i hc
        obtain ⟨rfl, hle⟩ := hc
        cases h
        obtain rfl : n = 1 := by omega
        exact ⟨[[]], rfl, by simp [Paired.nil], rfl⟩
      · rename_i hc
        obtain ⟨⟨u, r'⟩, hu, he⟩ := Option.map_eq_some_iff.1 h
        cases he
        rcases char_cases c with rfl | rfl | hq | hplain
        · exact .opening hn (ih _ hs (Nat.succ_pos n) hu rfl)
        · obtain ⟨k, rfl⟩ : ∃ k, n = k + 1 := ⟨n - 1, by omega⟩
          have hk : 0 < k := by
            simp only [true_and] at hc
            omega
          exact .closing (ih _ hs hk hu rfl)
        · obtain ⟨hopen, hclose, -⟩ := ne_of_isQuote hq
          rw [if_neg hopen, if_neg hclose, if_pos hq, upToParen?_inside,
            Option.bind_eq_some_iff] at hu
          obtain ⟨⟨x, s'⟩, hx, hu⟩ := hu
          obtain ⟨⟨u', r''⟩, hu', he⟩ := Option.map_eq_some_iff.1 hu
          cases he
          have hlt : s'.length < (c :: s).length := by
            rw [upToQuote?_eq_some hx, List.length_cons, List.length_append]
            omega
          exact (ih _ hlt hn hu' rfl).prepend hn (paired_string hq hx)
        · have hquote : ¬ isQuote c := by simp [isQuote, hplain]
          rw [if_neg hplain.1, if_neg hplain.2.1, if_neg hquote] at hu
          exact (ih _ hs hn hu rfl).prepend hn (.char hplain .nil)

/-- What a search for one closing parenthesis reads before it is paired. -/
theorem exists_paired_of_upToParen? (h : upToParen? 1 .outside s = some (v, r)) :
    ∃ w, Paired w ∧ v = w ++ [')'] := by
  obtain ⟨ws, hlen, hws, rfl⟩ := closesGroups_of_upToParen? Nat.one_pos h
  obtain ⟨w, rfl⟩ := List.length_eq_one_iff.1 hlen
  exact ⟨w, hws w (.head _), List.flatMap_singleton _ _⟩

/-- A search for the closing parenthesis stops at the one that is put behind a text exactly where
the text is paired. -/
theorem upToParen?_concat_iff :
    upToParen? 1 .outside (inner ++ [')']) = some (inner ++ [')'], []) ↔ Paired inner := by
  constructor
  · intro h
    obtain ⟨w, hw, he⟩ := exists_paired_of_upToParen? h
    rw [List.append_cancel_right he]
    exact hw
  · exact fun h => h.balanced.upToParen?

/-! Pieces -/

theorem paired_of_blank (h : Text.Blank w) : Paired w := by
  apply paired_of_forall
  intro c hc
  have hb := h c hc
  refine ⟨?_, ?_, ?_, ?_⟩ <;>
  · rintro rfl
    exact absurd hb (by decide)

theorem paired_of_trimStart (h : Paired (Text.trimStart s)) : Paired s := by
  obtain ⟨g, hg, hs⟩ := Text.exists_eq_trimStart s
  rw [hs]
  exact (paired_of_blank hg).append h

theorem paired_of_trim (h : Paired (Text.trim s)) : Paired s := by
  obtain ⟨g, hg, hs⟩ := Text.exists_eq_trimEnd (Text.trimStart s)
  apply paired_of_trimStart
  rw [hs]
  exact h.append (paired_of_blank hg)

theorem paired_keyText (s : List Char) : Paired (keyText (splitKey s).1) := by
  apply paired_of_forall
  intro c hc
  rcases of_mem_keyText hc with hkey | rfl
  · obtain ⟨-, hopen, hclose, hdouble, hsingle, -⟩ := plain_of_isKeyChar hkey
    exact ⟨hopen, hclose, hdouble, hsingle⟩
  · decide

/-- The text of a piece is paired, if what it says is, for words and block parameters. -/
theorem Begins.exists_paired {kind : Kind} (h : Begins r s kind v)
    (hv : kind = .word ∨ kind = .blockParams → Paired v) : ∃ w, Paired w ∧ s = w ++ r := by
  cases h with
  | group hu =>
    obtain ⟨w, hw, rfl⟩ := exists_paired_of_upToParen? hu
    refine ⟨'(' :: (w ++ [')']), .group hw .nil, ?_⟩
    rw [upToParen?_eq_some hu, List.cons_append]
  | @string q cs u hq hu =>
    exact ⟨q :: u, paired_string hq hu, by rw [upToQuote?_eq_some hu, List.cons_append]⟩
  | @blockParams names =>
    have hbar : Paired ['|'] := .char (by decide) .nil
    have hnames : Paired names := paired_of_trim (hv (.inr rfl))
    exact ⟨['|'] ++ (names ++ ['|']), hbar.append (hnames.append hbar), by simp⟩
  | @word c cs v hw =>
    exact ⟨c :: v, hv (.inl rfl), by rw [wordEnd?_eq_some hw, List.cons_append]⟩

theorem eq_nil_of_next? (h : next? s = .ok none) : s = [] := by
  rw [next?] at h
  split at h
  · assumption
  · split at h <;> cases h

theorem exists_next?_paired (h : next? s = .ok (some t))
    (ht : t.kind = .word ∨ t.kind = .blockParams → Paired t.value) :
    ∃ w r, Paired w ∧ s = w ++ r ∧ t.tail = Text.trimStart r := by
  rw [next?] at h
  split at h
  · cases h
  · split at h
    · rename_i kind v r hr
      cases h
      obtain ⟨w, hw, hs⟩ := (begins_of_readBody hr).exists_paired ht
      refine ⟨keyText (splitKey s).1 ++ w, r, (paired_keyText s).append hw, ?_, rfl⟩
      rw [List.append_assoc, ← hs, ← eq_keyText_append]
    · cases h

theorem paired_of_allFrom (h : allFrom s = .ok ts)
    (hts : ∀ t ∈ ts, t.kind = .word ∨ t.kind = .blockParams → Paired t.value) : Paired s := by
  fun_induction allFrom s generalizing ts with
  | case1 => cases h
  | case2 s hs =>
    rw [eq_nil_of_next? hs]
    exact .nil
  | case3 s t ht ih =>
    cases hall : allFrom t.tail with
    | error e => simp [hall, Except.map] at h
    | ok us =>
      simp only [hall, Except.map, Except.ok.injEq] at h
      subst h
      obtain ⟨hfirst, hrest⟩ := List.forall_mem_cons.1 hts
      obtain ⟨w, r, hw, hs, htail⟩ := exists_next?_paired ht hfirst
      have hr := ih hall hrest
      rw [htail] at hr
      rw [hs]
      exact hw.append (paired_of_trimStart hr)

/-! Groups -/

/-- A group holds all of a paired text, whatever follows. -/
theorem Paired.next? (h : Paired inner) (s : List Char) :
    next? ('(' :: (inner ++ ')' :: s)) =
      .ok (some ⟨.group inner, '(' :: (inner ++ [')']), none, Text.trimStart s⟩) := by
  have hb : readBody none ('(' :: (inner ++ ')' :: s)) =
      .ok (.group inner, '(' :: (inner ++ [')']), s) := by
    simp only [readBody_group, h.balanced.upToParen?, List.dropLast_concat]
  rw [Token.next?, if_neg (List.cons_ne_nil _ _), splitKey_group]
  simp only [hb]

theorem Paired.nested (h : Paired inner) {around : List (List Char × List Char)}
    (ha : ∀ uw ∈ around, Paired uw.1 ∧ Paired uw.2) : Paired (nested around inner) := by
  induction around with
  | nil => exact h
  | cons uw around ih =>
    obtain ⟨⟨hu, hw⟩, hrest⟩ := List.forall_mem_cons.1 ha
    exact hu.append (.group (ih hrest) hw)

theorem trim_group (s : List Char) : Text.trim ('(' :: (s ++ [')'])) = '(' :: (s ++ [')']) :=
  (Text.Solid.enclosed (by decide) (by decide)).trim_eq

theorem first?_group_iff :
    first? ('(' :: (inner ++ [')'])) =
      .ok (some ⟨.group inner, '(' :: (inner ++ [')']), none, []⟩) ↔ Paired inner := by
  rw [first?, trim_group]
  constructor
  · intro h
    rw [Token.next?, if_neg (List.cons_ne_nil _ _), splitKey_group] at h
    split at h
    · rename_i kind v r hr
      simp only [Except.ok.injEq, Option.some.injEq, Token.mk.injEq] at h
      obtain ⟨rfl, rfl, -, -⟩ := h
      rw [readBody_group] at hr
      split at hr
      · rename_i v' r' hv'
        simp only [Except.ok.injEq, Prod.mk.injEq, List.cons.injEq, true_and] at hr
        obtain ⟨-, rfl, rfl⟩ := hr
        have hr' := List.append_right_eq_self.1 (upToParen?_eq_some hv').symm
        rw [hr'] at hv'
        exact upToParen?_concat_iff.1 hv'
      · cases hr
    · cases h
  · intro h
    exact h.next? []

end TextTemplate.Token

namespace TextTemplate.Invocation
variable {i j : Invocation} {inner s : List Char}

/-- Where the arguments come to a group that holds a paired text, they go on behind it with the call
that the text is. -/
theorem gatherFrom_group_iff (h : Token.Paired inner) (ha : i.aliases = []) (hh : i.hash = []) :
    gatherFrom i ('(' :: (inner ++ ')' :: s)) = .ok j ↔
      ∃ call, parseCall inner = .ok call ∧
        gatherFrom { i with params := i.params ++ [.call call] } (Text.trimStart s) = .ok j := by
  rw [gatherFrom, Token.allFrom_of_next? (h.next? s)]
  cases hall : Token.allFrom (Text.trimStart s) with
  | error e => simp [gatherFrom, hall, Except.map, Except.bind]
  | ok ts =>
    simp only [gatherFrom, hall, Except.map, Except.bind, gather]
    rw [if_neg (not_not_intro ha), if_neg Bool.false_ne_true]
    simp only [announcesAliases, Token.reference, add, hh]
    cases parseCall inner <;> simp [Except.map, bind, Except.bind]

/-- A helper call in a tag is the same call in a group. -/
theorem parseCall_of_parse (h : parse s = .ok i) (hi : i.helper ≠ none) : parseCall s = .ok i := by
  obtain ⟨j, ha, rfl | hp⟩ := parseArguments_of_parse h
  · exact absurd (helper_of_parseArguments ha) hi
  · exact parseCall_eq_ok_iff.2 ⟨j, ha, hp⟩

end TextTemplate.Invocation

namespace TextTemplate.Token

/-- A group holds exactly the texts in which parentheses and quotes are paired. Of a text that is read
as pieces only words and block parameters can hold a single one. Inside other groups, and behind
other arguments, a paired text is read as it is by itself, and a helper call is the same call. -/
theorem group_holds_paired (inner : List Char) :
    (first? ('(' :: (inner ++ [')'])) =
      .ok (some ⟨.group inner, '(' :: (inner ++ [')']), none, []⟩) ↔ Paired inner) ∧
    (∀ ts, all inner = .ok ts →
      (∀ t ∈ ts, t.kind = .word ∨ t.kind = .blockParams → Paired t.value) → Paired inner) ∧
    (Paired inner →
      (∀ around : List (List Char × List Char), (∀ uw ∈ around, Paired uw.1 ∧ Paired uw.2) →
        let text := nested around inner
        first? ('(' :: (text ++ [')'])) =
          .ok (some ⟨.group text, '(' :: (text ++ [')']), none, []⟩)) ∧
      ∀ (i j : Invocation) (s : List Char), i.aliases = [] → i.hash = [] →
        (i.gatherFrom ('(' :: (inner ++ ')' :: s)) = .ok j ↔
          ∃ call, Invocation.parseCall inner = .ok call ∧
            Invocation.gatherFrom { i with params := i.params ++ [.call call] }
              (Text.trimStart s) = .ok j)) ∧
    ∀ i, Invocation.parse inner = .ok i → i.helper ≠ none → Invocation.parseCall inner = .ok i := by
  refine ⟨first?_group_iff, ?_, fun h => ⟨?_, ?_⟩, fun i => Invocation.parseCall_of_parse⟩
  · intro ts hall hts
    exact paired_of_trim (paired_of_allFrom hall hts)
  · intro around ha
    exact first?_group_iff.2 (h.nested ha)
  · intro i j s ha hh
    exact Invocation.gatherFrom_group_iff h ha hh

/-- Square brackets and words do not hide a parenthesis or a quote from the search for the end of a
group. -/
theorem group_cut_short :
    (all "[a)b] c".toList).toBool = true ∧
      first? "([a)b] c)".toList ≠
        .ok (some ⟨.group "[a)b] c".toList, "([a)b] c)".toList, none, []⟩) ∧
      (all "it's".toList).toBool = true ∧ (first? "(it's)".toList).toBool = false := by
  decide +kernel

end TextTemplate.Token

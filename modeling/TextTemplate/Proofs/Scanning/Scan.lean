import Mathlib.Data.List.Forall2
import TextTemplate.Proofs.Scanning.Markup
import TextTemplate.Tag.Scan

/-! Scanning finds the first tag, and loses nothing but the white space that tags trim. -/

namespace TextTemplate

namespace Markup
variable {d : Delimiters} {q : Bool} {s u w r : List Char} {m : Markup}

theorem isSome_quotedRead?_of_read? (h : (read? d s).isSome) : (quotedRead? d s).isSome := by
  simp only [quotedRead?, List.findSome?_isSome_iff, Option.isSome_map]
  exact ⟨false, by simp, h⟩

theorem read?_of_quotedRead? (h : quotedRead? d s = some (q, m, r)) :
    ∃ u, s = backslash q ++ (d.opening.toList ++ u) ∧
      read? d (d.opening.toList ++ u) = some (m, r) := by
  obtain ⟨q', _, h⟩ := List.exists_of_findSome?_eq_some h
  obtain ⟨_, h, he⟩ := Option.map_eq_some_iff.1 h
  cases he
  obtain ⟨t, ht, h⟩ := Option.bind_eq_some_iff.1 h
  have hr := read?_eq_some h
  simp only [text, List.append_assoc] at hr
  rw [hr] at h
  exact ⟨_, by rw [Text.after?_eq_some_iff.1 ht, hr], h⟩

/-- An opening delimiter before a tag that is closed opens a tag that is closed. -/
theorem isSome_read?_drop {i k : Nat} (hk : s.drop k = d.opening.toList ++ u)
    (hc : d.closing.toList <:+: u) (hi : OccursAt d.opening.toList s i) (hik : i ≤ k) :
    (read? d (s.drop i)).isSome := by
  obtain ⟨v, hv⟩ := OccursAt.iff_exists.1 hi
  obtain ⟨j, rfl⟩ := Nat.exists_eq_add_of_le hik
  have hv' : (s.drop i).drop d.opening.toList.length = v := by rw [hv, List.drop_left]
  have hu' : (s.drop (i + j)).drop d.opening.toList.length = u := by rw [hk, List.drop_left]
  have huv : v.drop j = u := by
    rw [← hv', ← hu']
    simp only [List.drop_drop]
    congr 1
    omega
  rw [hv, isSome_read?_iff]
  rw [← huv] at hc
  exact hc.trans (List.drop_suffix j v).isInfix

/-- A tag is found at the first opening delimiter. -/
theorem find?_reads (hd : d.Unmarked) (h : find? d s = some (w, q, m, r)) :
    ∃ u, s = w ++ backslash q ++ (d.opening.toList ++ u) ∧
      d.opening.toList ++ u = m.text d ++ r ∧ Reads d u m ∧
      IsLeast {i | OccursAt d.opening.toList s i} (w ++ backslash q).length := by
  obtain ⟨hq, -, hleast⟩ := Text.upTo_isLeast h
  obtain ⟨t, rfl, ht⟩ := Text.upTo_eq_some h
  obtain ⟨u, rfl, hu⟩ := read?_of_quotedRead? ht
  have hc : d.closing.toList <:+: u := (isSome_read?_iff u).1 (Option.isSome_of_eq_some hu)
  refine ⟨u, (List.append_assoc w _ _).symm, read?_eq_some hu, read?_reads hd hu, ?_, ?_⟩
  · rw [← List.append_assoc]
    exact OccursAt.append _ d.opening.toList u
  · intro i hi
    apply Nat.le_of_not_lt
    intro hlt
    have hk : (w ++ (backslash q ++ (d.opening.toList ++ u))).drop (w ++ backslash q).length =
        d.opening.toList ++ u := by
      rw [← List.append_assoc, List.drop_left]
    have hr := isSome_read?_drop hk hc hi (Nat.le_of_lt hlt)
    have hw := hleast (isSome_quotedRead?_of_read? hr)
    cases q with
    | false => simp only [backslash, Bool.false_eq_true, if_false, List.append_nil] at hlt; omega
    | true =>
      simp only [backslash, if_true, List.length_append, List.length_singleton] at hlt
      obtain rfl : i = w.length := by omega
      -- here the backslash stands, and no delimiter starts with one
      have hp : d.opening.toList <+: '\\' :: (d.opening.toList ++ u) := by
        have ho := (OccursAt.append_left_iff (i := 0)).1 hi
        exact ho
      rcases List.prefix_cons_iff.1 hp with hn | ⟨t, ht, -⟩
      · exact d.opening_toList_ne hn
      · apply hd.backslash_notMem_opening
        rw [ht]
        exact List.mem_cons_self

/-- A tilde directly behind the opening delimiter trims. -/
theorem Reads.trimsBefore_iff (h : Reads d u m) (hs : d.opening.toList ++ u = m.text d ++ r) :
    m.trimsBefore = true ↔ d.opening.toList ++ ['~'] <+: m.text d := by
  constructor
  · intro hb
    simp only [text, hb, tilde, if_true, List.append_assoc]
    exact (List.prefix_append_right_inj _).2 (List.prefix_append _ _)
  · intro hp
    have hp' : d.opening.toList ++ ['~'] <+: d.opening.toList ++ u := by
      rw [hs]
      exact hp.trans (List.prefix_append _ _)
    obtain ⟨v, rfl⟩ := (List.prefix_append_right_inj _).1 hp'
    exact h.trimsBefore

/-- A plain tag ends as early as it can, and so before a tilde that closes it. -/
theorem Reads.inside_ne_concat_tilde (h : Reads d u m)
    (hs : d.opening.toList ++ u = m.text d ++ r) (he : m.enclosure = .plain)
    (ha : m.trimsAfter = false) (inside : List Char) : m.inside ≠ inside ++ ['~'] := by
  intro hi
  have hv := h.afterTilde_eq hs
  obtain ⟨-, hleast⟩ := h.least
  simp only [he, ha, tilde, Enclosure.opening, Enclosure.closing, Bool.false_eq_true, if_false,
    List.append_nil, List.nil_append, List.length_nil, Nat.zero_add] at hv hleast
  have ho := OccursAt.append inside ('~' :: d.closing.toList) r
  have hc : Closes d .plain (afterTilde u) inside.length := by
    refine closes_plain_iff.2 ⟨true, ?_⟩
    rw [hv, hi, List.append_assoc]
    exact ho
  have hlen := hleast hc
  rw [hi, List.length_append, List.length_singleton] at hlen
  omega

/-- A tilde directly before the closing delimiter trims, except where it is the only inside. -/
theorem Reads.trimsAfter_iff (h : Reads d u m) (hs : d.opening.toList ++ u = m.text d ++ r)
    (hne : m.enclosure = .plain → m.inside ≠ []) :
    m.trimsAfter = true ↔ ['~'] ++ d.closing.toList <:+ m.text d := by
  constructor
  · intro ha
    simp only [text, ha, tilde, if_true]
    exact List.suffix_append_self_iff.2 (List.suffix_append _ _)
  · intro hp
    cases ha : m.trimsAfter with
    | true => rfl
    | false =>
      simp only [text, ha, tilde, Bool.false_eq_true, if_false, List.append_nil,
        List.suffix_append_self_iff] at hp
      obtain ⟨t, ht⟩ := hp
      have hl := congrArg List.getLast? ht
      rw [List.getLast?_concat] at hl
      cases he : m.enclosure with
      | braces => simp [he, Enclosure.closing] at hl
      | dashes => simp [he, Enclosure.closing] at hl
      | plain =>
        obtain ⟨inside, c, hi⟩ := (List.eq_nil_or_concat m.inside).resolve_left (hne he)
        rw [List.concat_eq_append] at hi
        rw [he, Enclosure.closing, List.append_nil, hi, ← List.append_assoc,
          List.getLast?_concat] at hl
        cases hl
        exact absurd hi (h.inside_ne_concat_tilde hs he ha inside)

end Markup

namespace Tag
variable {d : Delimiters} {k k' : Kind} {s w r content : List Char} {m : Markup} {t : Tag}

theorem named_eq_ok (h : named k s = .ok (k', content)) : k' = k ∧ content = s ∧ s ≠ [] := by
  rw [named] at h
  split at h
  · cases h
  · cases h
    exact ⟨rfl, rfl, by assumption⟩

theorem named_kind_ne_quoted (h : named k' s = .ok (k, content)) (hk : k' ≠ .quoted) :
    k ≠ .quoted := by
  obtain ⟨rfl, -, -⟩ := named_eq_ok h
  exact hk

theorem ofInside_kind_ne_quoted (h : ofInside s = .ok (k, content)) : k ≠ .quoted := by
  rw [ofInside.eq_def] at h
  split at h
  · cases h
  · cases h
    decide
  · exact named_kind_ne_quoted h (by decide)
  · exact named_kind_ne_quoted h (by decide)
  · exact named_kind_ne_quoted h (by decide)
  · cases h
    split <;> decide
  · split at h <;> exact named_kind_ne_quoted h (by decide)
  · cases h
  · split at h <;> cases h <;> decide

/-- Only a backslash quotes a tag. -/
theorem kind_ne_quoted (h : ofMarkup d m = .ok (k, content)) : k ≠ .quoted := by
  rw [ofMarkup] at h
  cases he : m.enclosure with
  | dashes =>
    simp only [he] at h
    cases h
    decide
  | braces =>
    simp only [he] at h
    exact named_kind_ne_quoted h (by decide)
  | plain =>
    simp only [he] at h
    split at h
    · cases h
    · exact ofInside_kind_ne_quoted h

theorem inside_ne_nil (h : ofMarkup d m = .ok (k, content)) (hp : m.enclosure = .plain) :
    m.inside ≠ [] := by
  intro hn
  simp only [ofMarkup, hp, hn] at h
  split at h
  · cases h
  · cases h

/-- What stands before a tag that is to be shown as it is. -/
def quote (t : Tag) : List Char := Markup.backslash (decide (t.kind = .quoted))

/-- A tag that is not quoted and has a tilde directly behind its opening delimiter. -/
def TrimsBefore (d : Delimiters) (t : Tag) : Prop :=
  t.kind ≠ .quoted ∧ d.opening.toList ++ ['~'] <+: t.raw

/-- A tag that is not quoted and has a tilde directly before its closing delimiter. -/
def TrimsAfter (d : Delimiters) (t : Tag) : Prop :=
  t.kind ≠ .quoted ∧ ['~'] ++ d.closing.toList <:+ t.raw

/-- How a tag stands in its source: between the gaps that it trims, from the first opening delimiter
on. -/
structure Found (d : Delimiters) (s : List Char) (t : Tag) (gap gap' : List Char) : Prop where
  parts : s = t.before ++ gap ++ t.quote ++ t.raw ++ gap' ++ t.after
  blank : Text.Blank gap ∧ Text.Blank gap'
  before : t.TrimsBefore d → ∀ c ∈ t.before.getLast?, Text.isBlank c = false
  gap_eq_nil : ¬ t.TrimsBefore d → gap = []
  after : t.TrimsAfter d → ∀ c ∈ t.after.head?, Text.isBlank c = false
  gap'_eq_nil : ¬ t.TrimsAfter d → gap' = []
  first : IsLeast {i | OccursAt d.opening.toList s i} (t.before ++ gap ++ t.quote).length
  extent : Extent d
    (s.drop ((t.before ++ gap ++ t.quote).length + d.opening.toList.length)) t.raw

theorem first?_eq_none_iff : first? d s = .ok none ↔ ¬ d.opening.toList <:+: s := by
  rw [first?]
  cases hf : Markup.find? d s with
  | none =>
    cases ho : Text.fromFirst? d.opening.toList s with
    | none => simp [Text.fromFirst?_eq_none_iff.1 ho]
    | some r =>
      have hi : d.opening.toList <:+: s := by
        apply Classical.not_not.1
        rw [← Text.fromFirst?_eq_none_iff, ho]
        exact Option.some_ne_none r
      simp [hi]
  | some found =>
    obtain ⟨w, q, m, r⟩ := found
    have hi : d.opening.toList <:+: s := by
      rw [Markup.find?_eq_some hf, Markup.text]
      refine ⟨w ++ Markup.backslash q, ?_, ?_⟩
      · exact Markup.tilde m.trimsBefore ++ m.enclosure.opening ++ m.inside ++
          m.enclosure.closing ++ Markup.tilde m.trimsAfter ++ d.closing.toList ++ r
      · simp only [List.append_assoc]
    simp only [hi, not_true, iff_false]
    cases q with
    | true =>
      intro h
      cases h
    | false =>
      intro h
      cases ho : ofMarkup d m <;> simp [ho] at h

theorem exists_gap_before (b : Bool) (w : List Char) :
    ∃ gap, Text.Blank gap ∧ w = (if b then Text.trimEnd w else w) ++ gap ∧
      (b = true → ∀ c ∈ (if b then Text.trimEnd w else w).getLast?, Text.isBlank c = false) ∧
      (b = false → gap = []) := by
  cases b with
  | false => exact ⟨[], Text.blank_nil, (List.append_nil w).symm, nofun, fun _ => rfl⟩
  | true =>
    obtain ⟨gap, hb, he⟩ := Text.exists_eq_trimEnd w
    exact ⟨gap, hb, he, fun _ => Text.getLast?_trimEnd w, nofun⟩

theorem exists_gap_after (b : Bool) (r : List Char) :
    ∃ gap, Text.Blank gap ∧ r = gap ++ (if b then Text.trimStart r else r) ∧
      (b = true → ∀ c ∈ (if b then Text.trimStart r else r).head?, Text.isBlank c = false) ∧
      (b = false → gap = []) := by
  cases b with
  | false => exact ⟨[], Text.blank_nil, rfl, nofun, fun _ => rfl⟩
  | true =>
    obtain ⟨gap, hb, he⟩ := Text.exists_eq_trimStart r
    exact ⟨gap, hb, he, fun _ => Text.head?_trimStart r, nofun⟩

/-- What is known of the tag's markup, said of the tag. -/
theorem Found.of_extent {u gap gap' : List Char}
    (hs : s = w ++ t.quote ++ (d.opening.toList ++ u)) (hu : d.opening.toList ++ u = t.raw ++ r)
    (hext : Extent d u t.raw)
    (hl : IsLeast {i | OccursAt d.opening.toList s i} (w ++ t.quote).length)
    (hblank : Text.Blank gap ∧ Text.Blank gap') (hw : w = t.before ++ gap)
    (hr : r = gap' ++ t.after)
    (hb : t.TrimsBefore d → ∀ c ∈ t.before.getLast?, Text.isBlank c = false)
    (hgap : ¬ t.TrimsBefore d → gap = [])
    (ha : t.TrimsAfter d → ∀ c ∈ t.after.head?, Text.isBlank c = false)
    (hgap' : ¬ t.TrimsAfter d → gap' = []) : Found d s t gap gap' := by
  subst hw hr
  refine ⟨?_, hblank, hb, hgap, ha, hgap', hl, ?_⟩
  · rw [hs, hu]
    simp only [List.append_assoc]
  · rw [hs, ← List.drop_drop, List.drop_left, List.drop_left]
    exact hext

theorem Found.of_quoted (hd : d.Unmarked) (hf : Markup.find? d s = some (w, true, m, r)) :
    Found d s ⟨.quoted, w, m.text d, r, m.text d⟩ [] [] := by
  obtain ⟨u, hs, hu, hr, hl⟩ := Markup.find?_reads hd hf
  refine .of_extent hs hu (hr.extent hd hu) hl ⟨Text.blank_nil, Text.blank_nil⟩ ?_ rfl ?_ ?_ ?_ ?_
  · exact (List.append_nil w).symm
  · exact fun ht => absurd rfl ht.1
  · exact fun _ => rfl
  · exact fun ht => absurd rfl ht.1
  · exact fun _ => rfl

/-- The tildes of a tag that is not quoted decide on the gaps beside it. -/
theorem exists_found (hd : d.Unmarked) (hf : Markup.find? d s = some (w, false, m, r))
    (hm : ofMarkup d m = .ok (k, content)) (ht : t = {
      kind := k, content
      before := if m.trimsBefore then Text.trimEnd w else w
      after := if m.trimsAfter then Text.trimStart r else r
      raw := m.text d }) : ∃ gap gap', Found d s t gap gap' := by
  obtain ⟨u, hs, hu, hr, hl⟩ := Markup.find?_reads hd hf
  obtain ⟨gap, hblank, hw, hbt, hbf⟩ := exists_gap_before m.trimsBefore w
  obtain ⟨gap', hblank', hr', hat, haf⟩ := exists_gap_after m.trimsAfter r
  have hk := kind_ne_quoted hm
  have hb := hr.trimsBefore_iff hu
  have ha := hr.trimsAfter_iff hu (inside_ne_nil hm)
  have hq : t.quote = Markup.backslash false := by
    rw [ht, quote, decide_eq_false hk]
  have hs : s = w ++ t.quote ++ (d.opening.toList ++ u) := by
    rw [hq]
    exact hs
  have hl : IsLeast {i | OccursAt d.opening.toList s i} (w ++ t.quote).length := by
    rw [hq]
    exact hl
  subst ht
  refine ⟨gap, gap', .of_extent hs hu (hr.extent hd hu) hl ⟨hblank, hblank'⟩ hw hr' ?_ ?_ ?_ ?_⟩
  · exact fun ht => hbt (hb.2 ht.2)
  · exact fun ht => hbf (Bool.eq_false_iff.2 fun h => ht ⟨hk, hb.1 h⟩)
  · exact fun ht => hat (ha.2 ht.2)
  · exact fun ht => haf (Bool.eq_false_iff.2 fun h => ht ⟨hk, ha.1 h⟩)

theorem first?_found (hd : d.Unmarked) (h : first? d s = .ok (some t)) :
    ∃ gap gap', Found d s t gap gap' := by
  rw [first?] at h
  cases hf : Markup.find? d s with
  | none =>
    rw [hf] at h
    cases ho : Text.fromFirst? d.opening.toList s <;> simp [ho] at h
  | some found =>
    obtain ⟨w, q, m, r⟩ := found
    rw [hf] at h
    cases q with
    | true =>
      cases h
      exact ⟨[], [], .of_quoted hd hf⟩
    | false =>
      cases hm : ofMarkup d m with
      | error e => simp [hm] at h
      | ok x =>
        simp only [hm, Except.ok.injEq, Option.some.injEq] at h
        exact exists_found hd hf hm h.symm

theorem scan_of_error {e : ParseError} (h : first? d s = .error e) : scan d s = ⟨[], .error e⟩ := by
  rw [scan]
  split <;> simp_all

theorem scan_of_none (h : first? d s = .ok none) : scan d s = ⟨[], .ok s⟩ := by
  rw [scan]
  split <;> simp_all

theorem scan_of_some (h : first? d s = .ok (some t)) :
    scan d s = ⟨t :: (scan d t.after).tags, (scan d t.after).rest⟩ := by
  rw [scan]
  split <;> simp_all

/-- The tags of a source in turn: each is found in what the one before it left, which is shorter
every time. -/
inductive Partition (d : Delimiters) : List Char → List Tag → List Char → Prop
  | done (s : List Char) : Partition d s [] s
  | tag {s rest gap gap' : List Char} {t : Tag} {ts : List Tag} (found : Found d s t gap gap')
      (shorter : t.after.length < s.length) (next : Partition d t.after ts rest) :
      Partition d s (t :: ts) rest

/-- What a tag takes up in its source. -/
def piece (t : Tag) (gaps : List Char × List Char) : List Char :=
  t.before ++ gaps.1 ++ t.quote ++ t.raw ++ gaps.2

/-- The gaps are white space, and where there is one the tag has a tilde on that side. -/
def GapsOf (d : Delimiters) (t : Tag) (gaps : List Char × List Char) : Prop :=
  Text.Blank gaps.1 ∧ Text.Blank gaps.2 ∧
    (gaps.1 ≠ [] → t.TrimsBefore d) ∧ (gaps.2 ≠ [] → t.TrimsAfter d)

theorem Found.gapsOf {gap gap' : List Char} (h : Found d s t gap gap') :
    GapsOf d t (gap, gap') := by
  refine ⟨h.blank.1, h.blank.2, ?_, ?_⟩
  · intro hne
    apply Classical.not_not.1
    intro ht
    exact hne (h.gap_eq_nil ht)
  · intro hne
    apply Classical.not_not.1
    intro ht
    exact hne (h.gap'_eq_nil ht)

theorem Partition.exists_gaps {rest : List Char} {ts : List Tag} (h : Partition d s ts rest) :
    ∃ gaps, List.Forall₂ (GapsOf d) ts gaps ∧ s = (List.zipWith piece ts gaps).flatten ++ rest := by
  induction h with
  | done s => exact ⟨[], .nil, rfl⟩
  | @tag s rest gap gap' t ts found _ _ ih =>
    obtain ⟨gaps, hg, he⟩ := ih
    refine ⟨(gap, gap') :: gaps, .cons found.gapsOf hg, ?_⟩
    rw [found.parts]
    simp only [List.zipWith_cons_cons, List.flatten_cons, piece, List.append_assoc]
    rw [← he]

theorem scan_partition (hd : d.Unmarked) (s : List Char) :
    ∃ rest, Partition d s (scan d s).tags rest ∧
      match (scan d s).rest with
      | .ok r => r = rest ∧ ¬ d.opening.toList <:+: r
      | .error e => first? d rest = .error e := by
  cases h : first? d s with
  | error e =>
    rw [scan_of_error h]
    exact ⟨s, .done s, h⟩
  | ok found =>
    cases found with
    | none =>
      rw [scan_of_none h]
      exact ⟨s, .done s, rfl, first?_eq_none_iff.1 h⟩
    | some t =>
      obtain ⟨gap, gap', hf⟩ := first?_found hd h
      obtain ⟨rest, hp, hr⟩ := scan_partition hd t.after
      rw [scan_of_some h]
      exact ⟨rest, .tag hf (length_after_lt h) hp, hr⟩
termination_by s.length
decreasing_by exact length_after_lt h

/-- Scanning finds every tag at the first opening delimiter of what is left, and the tags and the
gaps beside them partition the source. -/
theorem scan_lossless (d : Delimiters) (hd : d.Unmarked) (s : List Char) :
    (first? d s = .ok none ↔ ¬ d.opening.toList <:+: s) ∧
      (∀ t, first? d s = .ok (some t) → ∃ gap gap', Found d s t gap gap') ∧
      ∃ rest gaps, Partition d s (scan d s).tags rest ∧
        List.Forall₂ (GapsOf d) (scan d s).tags gaps ∧
        s = (List.zipWith piece (scan d s).tags gaps).flatten ++ rest ∧
        match (scan d s).rest with
        | .ok r => r = rest ∧ ¬ d.opening.toList <:+: r
        | .error e => first? d rest = .error e := by
  refine ⟨first?_eq_none_iff, fun t => first?_found hd, ?_⟩
  obtain ⟨rest, hp, hr⟩ := scan_partition hd s
  obtain ⟨gaps, hg, he⟩ := hp.exists_gaps
  exact ⟨rest, gaps, hp, hg, he, hr⟩

theorem scan_lossless_braces :
    Delimiters.braces.Unmarked ∧ ∃ rest gaps,
      List.Forall₂ (GapsOf .braces) (scan .braces "a \x7b\x7b~b\x7d\x7d c".toList).tags gaps ∧
      "a \x7b\x7b~b\x7d\x7d c".toList =
        (List.zipWith piece (scan .braces "a \x7b\x7b~b\x7d\x7d c".toList).tags gaps).flatten ++
          rest := by
  have hd : Delimiters.braces.Unmarked := by decide
  obtain ⟨-, -, rest, gaps, -, hg, he, -⟩ :=
    scan_lossless .braces hd "a \x7b\x7b~b\x7d\x7d c".toList
  exact ⟨hd, rest, gaps, hg, he⟩

end Tag
end TextTemplate

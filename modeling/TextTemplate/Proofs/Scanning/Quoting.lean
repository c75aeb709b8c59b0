import TextTemplate.Proofs.Scanning.Seam

/-! A backslash before each tag of a source. No tag moves, grows or shrinks; every tag is quoted. -/

namespace TextTemplate

/-- The second text is the first with some backslashes put in. -/
inductive Slashed : List Char → List Char → Prop
  | nil : Slashed [] []
  | keep (c : Char) {s s' : List Char} (h : Slashed s s') : Slashed (c :: s) (c :: s')
  | slash {s s' : List Char} (h : Slashed s s') : Slashed s ('\\' :: s')

namespace Slashed
variable {s s' w t : List Char}

theorem refl (s : List Char) : Slashed s s := by
  induction s with
  | nil => exact .nil
  | cons c s ih => exact .keep c ih

theorem append_left (w : List Char) (h : Slashed s s') : Slashed (w ++ s) (w ++ s') := by
  induction w with
  | nil => exact h
  | cons c w ih => exact .keep c ih

/-- What starts the longer text and holds no backslash starts the shorter one. -/
theorem exists_of_append (h : Slashed s (w ++ t)) (hw : '\\' ∉ w) :
    ∃ u, s = w ++ u ∧ Slashed u t := by
  generalize hs : w ++ t = s' at h
  induction h generalizing w with
  | nil =>
    obtain ⟨rfl, rfl⟩ := List.append_eq_nil_iff.1 hs
    exact ⟨[], rfl, .nil⟩
  | @keep c s s' h ih =>
    cases w with
    | nil =>
      cases hs
      exact ⟨c :: s, rfl, .keep c h⟩
    | cons d w =>
      obtain ⟨rfl, ht⟩ := List.cons.inj hs
      obtain ⟨u, rfl, hu⟩ := ih (fun hm => hw (.tail _ hm)) ht
      exact ⟨u, rfl, hu⟩
  | @slash s s' h ih =>
    cases w with
    | nil =>
      cases hs
      exact ⟨s, rfl, .slash h⟩
    | cons d w =>
      obtain ⟨rfl, -⟩ := List.cons.inj hs
      exact absurd (.head _) hw

theorem isPrefix (h : Slashed s s') (hw : '\\' ∉ w) (hp : w <+: s') : w <+: s := by
  obtain ⟨t, rfl⟩ := hp
  obtain ⟨u, rfl, -⟩ := h.exists_of_append hw
  exact List.prefix_append w u

theorem isInfix (h : Slashed s s') (hw : '\\' ∉ w) (hi : w <:+: s') : w <:+: s := by
  induction h with
  | nil => exact hi
  | keep c h ih =>
    rcases List.infix_cons_iff.1 hi with hp | hi
    · exact ((Slashed.keep c h).isPrefix hw hp).isInfix
    · exact (ih hi).trans (List.suffix_cons c _).isInfix
  | slash h ih =>
    rcases List.infix_cons_iff.1 hi with hp | hi
    · exact (h.slash.isPrefix hw hp).isInfix
    · exact ih hi

end Slashed

theorem Delimiters.Unmarked.backslash_notMem_end {d : Delimiters} (hd : d.Unmarked) (e : Enclosure)
    (b : Bool) : '\\' ∉ e.closing ++ Markup.tilde b ++ d.closing.toList := by
  have hc : '\\' ∉ d.closing.toList := fun h => (hd '\\' (List.mem_append_right _ h)).1 rfl
  have he : '\\' ∉ e.closing ++ Markup.tilde b := by cases e <;> cases b <;> decide
  exact fun h => (List.mem_append.1 h).elim he hc

theorem Enclosure.backslash_notMem_opening (e : Enclosure) : '\\' ∉ e.opening := by
  cases e <;> decide

/-- An enclosure that is closed where backslashes were put in was closed before. -/
theorem Slashed.exists_closes {d : Delimiters} {e : Enclosure} {v v' : List Char} {i : Nat}
    (hd : d.Unmarked) (h : Slashed v v') (hc : Closes d e v' i) : ∃ j, Closes d e v j := by
  obtain ⟨⟨t', rfl⟩, hle, b, hb⟩ := hc
  obtain ⟨k, rfl⟩ := Nat.exists_eq_add_of_le hle
  obtain ⟨t, rfl, ht⟩ := h.exists_of_append e.backslash_notMem_opening
  have hi := ht.isInfix (hd.backslash_notMem_end e b) (OccursAt.append_left_iff.1 hb).isInfix
  obtain ⟨j, hj⟩ := infix_iff_exists_occursAt.1 hi
  exact ⟨_, List.prefix_append _ t, Nat.le_add_right _ j, b, OccursAt.append_left_iff.2 hj⟩

namespace Markup
variable {d : Delimiters} {e : Enclosure} {b : Bool} {s w r r' : List Char} {m : Markup}

theorem afterEnd?_append (hd : d.Unmarked) (e : Enclosure) (b : Bool) (r : List Char) :
    afterEnd? d e (e.closing ++ tilde b ++ d.closing.toList ++ r) = some (b, r) := by
  have hs : e.closing ++ tilde b ++ d.closing.toList ++ r =
      e.closing ++ (tilde b ++ d.closing.toList ++ r) := by simp only [List.append_assoc]
  have he : Text.after? e.closing (e.closing ++ (tilde b ++ d.closing.toList ++ r)) =
      some (tilde b ++ d.closing.toList ++ r) := Text.after?_eq_some_iff.2 rfl
  have hb : Text.after? (tilde b ++ d.closing.toList) (tilde b ++ d.closing.toList ++ r) =
      some r := Text.after?_eq_some_iff.2 rfl
  rw [afterEnd?, hs, he]
  simp only [bind, Option.bind_some, List.findSome?_cons]
  cases b with
  | true => rw [hb]; rfl
  | false =>
    have ht : Text.after? (tilde true ++ d.closing.toList)
        (tilde false ++ d.closing.toList ++ r) = none := by
      rw [← Option.not_isSome_iff_eq_none, Text.isSome_after?_iff]
      rintro ⟨u, hu⟩
      -- the closing delimiter does not start with a tilde
      obtain ⟨c, cs, hc⟩ := List.exists_cons_of_ne_nil d.closing_toList_ne
      simp only [tilde, if_true, Bool.false_eq_true, if_false, List.nil_append, hc,
        List.cons_append, List.cons.injEq] at hu
      exact hd.tilde_notMem_closing (hc ▸ hu.1 ▸ .head _)
    rw [ht, hb]
    rfl

/-- A tag of one enclosure that is read ends where it did when backslashes are put in behind it. -/
theorem readAs?_slashed (hd : d.Unmarked) (hr : Slashed r r')
    (h : readAs? d b e (m.text d ++ r) = some (m, r)) :
    readAs? d b e (m.text d ++ r') = some (m, r') := by
  obtain ⟨t, ht⟩ := exists_of_isSome_readAs? (Option.isSome_of_eq_some h)
  have h' := h
  rw [ht, readAs?_append] at h'
  obtain ⟨⟨inside, b', u⟩, hup, he⟩ := Option.map_eq_some_iff.1 h'
  cases he
  have hread : ∀ r, text d ⟨b, e, inside, b'⟩ ++ r = d.opening.toList ++ tilde b ++ e.opening ++
      (inside ++ (e.closing ++ tilde b' ++ d.closing.toList ++ r)) := by
    intro r
    simp only [text, List.append_assoc]
  rw [hread] at ht
  obtain rfl := List.append_cancel_left ht
  obtain ⟨-, -, hleast⟩ := Text.upTo_isLeast hup
  have hend : Slashed (e.closing ++ tilde b' ++ d.closing.toList ++ r)
      (e.closing ++ tilde b' ++ d.closing.toList ++ r') := hr.append_left _
  have hbefore : ∀ i < inside.length,
      afterEnd? d e (inside.drop i ++ (e.closing ++ tilde b' ++ d.closing.toList ++ r')) = none := by
    intro i hi
    rw [← Option.not_isSome_iff_eq_none, isSome_afterEnd?_iff]
    rintro ⟨q, hq⟩
    have hp := (hend.append_left (inside.drop i)).isPrefix (hd.backslash_notMem_end e q) hq
    have hmem := isSome_afterEnd?_iff.2 ⟨q, hp⟩
    rw [← List.drop_append_of_le_length (Nat.le_of_lt hi)] at hmem
    exact absurd (hleast hmem) (Nat.not_le.2 hi)
  have hstop : Text.upTo (afterEnd? d e) (e.closing ++ tilde b' ++ d.closing.toList ++ r') =
      some ([], b', r') := by
    rw [Text.upTo.eq_def, afterEnd?_append hd]
  rw [hread, readAs?_append, Text.upTo_append_of_none hbefore, hstop]
  simp only [Option.map_some, List.append_nil]

theorem startsTilde_append (hw : w ≠ []) (u : List Char) :
    startsTilde (w ++ u) = startsTilde w := by
  obtain ⟨c, cs, rfl⟩ := List.exists_cons_of_ne_nil hw
  rw [List.cons_append, startsTilde.eq_def, startsTilde.eq_def]
  split
  · rename_i heq
    cases heq
    rfl
  · rename_i hne
    split
    · rename_i heq
      cases heq
      exact absurd rfl (hne _)
    · rfl

/-- A tag that is read is read as it was when backslashes are put in behind it. -/
theorem read?_slashed (hd : d.Unmarked) (hr : Slashed r r')
    (h : read? d (m.text d ++ r) = some (m, r)) : read? d (m.text d ++ r') = some (m, r') := by
  obtain ⟨x, hx, hne⟩ : ∃ x, m.text d = d.opening.toList ++ x ∧ x ≠ [] := by
    refine ⟨tilde m.trimsBefore ++ (m.enclosure.opening ++ (m.inside ++ (m.enclosure.closing ++
      (tilde m.trimsAfter ++ d.closing.toList)))), by simp only [text, List.append_assoc], ?_⟩
    simp [d.closing_toList_ne]
  have hv : ∀ r, m.text d ++ r =
      d.opening.toList ++ tilde (startsTilde x) ++ (afterTilde x ++ r) := by
    intro r
    rw [hx, ← List.append_assoc _ (afterTilde x), List.append_assoc _ _ (afterTilde x),
      tilde_append_afterTilde]
  have hread : ∀ r, read? d (m.text d ++ r) =
      readEnclosed? d (startsTilde x) (m.text d ++ r) := by
    intro r
    rw [hx, List.append_assoc, read?_append hd, startsTilde_append hne]
  rw [hread] at h ⊢
  obtain ⟨tried, e, rest, hl, he, hn⟩ := List.findSome?_eq_some_iff.1 h
  refine List.findSome?_eq_some_iff.2 ⟨tried, e, rest, hl, readAs?_slashed hd hr he, ?_⟩
  intro e' he'
  rw [← Option.not_isSome_iff_eq_none, hv, isSome_readAs?_iff]
  rintro ⟨i, hi⟩
  have hs := (isSome_readAs?_iff (b := startsTilde x) _).2
    ((hr.append_left (afterTilde x)).exists_closes hd hi)
  rw [← hv, hn e' he'] at hs
  cases hs

/-- What holds no `c` and starts a text stands before the first `c` put in. -/
theorem prefix_of_prefix_append_cons {c : Char} {v : List Char} (hc : c ∉ w)
    (h : w <+: v ++ c :: s) : w <+: v := by
  rcases prefix_or_prefix_of_append h with hp | ⟨z, rfl⟩
  · exact hp
  · rcases List.prefix_cons_iff.1 ((List.prefix_append_right_inj v).1 h) with rfl | ⟨t, rfl, -⟩
    · simp
    · exact absurd (List.mem_append_right v (.head _)) hc

/-- A backslash before a tag is found with it, where no tag begins before. -/
theorem find?_backslash (hd : d.Unmarked) (hw : ¬ d.opening.toList <:+: w)
    (h : read? d s = some (m, r)) : find? d (w ++ '\\' :: s) = some (w, true, m, r) := by
  have hstop : quotedRead? d ('\\' :: s) = some (true, m, r) := by
    have ha : Text.after? (backslash true) ('\\' :: s) = some s := Text.after?_eq_some_iff.2 rfl
    rw [quotedRead?, List.findSome?_cons, ha, Option.bind_some, h]
    rfl
  have hbefore : ∀ i < w.length, quotedRead? d (w.drop i ++ '\\' :: s) = none := by
    intro i hi
    rw [← Option.not_isSome_iff_eq_none, isSome_quotedRead?_iff]
    rintro ⟨q, t, ht, hsome⟩
    obtain ⟨⟨m', r'⟩, hread⟩ := Option.isSome_iff_exists.1 hsome
    obtain ⟨u, rfl⟩ := exists_of_read? hread
    apply hw
    cases q with
    | false =>
      have hp := prefix_of_prefix_append_cons hd.backslash_notMem_opening ⟨u, ht.symm⟩
      exact hp.isInfix.trans (List.drop_suffix i w).isInfix
    | true =>
      obtain ⟨c, v, hv⟩ := List.exists_cons_of_ne_nil (List.drop_eq_nil_iff.not.2 (Nat.not_le.2 hi))
      rw [hv] at ht
      obtain ⟨-, ht⟩ := List.cons.inj ht
      have hp := prefix_of_prefix_append_cons hd.backslash_notMem_opening ⟨u, ht.symm⟩
      have hv : v <:+ w := (hv ▸ List.suffix_cons c v).trans (List.drop_suffix i w)
      exact hp.isInfix.trans hv.isInfix
  rw [find?, Text.upTo_append_of_none hbefore, Text.upTo_cons_of_some hstop]
  simp only [Option.map_some, List.append_nil]

theorem read?_of_find? {q : Bool} (h : find? d s = some (w, q, m, r)) :
    read? d (m.text d ++ r) = some (m, r) := by
  obtain ⟨t, -, ht⟩ := Text.upTo_eq_some h
  obtain ⟨u, -, hu⟩ := read?_of_quotedRead? ht
  rwa [read?_eq_some hu] at hu

end Markup

section
variable {w g s u : List Char} {i k : Nat}

/-- White space before a text holds no beginning of `w`. -/
theorem exists_of_occursAt_blank_append (hw : w ≠ []) (hb : ∀ c ∈ w, Text.isBlank c = false)
    (hg : Text.Blank g) (hi : OccursAt w (g ++ s) i) : ∃ j, i = g.length + j ∧ OccursAt w s j := by
  rcases Nat.lt_or_ge i g.length with hlt | hge
  · obtain ⟨c, cs, rfl⟩ := List.exists_cons_of_ne_nil hw
    obtain ⟨r, hr⟩ := OccursAt.iff_exists.1 hi
    rw [List.drop_append_of_le_length (Nat.le_of_lt hlt), List.drop_eq_getElem_cons hlt] at hr
    obtain ⟨hc, -⟩ := List.cons.inj hr
    have hblank := hg _ (List.getElem_mem hlt)
    rw [hc, hb c (.head _)] at hblank
    cases hblank
  · obtain ⟨j, rfl⟩ := Nat.exists_eq_add_of_le hge
    exact ⟨j, rfl, OccursAt.append_left_iff.1 hi⟩

theorem isLeast_blank_append (hw : w ≠ []) (hb : ∀ c ∈ w, Text.isBlank c = false)
    (hg : Text.Blank g) (hl : IsLeast {i | OccursAt w s i} k) :
    IsLeast {i | OccursAt w (g ++ s) i} (g.length + k) := by
  refine ⟨OccursAt.append_left_iff.2 hl.1, ?_⟩
  intro i hi
  obtain ⟨j, rfl, hj⟩ := exists_of_occursAt_blank_append hw hb hg hi
  exact Nat.add_le_add_left (hl.2 hj) _

theorem not_infix_blank_append (hw : w ≠ []) (hb : ∀ c ∈ w, Text.isBlank c = false)
    (hg : Text.Blank g) (hn : ¬ w <:+: s) : ¬ w <:+: g ++ s := by
  rw [infix_iff_exists_occursAt]
  rintro ⟨i, hi⟩
  obtain ⟨j, -, hj⟩ := exists_of_occursAt_blank_append hw hb hg hi
  exact hn hj.isInfix

theorem not_infix_of_isLeast (hw : w ≠ []) (hl : IsLeast {i | OccursAt w (s ++ u) i} s.length) :
    ¬ w <:+: s := by
  rw [infix_iff_exists_occursAt]
  rintro ⟨i, hi⟩
  have hlt : i < s.length := by
    apply Nat.lt_of_not_le
    intro hle
    rw [OccursAt, List.drop_eq_nil_of_le hle] at hi
    exact hw (List.prefix_nil.1 hi)
  have hsu : OccursAt w (s ++ u) i := by
    rw [OccursAt, List.drop_append_of_le_length (Nat.le_of_lt hlt)]
    exact List.IsPrefix.trans hi (List.prefix_append _ u)
  exact absurd (hl.2 hsu) (Nat.not_le.2 hlt)

end

namespace Tag
variable {d : Delimiters} {s q g gap gap' rest : List Char} {t : Tag} {ts : List Tag}

/-- The source with a backslash directly before each of its tags. A tag stands where its text is
first found behind the tag before it. -/
def backslashAll : List Tag → List Char → List Char
  | [], s => s
  | t :: ts, s =>
    match Text.upTo (Text.after? t.raw) s with
    | some (w, r) => w ++ '\\' :: (t.raw ++ backslashAll ts r)
    | none => s

/-- What a tag takes up in its source, with a backslash directly before it. -/
def backslashed (t : Tag) (gaps : List Char × List Char) : List Char :=
  t.before ++ gaps.1 ++ t.quote ++ '\\' :: (t.raw ++ gaps.2)

/-- A scan of `s` finds the tags, and `q` is `s` with a backslash before each of them. -/
inductive Backslashed (d : Delimiters) : List Char → List Tag → List Char → Prop
  | rest {s : List Char} (h : first? d s = .ok none) : Backslashed d s [] s
  | tag {s gap gap' q : List Char} {t : Tag} {ts : List Tag} (h : first? d s = .ok (some t))
      (found : Found d s t gap gap') (next : Backslashed d t.after ts q) :
      Backslashed d s (t :: ts) (backslashed t (gap, gap') ++ q)

theorem Found.read? (hd : d.Unmarked) (hf : Found d s t gap gap')
    (h : first? d s = .ok (some t)) :
    ∃ m : Markup, m.text d = t.raw ∧
      Markup.read? d (t.raw ++ (gap' ++ t.after)) = some (m, gap' ++ t.after) := by
  obtain ⟨w, q, m, r, hfind, hraw⟩ :
      ∃ w q m r, Markup.find? d s = some (w, q, m, r) ∧ m.text d = t.raw := by
    rw [first?] at h
    split at h
    · cases h
      exact ⟨_, _, _, _, by assumption, rfl⟩
    · split at h
      · cases h
        exact ⟨_, _, _, _, by assumption, rfl⟩
      · cases h
    · split at h <;> cases h
  obtain ⟨-, -, -, -, hl⟩ := Markup.find?_reads hd hfind
  have hlen := Nat.le_antisymm (hl.2 hf.first.1) (hf.first.2 hl.1)
  have hparts := (Markup.find?_eq_some hfind).symm.trans hf.parts
  simp only [List.append_assoc, hraw] at hparts
  rw [← List.append_assoc, ← List.append_assoc t.before, ← List.append_assoc _ t.quote] at hparts
  obtain ⟨-, hr⟩ := List.append_inj hparts hlen
  refine ⟨m, hraw, ?_⟩
  have hread := Markup.read?_of_find? hfind
  rwa [hraw, List.append_cancel_left hr] at hread

/-- The text before a tag and its backslash. -/
def ahead (t : Tag) (gap : List Char) : List Char := t.before ++ gap ++ t.quote

theorem Found.eq_ahead (hf : Found d s t gap gap') :
    s = t.ahead gap ++ (t.raw ++ (gap' ++ t.after)) := by
  have hparts := hf.parts
  simp only [List.append_assoc] at hparts
  simpa only [ahead, List.append_assoc] using hparts

theorem Found.isLeast_blank (hb : ∀ c ∈ d.opening.toList, Text.isBlank c = false)
    (hf : Found d s t gap gap') (hg : Text.Blank g) :
    IsLeast {i | OccursAt d.opening.toList (g ++ s) i} (g ++ t.ahead gap).length := by
  rw [List.length_append]
  exact isLeast_blank_append d.opening_toList_ne hb hg hf.first

section
variable (hd : d.Unmarked) (hb : ∀ c ∈ d.opening.toList, Text.isBlank c = false)
  (hf : Found d s t gap gap') (h : first? d s = .ok (some t)) (hg : Text.Blank g)
include hd hb hf h hg

/-- The text of a tag is first found where the tag stands. -/
theorem Found.upTo_raw : Text.upTo (Text.after? t.raw) (g ++ s) =
    some (g ++ t.ahead gap, gap' ++ t.after) := by
  obtain ⟨m, hm, -⟩ := hf.read? hd h
  have hl := hf.isLeast_blank hb hg
  have hs := hf.eq_ahead
  rw [hs, ← List.append_assoc] at hl ⊢
  have hstop : Text.upTo (Text.after? t.raw) (t.raw ++ (gap' ++ t.after)) =
      some ([], gap' ++ t.after) := by
    rw [Text.upTo.eq_def, Text.after?_eq_some_iff.2 rfl]
  rw [Text.upTo_append_of_none, hstop]
  · simp only [Option.map_some, List.append_nil]
  · intro i hi
    rw [← Option.not_isSome_iff_eq_none, Text.isSome_after?_iff,
      ← List.drop_append_of_le_length (Nat.le_of_lt hi)]
    intro hp
    have ho : d.opening.toList <+: t.raw := by
      rw [← hm]
      simp only [Markup.text, List.append_assoc]
      exact List.prefix_append _ _
    exact absurd (hl.2 (ho.trans hp)) (Nat.not_le.2 hi)

/-- With a backslash before it, the tag is quoted. -/
theorem Found.first?_backslashed (hq : Slashed t.after q) :
    first? d (g ++ (backslashed t (gap, gap') ++ q)) =
      .ok (some ⟨.quoted, g ++ t.ahead gap, t.raw, gap' ++ q, t.raw⟩) := by
  obtain ⟨m, hm, hr⟩ := hf.read? hd h
  have hl := hf.isLeast_blank hb hg
  have hs := hf.eq_ahead
  rw [hs, ← List.append_assoc] at hl
  rw [← hm] at hr
  have hread := Markup.read?_slashed hd (hq.append_left gap') hr
  have hfind := Markup.find?_backslash hd (not_infix_of_isLeast d.opening_toList_ne hl) hread
  have hsrc : g ++ (backslashed t (gap, gap') ++ q) =
      g ++ t.ahead gap ++ '\\' :: (m.text d ++ (gap' ++ q)) := by
    simp only [backslashed, ahead, hm, List.append_assoc, List.cons_append]
  rw [first?, hsrc, hfind, ← hm]

end

namespace Backslashed

theorem of_scan (hd : d.Unmarked) (s : List Char) (h : (scan d s).rest = .ok rest) :
    ∃ q, Backslashed d s (scan d s).tags q := by
  cases hs : first? d s with
  | error e =>
    rw [scan_of_error hs] at h
    cases h
  | ok found =>
    cases found with
    | none =>
      rw [scan_of_none hs]
      exact ⟨s, .rest hs⟩
    | some t =>
      rw [scan_of_some hs] at h ⊢
      obtain ⟨gap, gap', hf⟩ := first?_found hd hs
      obtain ⟨q, hq⟩ := of_scan hd t.after h
      exact ⟨_, .tag hs hf hq⟩
termination_by s.length
decreasing_by exact length_after_lt hs

theorem slashed (h : Backslashed d s ts q) : Slashed s q := by
  induction h with
  | rest h => exact .refl _
  | @tag s gap gap' q t ts h found next ih =>
    rw [found.parts, backslashed]
    simp only [List.append_assoc]
    have hrest := ((ih.append_left gap').append_left t.raw).slash
    simpa using ((hrest.append_left t.quote).append_left gap).append_left t.before

/-- White space before the source stays in front. -/
theorem backslashAll_eq (hd : d.Unmarked) (hb : ∀ c ∈ d.opening.toList, Text.isBlank c = false)
    (h : Backslashed d s ts q) (hg : Text.Blank g) : backslashAll ts (g ++ s) = g ++ q := by
  induction h generalizing g with
  | rest h => rfl
  | @tag s gap gap' q t ts h found next ih =>
    rw [backslashAll, found.upTo_raw hd hb h hg]
    simp only [ih found.blank.2, backslashed, ahead, List.append_assoc, List.cons_append]

/-- Source and result part alike. -/
theorem exists_gaps (h : Backslashed d s ts q) :
    ∃ gaps rest, List.Forall₂ (GapsOf d) ts gaps ∧
      s = (List.zipWith piece ts gaps).flatten ++ rest ∧
      q = (List.zipWith backslashed ts gaps).flatten ++ rest := by
  induction h with
  | @rest s h => exact ⟨[], s, .nil, rfl, rfl⟩
  | @tag s gap gap' q t ts h found next ih =>
    obtain ⟨gaps, rest, hg, hs, rfl⟩ := ih
    refine ⟨(gap, gap') :: gaps, rest, .cons found.gapsOf hg, ?_, ?_⟩
    · rw [found.parts]
      simp only [List.zipWith_cons_cons, List.flatten_cons, piece, List.append_assoc]
      rw [← hs]
    · simp only [List.zipWith_cons_cons, List.flatten_cons, List.append_assoc]

end Backslashed

end Tag
end TextTemplate

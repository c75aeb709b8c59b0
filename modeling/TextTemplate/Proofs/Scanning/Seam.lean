import TextTemplate.Proofs.Scanning.Scan

/-! Two sources one behind the other. Where no tag can cross the seam, the tags of both are found as
before. -/

namespace TextTemplate

namespace Text
variable {α : Type} {stop : List Char → Option α} {s w b : List Char} {a : α}

theorem upTo_cons_of_some {c : Char} {cs : List Char} (h : stop (c :: cs) = some a) :
    upTo stop (c :: cs) = some ([], a) := by
  rw [upTo, h]

/-- A search that stops in a text stops there too when more text follows, if it stops nowhere
before. -/
theorem upTo_append {f : α → α} (h : upTo stop s = some (w, a))
    (hlast : ∀ t, s = w ++ t → stop t = some a → stop (t ++ b) = some (f a))
    (hbefore : ∀ i < w.length, stop (s.drop i) = none → stop (s.drop i ++ b) = none) :
    upTo stop (s ++ b) = some (w, f a) := by
  induction s generalizing w with
  | nil =>
    obtain ⟨t, ht, hs⟩ := upTo_eq_some h
    obtain ⟨rfl, rfl⟩ := List.append_eq_nil_iff.1 ht.symm
    have hf := hlast [] rfl hs
    rw [List.nil_append] at hf ⊢
    cases b with
    | nil => rw [upTo, hf]
    | cons c cs => exact upTo_cons_of_some hf
  | cons c cs ih =>
    cases hs : stop (c :: cs) with
    | some a' =>
      rw [upTo_cons_of_some hs] at h
      cases h
      exact upTo_cons_of_some (hlast _ rfl hs)
    | none =>
      rw [upTo_cons_of_none hs] at h
      obtain ⟨⟨v, a'⟩, hv, he⟩ := Option.map_eq_some_iff.1 h
      cases he
      have hc : stop (c :: (cs ++ b)) = none := hbefore 0 (Nat.succ_pos _) hs
      rw [List.cons_append, upTo_cons_of_none hc, ih hv]
      · rfl
      · intro t ht
        exact hlast t (congrArg (c :: ·) ht)
      · intro i hi
        exact hbefore (i + 1) (Nat.succ_lt_succ hi)

/-- A search that stops nowhere in a text goes on in the text that follows. -/
theorem upTo_append_of_none (h : ∀ i < s.length, stop (s.drop i ++ b) = none) :
    upTo stop (s ++ b) = (upTo stop b).map fun (w, a) => (s ++ w, a) := by
  induction s with
  | nil => exact Option.map_id'.symm
  | cons c cs ih =>
    have hc : stop (c :: (cs ++ b)) = none := h 0 (Nat.succ_pos _)
    have hcs := ih fun i hi => h (i + 1) (Nat.succ_lt_succ hi)
    rw [List.cons_append, upTo_cons_of_none hc, hcs, Option.map_map]
    rfl

end Text

/-- What starts a text with more behind it starts the text itself, or goes beyond it. -/
theorem prefix_or_prefix_of_append {w u b : List Char} (h : w <+: u ++ b) : w <+: u ∨ u <+: w :=
  List.prefix_or_prefix_of_prefix h (List.prefix_append u b)

/-- No tag of the source depends on what follows, and none can begin across its end. -/
structure Joinable (d : Delimiters) (s : List Char) : Prop where
  tilde : '~' ∉ s
  enclosed : ∀ e, e ≠ .plain → ¬ d.opening.toList ++ Enclosure.opening e <:+: s
  last : ∀ c ∈ s.getLast?, c ∉ d.opening.toList ∧ c ≠ '\\'

/-- No enclosure opens with a closing delimiter. -/
def Delimiters.Apart (d : Delimiters) : Prop :=
  d.Unmarked ∧ ∀ e, ¬ d.closing.toList <:+: Enclosure.opening e

theorem Delimiters.braces_apart : Delimiters.braces.Apart := by
  refine ⟨by decide, ?_⟩
  intro e
  cases e <;> decide

namespace Joinable
variable {d : Delimiters} {s t u b : List Char} {i : Nat}

theorem of_append (h : Joinable d (s ++ t)) : Joinable d t := by
  refine ⟨?_, ?_, ?_⟩
  · intro hc
    exact h.tilde (List.mem_append_right s hc)
  · intro e he hi
    exact h.enclosed e he (hi.trans (List.suffix_append s t).isInfix)
  · intro c hc
    refine h.last c ?_
    rw [List.getLast?_append, Option.mem_def.1 hc]
    rfl

/-- An opening delimiter that starts in the first source stands in it. -/
theorem occursAt (h : Joinable d s) (hi : i < s.length)
    (ho : OccursAt d.opening.toList (s ++ b) i) : OccursAt d.opening.toList s i := by
  have hd : (s ++ b).drop i = s.drop i ++ b := List.drop_append_of_le_length (Nat.le_of_lt hi)
  rw [OccursAt, hd] at ho
  rcases prefix_or_prefix_of_append ho with hp | hp
  · exact hp
  · obtain ⟨v, c, hv⟩ := (List.eq_nil_or_concat (s.drop i)).resolve_left (by simp [hi])
    rw [List.concat_eq_append] at hv
    have hc : c ∈ d.opening.toList := by
      refine hp.subset ?_
      simp [hv]
    have hlast : s.getLast? = some c := by
      rw [← List.take_append_drop i s, hv, ← List.append_assoc, List.getLast?_concat]
    exact absurd hc (h.last c hlast).1

end Joinable

namespace Markup
variable {d : Delimiters} {e : Enclosure} {q : Bool} {s u w r b : List Char} {m : Markup}

theorem afterEnd?_plain (h : ∀ c ∈ s.head?, c ≠ '~') :
    afterEnd? d .plain s = (Text.after? d.closing.toList s).map fun r => (false, r) := by
  have ht : Text.after? (tilde true ++ d.closing.toList) s = none := by
    cases s with
    | nil => rfl
    | cons c cs =>
      have hc : '~' ≠ c := (h c rfl).symm
      simp [tilde, Text.after?, hc]
  have hp : Text.after? Enclosure.plain.closing s = some s := rfl
  have hf : Text.after? (tilde false ++ d.closing.toList) s = Text.after? d.closing.toList s := rfl
  rw [afterEnd?, hp]
  simp only [bind, Option.bind_some, List.findSome?_cons, ht, Option.map_none, hf]
  cases Text.after? d.closing.toList s <;> rfl

theorem afterEnd?_plain_append (hs : ∀ c ∈ s.head?, c ≠ '~')
    (h : afterEnd? d .plain s = some (q, r)) :
    afterEnd? d .plain (s ++ b) = some (q, r ++ b) := by
  rw [afterEnd?_plain hs] at h
  obtain ⟨r', hr, he⟩ := Option.map_eq_some_iff.1 h
  cases he
  obtain rfl := Text.after?_eq_some_iff.1 hr
  have hsb : ∀ c ∈ (d.closing.toList ++ r ++ b).head?, c ≠ '~' := by
    rwa [List.head?_append_of_ne_nil _ (by simp [d.closing_toList_ne])]
  have hc : Text.after? d.closing.toList (d.closing.toList ++ r ++ b) = some (r ++ b) :=
    Text.after?_eq_some_iff.2 (List.append_assoc _ r b)
  rw [afterEnd?_plain hsb, hc]
  rfl

theorem afterEnd?_plain_append_eq_none (hs : ∀ c ∈ s.head?, c ≠ '~')
    (hl : d.closing.toList.length ≤ s.length) (h : afterEnd? d .plain s = none) :
    afterEnd? d .plain (s ++ b) = none := by
  have hpos := List.length_pos_iff.2 d.closing_toList_ne
  have hne : s ≠ [] := List.length_pos_iff.1 (Nat.lt_of_lt_of_le hpos hl)
  have hsb : ∀ c ∈ (s ++ b).head?, c ≠ '~' := by
    rwa [List.head?_append_of_ne_nil s hne]
  rw [afterEnd?_plain hs, Option.map_eq_none_iff, ← Option.not_isSome_iff_eq_none,
    Text.isSome_after?_iff] at h
  rw [afterEnd?_plain hsb, Option.map_eq_none_iff, ← Option.not_isSome_iff_eq_none,
    Text.isSome_after?_iff]
  intro hp
  exact h (List.prefix_of_prefix_length_le hp (List.prefix_append s b) hl)

/-- A plain tag ends with its first closing delimiter, whatever follows. -/
theorem readAs?_plain_append (hu : '~' ∉ u)
    (h : readAs? d false .plain (d.opening.toList ++ u) = some (m, r)) :
    readAs? d false .plain (d.opening.toList ++ (u ++ b)) = some (m, r ++ b) := by
  have hread := fun u => readAs?_append d false .plain u
  simp only [tilde, Enclosure.opening, Bool.false_eq_true, if_false, List.append_nil] at hread
  rw [hread] at h ⊢
  obtain ⟨⟨inside, q, r'⟩, hup, he⟩ := Option.map_eq_some_iff.1 h
  cases he
  have hhead : ∀ t, t <:+ u → ∀ c ∈ t.head?, c ≠ '~' := by
    rintro t ht c hc rfl
    exact hu (ht.subset (List.mem_of_mem_head? hc))
  obtain ⟨t, rfl, hstop⟩ := Text.upTo_eq_some hup
  rw [Text.upTo_append (f := fun x => (x.1, x.2 ++ b)) hup]
  · rfl
  · rintro t' ht' hstop'
    exact afterEnd?_plain_append (hhead t' ⟨_, ht'.symm⟩) hstop'
  · intro i hi hn
    have ht := congrArg List.length (afterEnd?_eq_some hstop)
    refine afterEnd?_plain_append_eq_none (hhead _ (List.drop_suffix i _)) ?_ hn
    simp only [List.length_append, List.length_drop] at ht ⊢
    omega

theorem readAs?_eq_none_of_not_prefix (h : ¬ e.opening <+: u) :
    readAs? d false e (d.opening.toList ++ u) = none := by
  rw [← Option.not_isSome_iff_eq_none]
  intro hs
  obtain ⟨t, ht⟩ := exists_of_isSome_readAs? hs
  have hn : tilde false = [] := rfl
  rw [hn, List.append_nil, List.append_assoc] at ht
  exact h ⟨t, (List.append_cancel_left ht).symm⟩

/-- Where no enclosure is opened, a tag without tildes is plain. -/
theorem read?_eq_readAs? (hd : d.Unmarked) (hu : startsTilde u = false)
    (he : ∀ e, e ≠ .plain → ¬ Enclosure.opening e <+: u) :
    read? d (d.opening.toList ++ u) = readAs? d false .plain (d.opening.toList ++ u) := by
  have hdashes := readAs?_eq_none_of_not_prefix (d := d) (he .dashes (by decide))
  have hbraces := readAs?_eq_none_of_not_prefix (d := d) (he .braces (by decide))
  rw [read?_append hd, hu, readEnclosed?]
  simp only [List.findSome?_cons, hdashes, hbraces, List.findSome?_nil]
  cases readAs? d false .plain (d.opening.toList ++ u) <;> rfl

theorem startsTilde_of_head? (hu : ∀ c ∈ u.head?, c ≠ '~') : startsTilde u = false := by
  rw [startsTilde.eq_def]
  split
  · exact absurd rfl (hu '~' rfl)
  · rfl

theorem exists_of_read? (h : read? d s = some (m, r)) : ∃ u, s = d.opening.toList ++ u := by
  have hs := read?_eq_some h
  simp only [text, List.append_assoc] at hs
  exact ⟨_, hs⟩

/-- What is read in the first source is read there, whatever follows. -/
theorem read?_append_of_joinable (hd : d.Apart) (hs : Joinable d s)
    (h : read? d s = some (m, r)) : read? d (s ++ b) = some (m, r ++ b) := by
  obtain ⟨u, rfl⟩ := exists_of_read? h
  have hu : '~' ∉ u := fun hc => hs.tilde (List.mem_append_right _ hc)
  have hclosing : d.closing.toList <:+: u := (isSome_read?_iff u).1 (Option.isSome_of_eq_some h)
  have hne : u ≠ [] := by
    rintro rfl
    exact d.closing_toList_ne (List.eq_nil_of_infix_nil hclosing)
  have hhead : ∀ c ∈ u.head?, c ≠ '~' := by
    rintro c hc rfl
    exact hu (List.mem_of_mem_head? hc)
  have he : ∀ e, e ≠ .plain → ¬ Enclosure.opening e <+: u := by
    intro e he hp
    apply hs.enclosed e he
    exact ((List.prefix_append_right_inj _).2 hp).isInfix
  have heb : ∀ e, e ≠ .plain → ¬ Enclosure.opening e <+: u ++ b := by
    intro e hne hp
    rcases prefix_or_prefix_of_append hp with hp | hp
    · exact he e hne hp
    · exact hd.2 e (hclosing.trans hp.isInfix)
  have hheadb : ∀ c ∈ (u ++ b).head?, c ≠ '~' := by
    rwa [List.head?_append_of_ne_nil u hne]
  rw [read?_eq_readAs? hd.1 (startsTilde_of_head? hhead) he] at h
  rw [List.append_assoc, read?_eq_readAs? hd.1 (startsTilde_of_head? hheadb) heb]
  exact readAs?_plain_append hu h

theorem isSome_quotedRead?_iff :
    (quotedRead? d s).isSome ↔ ∃ q t, s = backslash q ++ t ∧ (read? d t).isSome := by
  simp only [quotedRead?, List.findSome?_isSome_iff, Option.isSome_map]
  constructor
  · rintro ⟨q, -, h⟩
    obtain ⟨x, hx⟩ := Option.isSome_iff_exists.1 h
    obtain ⟨t, ht, hr⟩ := Option.bind_eq_some_iff.1 hx
    exact ⟨q, t, Text.after?_eq_some_iff.1 ht, Option.isSome_of_eq_some hr⟩
  · rintro ⟨q, t, rfl, h⟩
    have ha : Text.after? (backslash q) (backslash q ++ t) = some t :=
      Text.after?_eq_some_iff.2 rfl
    exact ⟨q, by cases q <;> simp, by rwa [ha, Option.bind_some]⟩

theorem quotedRead?_append (hd : d.Apart) (hs : Joinable d s)
    (h : quotedRead? d s = some (q, m, r)) : quotedRead? d (s ++ b) = some (q, m, r ++ b) := by
  obtain ⟨u, rfl, hr⟩ := read?_of_quotedRead? h
  have hread := read?_append_of_joinable (b := b) hd hs.of_append hr
  rw [List.append_assoc]
  cases q with
  | true =>
    have ha : ∀ s, Text.after? (backslash true) (backslash true ++ s) = some s :=
      fun s => Text.after?_eq_some_iff.2 rfl
    rw [quotedRead?, List.findSome?_cons, ha, Option.bind_some, hread]
    rfl
  | false =>
    -- the opening delimiter holds no backslash, so that none starts the text
    have hq : Text.after? (backslash true) (d.opening.toList ++ (u ++ b)) = none := by
      rw [← Option.not_isSome_iff_eq_none, Text.isSome_after?_iff]
      intro hp
      obtain ⟨c, cs, hc⟩ := List.exists_cons_of_ne_nil d.opening_toList_ne
      rw [hc, List.cons_append] at hp
      obtain ⟨t, ht⟩ := hp
      cases ht
      exact hd.1.backslash_notMem_opening (hc ▸ List.mem_cons_self ..)
    have ha : ∀ s, Text.after? (backslash false) s = some s :=
      fun s => Text.after?_eq_some_iff.2 rfl
    rw [List.append_assoc] at hread
    simp only [backslash, Bool.false_eq_true, if_false, List.nil_append, List.append_assoc]
    rw [quotedRead?, List.findSome?_cons]
    simp only [hq, Option.bind_none, Option.map_none, List.findSome?_cons, ha, Option.bind_some,
      hread, Option.map_some]

/-- A tag that begins in the first source has its opening delimiter there. -/
theorem exists_occursAt_of_quotedRead? {i : Nat} (hs : Joinable d s) (hi : i < s.length)
    (h : (quotedRead? d (s.drop i ++ b)).isSome) :
    ∃ q, s.drop i = backslash q ++ s.drop (i + (backslash q).length) ∧
      OccursAt d.opening.toList s (i + (backslash q).length) := by
  obtain ⟨q, t, ht, hr⟩ := isSome_quotedRead?_iff.1 h
  obtain ⟨⟨m, r⟩, hmr⟩ := Option.isSome_iff_exists.1 hr
  obtain ⟨v, rfl⟩ := exists_of_read? hmr
  obtain ⟨c, cs, hc⟩ := List.exists_cons_of_ne_nil (List.drop_eq_nil_iff.not.2 (Nat.not_le.2 hi))
  have hq : s.drop i = backslash q ++ s.drop (i + (backslash q).length) := by
    cases q with
    | false => rfl
    | true =>
      rw [hc] at ht
      obtain ⟨rfl, -⟩ := List.cons.inj ht
      rw [← List.drop_drop, hc]
      rfl
  have hlt : i + (backslash q).length < s.length := by
    cases q with
    | false => exact hi
    | true =>
      apply Nat.lt_of_not_le
      intro hle
      rw [List.drop_eq_nil_of_le hle, List.append_nil] at hq
      have hlast : s.getLast? = some '\\' := by
        rw [← List.take_append_drop i s, hq]
        exact List.getLast?_concat
      exact (hs.last _ hlast).2 rfl
  refine ⟨q, hq, hs.occursAt (b := b) hlt ?_⟩
  have hd : (s ++ b).drop i = s.drop i ++ b := List.drop_append_of_le_length (Nat.le_of_lt hi)
  rw [OccursAt, ← List.drop_drop, hd, ht, List.drop_left]
  exact List.prefix_append _ v

/-- The first tag of the first source is the first one of both together. -/
theorem find?_append (hd : d.Apart) (hs : Joinable d s) (h : find? d s = some (w, q, m, r)) :
    find? d (s ++ b) = some (w, q, m, r ++ b) := by
  obtain ⟨hstop, -, -⟩ := Text.upTo_isLeast h
  obtain ⟨u, hu, hread⟩ := read?_of_quotedRead? hstop
  have hk : s.drop (w.length + (backslash q).length) = d.opening.toList ++ u := by
    rw [← List.drop_drop, hu, List.drop_left]
  have hc : d.closing.toList <:+: u := (isSome_read?_iff u).1 (Option.isSome_of_eq_some hread)
  refine Text.upTo_append (f := fun (q, m, r) => (q, m, r ++ b)) h ?_ ?_
  · rintro t rfl ht
    exact quotedRead?_append hd hs.of_append ht
  · intro i hi hn
    rw [← Option.not_isSome_iff_eq_none] at hn ⊢
    intro hsome
    have hlen : i < s.length := by
      obtain ⟨t, rfl, -⟩ := Text.upTo_eq_some h
      rw [List.length_append]
      omega
    obtain ⟨q', hq', ho⟩ := exists_occursAt_of_quotedRead? hs hlen hsome
    have hle : (backslash q').length ≤ 1 := by cases q' <;> decide
    exact hn (isSome_quotedRead?_iff.2 ⟨q', _, hq', isSome_read?_drop hk hc ho (by omega)⟩)

/-- Where the first source holds no tag, the first tag of the second is the first one of both. -/
theorem find?_append_of_not_infix (hs : Joinable d s) (hn : ¬ d.opening.toList <:+: s) :
    find? d (s ++ b) = (find? d b).map fun (w, x) => (s ++ w, x) := by
  refine Text.upTo_append_of_none fun i hi => ?_
  rw [← Option.not_isSome_iff_eq_none]
  intro hsome
  obtain ⟨q, -, ho⟩ := exists_occursAt_of_quotedRead? hs hi hsome
  exact hn ho.isInfix

theorem trims_eq_false (hs : '~' ∉ s) (h : find? d s = some (w, q, m, r)) :
    m.trimsBefore = false ∧ m.trimsAfter = false := by
  have hm : '~' ∉ m.text d := by
    rw [find?_eq_some h] at hs
    simp only [List.mem_append, not_or] at hs
    exact hs.1.2
  constructor
  · cases hb : m.trimsBefore with
    | false => rfl
    | true => simp [text, hb, tilde] at hm
  · cases ha : m.trimsAfter with
    | false => rfl
    | true => simp [text, ha, tilde] at hm

end Markup

namespace Tag
variable {d : Delimiters} {s b : List Char} {t : Tag}

/-- The first tag of the first source is found there, with more behind it. -/
theorem first?_append (hd : d.Apart) (hs : Joinable d s) (h : first? d s = .ok (some t)) :
    first? d (s ++ b) = .ok (some { t with after := t.after ++ b }) := by
  rw [first?] at h ⊢
  cases hf : Markup.find? d s with
  | none =>
    rw [hf] at h
    cases ho : Text.fromFirst? d.opening.toList s <;> simp [ho] at h
  | some found =>
    obtain ⟨w, q, m, r⟩ := found
    obtain ⟨-, hm⟩ := Markup.trims_eq_false hs.tilde hf
    rw [hf] at h
    rw [Markup.find?_append hd hs hf]
    cases q with
    | true =>
      cases h
      rfl
    | false =>
      cases ho : ofMarkup d m with
      | error e => simp [ho] at h
      | ok x =>
        simp only [ho, hm, Bool.false_eq_true, if_false, Except.ok.injEq, Option.some.injEq] at h
        subst h
        simp only [ho, hm, Bool.false_eq_true, if_false]

/-- Behind a source without tags, the first tag has that source before it. -/
theorem first?_append_of_not_infix (hs : Joinable d s) (hn : ¬ d.opening.toList <:+: s)
    (hb : '~' ∉ b) (h : first? d b = .ok (some t)) :
    first? d (s ++ b) = .ok (some { t with before := s ++ t.before }) := by
  rw [first?] at h ⊢
  rw [Markup.find?_append_of_not_infix hs hn]
  cases hf : Markup.find? d b with
  | none =>
    rw [hf] at h
    cases ho : Text.fromFirst? d.opening.toList b <;> simp [ho] at h
  | some found =>
    obtain ⟨w, q, m, r⟩ := found
    obtain ⟨hm, -⟩ := Markup.trims_eq_false hb hf
    rw [hf] at h
    cases q with
    | true =>
      cases h
      rfl
    | false =>
      cases ho : ofMarkup d m with
      | error e => simp [ho] at h
      | ok x =>
        simp only [ho, hm, Bool.false_eq_true, if_false, Except.ok.injEq, Option.some.injEq] at h
        subst h
        simp only [Option.map_some, ho, hm, Bool.false_eq_true, if_false]

/-- Two sources without tags hold none together. -/
theorem not_infix_append (hs : Joinable d s) (hn : ¬ d.opening.toList <:+: s)
    (hb : ¬ d.opening.toList <:+: b) : ¬ d.opening.toList <:+: s ++ b := by
  rw [infix_iff_exists_occursAt]
  rintro ⟨i, hi⟩
  rcases Nat.lt_or_ge i s.length with hlt | hge
  · exact hn (hs.occursAt hlt hi).isInfix
  · obtain ⟨j, rfl⟩ := Nat.exists_eq_add_of_le hge
    exact hb (OccursAt.append_left_iff.1 hi).isInfix

end Tag
end TextTemplate

import Mathlib.Logic.Relation
import Mathlib.Order.Bounds.Basic
import TextTemplate.Proofs.Scanning.Quoting
import TextTemplate.Template.Builder

/-! A tag that is not closed before the next one opens is an error, unless it stands in braces. -/

namespace TextTemplate

/-- The error says that a tag is not closed. -/
inductive ParseError.Unclosed : ParseError → Prop
  | source (text : List Char) : Unclosed (.unclosedTag text)
  | tag (raw : List Char) : Unclosed (.tag .unclosedTag raw)

namespace Tag

/-- The tag is written without an enclosure. What it says stands inside, and no delimiter does. -/
def Plain (d : Delimiters) (t : Tag) : Prop :=
  ∃ m : Markup, m.enclosure = .plain ∧ t.raw = m.text d ∧ t.content <:+: m.inside ∧
    ¬ d.opening.toList <:+: m.inside ∧ ¬ d.closing.toList <:+: m.inside

/-- The tag is written in braces, and says all that stands between them. -/
def Braced (d : Delimiters) (t : Tag) : Prop :=
  ∃ m : Markup, m.enclosure = .braces ∧ t.raw = m.text d ∧ t.kind = .rawValue ∧
    t.content = Text.trim m.inside

/-- The first opening delimiter opens a tag that is closed too late: nowhere, or, where the tag is
neither quoted nor enclosed, behind another opening delimiter. -/
inductive IllClosed (d : Delimiters) : List Char → Prop
  | never {w u : List Char}
      (first : IsLeast {i | OccursAt d.opening.toList (w ++ (d.opening.toList ++ u)) i} w.length)
      (unclosed : ¬ d.closing.toList <:+: u) : IllClosed d (w ++ (d.opening.toList ++ u))
  | late {w u : List Char} {i : Nat}
      (first : IsLeast {i | OccursAt d.opening.toList (w ++ (d.opening.toList ++ u)) i} w.length)
      (unquoted : w.getLast? ≠ some '\\')
      (plain : ∀ e i, e ≠ .plain → ¬ Closes d e (afterTilde u) i)
      (closed : IsLeast {i | OccursAt d.closing.toList u i} i)
      (opened : d.opening.toList <:+: u.take i) : IllClosed d (w ++ (d.opening.toList ++ u))

/-- The first tag of `s` leaves `r`. -/
def Leaves (d : Delimiters) (s r : List Char) : Prop :=
  ∃ t, first? d s = .ok (some t) ∧ t.after = r

end Tag

section
variable {d : Delimiters} {w s u r : List Char} {b b' : Bool}

/-- A text without a tilde does not reach into the tildes around it. -/
theorem infix_tildes_iff (hw : w ≠ []) (ht : '~' ∉ w) :
    w <:+: Markup.tilde b ++ s ++ Markup.tilde b' ↔ w <:+: s := by
  constructor
  · intro h
    have hs : w <:+: s ++ Markup.tilde b' := by
      cases b with
      | false => exact h
      | true =>
        rcases List.infix_cons_iff.1 h with hp | hi
        · rcases List.prefix_cons_iff.1 hp with hn | ⟨v, rfl, -⟩
          · exact absurd hn hw
          · exact absurd (.head _) ht
        · exact hi
    cases b' with
    | false =>
      rw [Markup.tilde, if_neg Bool.false_ne_true, List.append_nil] at hs
      exact hs
    | true =>
      rcases List.infix_concat_iff.1 hs with hp | hi
      · rcases List.suffix_concat_iff.1 hp with hn | ⟨v, rfl, -⟩
        · exact absurd hn hw
        · exact absurd (List.mem_append_right v (.head _)) ht
      · exact hi
  · rintro ⟨v, v', rfl⟩
    exact ⟨Markup.tilde b ++ v, v' ++ Markup.tilde b', by simp⟩

namespace Markup
variable {m : Markup}

theorem Reads.not_infix_closing (hd : d.Unmarked) (h : Reads d u m) (hp : m.enclosure = .plain)
    (hs : d.opening.toList ++ u = m.text d ++ r) : ¬ d.closing.toList <:+: m.inside := by
  rintro ⟨v, v', hv⟩
  obtain ⟨-, hleast⟩ := h.isLeast_closing hd hp hs
  have ho := OccursAt.append (tilde (startsTilde u) ++ v) d.closing.toList
    (v' ++ tilde m.trimsAfter ++ (d.closing.toList ++ r))
  have hu : tilde (startsTilde u) ++ v ++ (d.closing.toList ++
      (v' ++ tilde m.trimsAfter ++ (d.closing.toList ++ r))) = u := by
    refine Eq.trans ?_ (h.plain_eq hp hs)
    rw [← hv]
    simp
  rw [hu] at ho
  have hlen := hleast ho
  have hc := List.length_pos_iff.2 d.closing_toList_ne
  simp only [← hv, List.length_append] at hlen
  omega

/-- A backslash before a tag quotes it. -/
theorem getLast?_ne_backslash (h : find? d s = some (w, false, m, r)) :
    w.getLast? ≠ some '\\' := by
  intro hw
  obtain ⟨v, rfl⟩ := List.getLast?_eq_some_iff.1 hw
  have hs : s.drop v.length = '\\' :: (m.text d ++ r) := by
    rw [find?_eq_some h]
    simp [backslash]
  have hq : (quotedRead? d (s.drop v.length)).isSome := by
    rw [hs]
    exact isSome_quotedRead?_iff.2 ⟨true, _, rfl, Option.isSome_of_eq_some (read?_of_find? h)⟩
  obtain ⟨-, -, hleast⟩ := Text.upTo_isLeast h
  have hlen := hleast hq
  rw [List.length_append, List.length_singleton] at hlen
  omega

theorem isSome_find? (hc : d.closing.toList <:+: u) :
    (find? d (w ++ (d.opening.toList ++ u))).isSome := by
  rw [← Option.ne_none_iff_isSome, find?, ne_eq, Text.upTo_eq_none_iff]
  intro hn
  have hr := isSome_quotedRead?_of_read? ((isSome_read?_iff u).2 hc)
  have hw := hn w.length
  rw [List.drop_left] at hw
  rw [hw] at hr
  cases hr

/-- Where the first opening delimiter stands, the first tag is read. -/
theorem find?_of_first (hd : d.Unmarked) {q : Bool} {w' : List Char}
    (first : IsLeast {i | OccursAt d.opening.toList (w ++ (d.opening.toList ++ u)) i} w.length)
    (h : find? d (w ++ (d.opening.toList ++ u)) = some (w', q, m, r)) :
    w = w' ++ backslash q ∧ d.opening.toList ++ u = m.text d ++ r ∧ Reads d u m := by
  obtain ⟨u', hs, hu, hr, hl⟩ := find?_reads hd h
  obtain ⟨hw, ho⟩ := List.append_inj hs (first.unique hl)
  obtain rfl := List.append_cancel_left ho
  exact ⟨hw, hu, hr⟩

end Markup

namespace Tag
variable {k k' : Kind} {content : List Char} {m : Markup} {t : Tag}

theorem named_ne_unclosed (k : Kind) (s : List Char) : named k s ≠ .error .unclosedTag := by
  intro h
  rw [named] at h
  split at h <;> cases h

theorem ofInside_ne_unclosed (s : List Char) : ofInside s ≠ .error .unclosedTag := by
  intro h
  rw [ofInside.eq_def] at h
  split at h
  · cases h
  · cases h
  · exact named_ne_unclosed _ _ h
  · exact named_ne_unclosed _ _ h
  · exact named_ne_unclosed _ _ h
  · cases h
  · split at h <;> exact named_ne_unclosed _ _ h
  · cases h
  · split at h <;> cases h

theorem ofMarkup_unclosed_iff : ofMarkup d m = .error .unclosedTag ↔
    m.enclosure = .plain ∧ d.opening.toList <:+: m.inside := by
  rw [ofMarkup]
  cases he : m.enclosure with
  | dashes => simp
  | braces => simp [named_ne_unclosed]
  | plain =>
    by_cases hc : d.opening.toList <:+: m.inside
    · simp [Text.contains_iff.2 hc, hc]
    · simp [Text.contains_iff, hc, ofInside_ne_unclosed]

theorem trim_infix_of_suffix {v : List Char} (h : v <:+ s) : Text.trim v <:+: s :=
  (Text.trim_isInfix v).trans h.isInfix

theorem named_content_isInfix {v : List Char} (h : named k' (Text.trim v) = .ok (k, content))
    (hv : v <:+ s) : content <:+: s := by
  obtain ⟨-, rfl, -⟩ := named_eq_ok h
  exact trim_infix_of_suffix hv

theorem afterKeyword?_isSuffix {w v : List Char} (h : afterKeyword? w s = some v) : v <:+ s := by
  rw [afterKeyword?] at h
  split at h
  · cases h
    exact List.nil_suffix
  · rename_i c cs ha
    split at h
    · cases h
      rw [Text.after?_eq_some_iff.1 ha]
      exact (List.dropWhile_suffix _).trans (List.suffix_append _ _)
    · cases h
  · cases h

/-- A tag says no more than stands inside. -/
theorem ofInside_content_isInfix (h : ofInside s = .ok (k, content)) : content <:+: s := by
  rw [ofInside.eq_def] at h
  split at h
  · cases h
  · cases h
    exact trim_infix_of_suffix (List.suffix_cons _ _)
  · exact named_content_isInfix h (List.suffix_cons _ _)
  · exact named_content_isInfix h (List.suffix_cons _ _)
  · exact named_content_isInfix h (List.suffix_cons _ _)
  · cases h
    exact trim_infix_of_suffix (List.suffix_cons _ _)
  · rename_i v
    have hv : Text.trimStart v <:+ '#' :: v :=
      (List.dropWhile_suffix _).trans (List.suffix_cons _ _)
    split at h
    · rename_i w hw
      exact named_content_isInfix h ((List.suffix_cons _ w).trans (hw ▸ hv))
    · rename_i w hw
      exact named_content_isInfix h ((List.suffix_cons _ w).trans (hw ▸ hv))
    · exact named_content_isInfix h (List.suffix_cons _ _)
  · cases h
  · split at h
    · rename_i ha
      cases h
      exact (afterKeyword?_isSuffix ha).isInfix
    · cases h
      exact List.infix_rfl

theorem first?_form (hd : d.Unmarked) (h : first? d s = .ok (some t)) (hc : t.kind ≠ .comment)
    (hq : t.kind ≠ .quoted) : t.Plain d ∨ t.Braced d := by
  rw [first?] at h
  split at h
  · cases h
    exact absurd rfl hq
  · rename_i w m r hf
    obtain ⟨u, -, hu, hr, -⟩ := Markup.find?_reads hd hf
    split at h
    · rename_i k content hm
      cases h
      rw [ofMarkup] at hm
      cases he : m.enclosure with
      | dashes =>
        simp only [he] at hm
        cases hm
        exact absurd rfl hc
      | braces =>
        simp only [he] at hm
        obtain ⟨hk, hcontent, -⟩ := named_eq_ok hm
        exact .inr ⟨m, he, rfl, hk, hcontent⟩
      | plain =>
        simp only [he] at hm
        split at hm
        · cases hm
        · rename_i hn
          have hin := (ofInside_content_isInfix hm).trans (Text.trim_isInfix _)
          exact .inl ⟨m, he, rfl, hin, Text.contains_iff.not.1 hn, hr.not_infix_closing hd he hu⟩
    · cases h
  · split at h <;> cases h

theorem IllClosed.first? (hd : d.Unmarked) (h : IllClosed d s) :
    ∃ e, first? d s = .error e ∧ e.Unclosed := by
  cases h with
  | @never w u first unclosed =>
    have hnone : Markup.find? d (w ++ (d.opening.toList ++ u)) = none := by
      cases hf : Markup.find? d (w ++ (d.opening.toList ++ u)) with
      | none => rfl
      | some found =>
        obtain ⟨w', q, m, r⟩ := found
        obtain ⟨-, hu, -⟩ := Markup.find?_of_first hd first hf
        have hr := Option.isSome_of_eq_some (Markup.read?_of_find? hf)
        rw [← hu, Markup.isSome_read?_iff] at hr
        exact absurd hr unclosed
    cases ho : Text.fromFirst? d.opening.toList (w ++ (d.opening.toList ++ u)) with
    | none => exact absurd first.1.isInfix (Text.fromFirst?_eq_none_iff.1 ho)
    | some r => exact ⟨.unclosedTag r, by simp only [Tag.first?, hnone, ho], .source r⟩
  | @late w u i first unquoted plain closed opened =>
    obtain ⟨⟨w', q, m, r⟩, hf⟩ :=
      Option.isSome_iff_exists.1 (Markup.isSome_find? (w := w) closed.1.isInfix)
    obtain ⟨rfl, hu, hr⟩ := Markup.find?_of_first hd first hf
    have hp : m.enclosure = .plain := by
      by_contra he
      exact plain _ _ he hr.least.1
    have hin : d.opening.toList <:+: m.inside := by
      rw [closed.unique (hr.isLeast_closing hd hp hu), hr.take_eq hp hu,
        infix_tildes_iff d.opening_toList_ne hd.tilde_notMem_opening] at opened
      exact opened
    cases q with
    | true => simp [Markup.backslash] at unquoted
    | false =>
      have hm := ofMarkup_unclosed_iff.2 ⟨hp, hin⟩
      exact ⟨.tag .unclosedTag (m.text d), by simp only [Tag.first?, hf, hm], .tag _⟩

theorem illClosed_of_first? (hd : d.Unmarked) {e : ParseError} (h : first? d s = .error e)
    (he : e.Unclosed) : IllClosed d s := by
  rw [first?] at h
  split at h
  · cases h
  · rename_i w m r hf
    obtain ⟨u, rfl, hu, hr, hl⟩ := Markup.find?_reads hd hf
    simp only [Markup.backslash, Bool.false_eq_true, if_false, List.append_nil] at hl hf ⊢
    split at h
    · cases h
    · rename_i e' hm
      cases h
      cases he
      obtain ⟨hp, hin⟩ := ofMarkup_unclosed_iff.1 hm
      refine .late hl (Markup.getLast?_ne_backslash hf) (hr.unclosed hp)
        (hr.isLeast_closing hd hp hu) ?_
      rw [hr.take_eq hp hu]
      exact (infix_tildes_iff d.opening_toList_ne hd.tilde_notMem_opening).2 hin
  · rename_i hf
    split at h
    · rename_i r ho
      obtain ⟨w, u, rfl, hl⟩ := Text.fromFirst?_isLeast ho
      refine .never hl fun hc => ?_
      have hs := Markup.isSome_find? (w := w) hc
      rw [hf] at hs
      cases hs
    · cases h

theorem forall_mem_scan {P : Tag → Prop} (h : ∀ s t, first? d s = .ok (some t) → P t)
    (s : List Char) : ∀ t ∈ (scan d s).tags, P t := by
  cases hs : first? d s with
  | error e =>
    rw [scan_of_error hs]
    nofun
  | ok found =>
    cases found with
    | none =>
      rw [scan_of_none hs]
      nofun
    | some t =>
      rw [scan_of_some hs]
      exact List.forall_mem_cons.2 ⟨h s t hs, forall_mem_scan h t.after⟩
termination_by s.length
decreasing_by exact length_after_lt hs

/-- The error of a scan is that of the first tag of a text that it comes to. -/
theorem exists_reached {e : ParseError} {s : List Char} (h : (scan d s).rest = .error e) :
    ∃ r, Relation.ReflTransGen (Leaves d) s r ∧ first? d r = .error e := by
  cases hs : first? d s with
  | error e' =>
    rw [scan_of_error hs] at h
    cases h
    exact ⟨s, .refl, hs⟩
  | ok found =>
    cases found with
    | none =>
      rw [scan_of_none hs] at h
      cases h
    | some t =>
      rw [scan_of_some hs] at h
      obtain ⟨r, hr, hf⟩ := exists_reached h
      exact ⟨r, .head ⟨t, hs, rfl⟩ hr, hf⟩
termination_by s.length
decreasing_by exact length_after_lt hs

/-- A scan is stopped by an unclosed tag exactly where it comes to one. -/
theorem scan_unclosed_iff (hd : d.Unmarked) (s : List Char) :
    (∃ e, (scan d s).rest = .error e ∧ e.Unclosed) ↔
      ∃ r, Relation.ReflTransGen (Leaves d) s r ∧ IllClosed d r := by
  constructor
  · rintro ⟨e, hs, he⟩
    obtain ⟨r, hr, hf⟩ := exists_reached hs
    exact ⟨r, hr, illClosed_of_first? hd hf he⟩
  · rintro ⟨r, hr, hi⟩
    induction hr using Relation.ReflTransGen.head_induction_on with
    | refl =>
      obtain ⟨e, hf, he⟩ := hi.first? hd
      exact ⟨e, by rw [scan_of_error hf], he⟩
    | head h _ ih =>
      obtain ⟨t, ht, rfl⟩ := h
      rwa [scan_of_some ht]

end Tag

/-- What stops the scan stops compiling, unless a tag before it does. -/
theorem Template.compile_of_rest {source : String} {e : ParseError}
    (h : (Tag.scan d source.toList).rest = .error e) :
    ∃ e', compile d source = .error e' ∧
      ∀ b, (Tag.scan d source.toList).tags.foldlM Builder.step .empty = .ok b → e' = e := by
  cases hb : (Tag.scan d source.toList).tags.foldlM Builder.step .empty with
  | error e' => exact ⟨e', by simp only [compile, hb, bind, Except.bind], nofun⟩
  | ok b => exact ⟨e, by simp only [compile, hb, h, bind, Except.bind], fun _ _ => rfl⟩

end

namespace Tag

/-- An opening delimiter stands in what a tag says only if the tag is written in braces; every other
tag ends before the next one opens. A scan ends with a tag that is not closed exactly where it comes
to one that is closed too late, and then the source does not compile. -/
theorem opening_only_in_braces (d : Delimiters) (hd : d.Unmarked) (source : String) :
    (∀ t ∈ (scan d source.toList).tags, t.kind ≠ .comment → t.kind ≠ .quoted →
      (¬ d.opening.toList <:+: t.content ∧ t.Plain d) ∨ t.Braced d) ∧
    ((∃ e, (scan d source.toList).rest = .error e ∧ e.Unclosed) ↔
      ∃ r, Relation.ReflTransGen (Leaves d) source.toList r ∧ IllClosed d r) ∧
    ∀ e, (scan d source.toList).rest = .error e →
      ∃ e', Template.compile d source = .error e' ∧
        ∀ b, (scan d source.toList).tags.foldlM Builder.step .empty = .ok b → e' = e := by
  refine ⟨?_, scan_unclosed_iff hd _, fun e => Template.compile_of_rest⟩
  refine forall_mem_scan (fun s t h hc hq => ?_) _
  rcases first?_form hd h hc hq with hp | hb
  · obtain ⟨m, -, -, hcontent, hopening, -⟩ := id hp
    exact .inl ⟨fun ho => hopening (ho.trans hcontent), hp⟩
  · exact .inr hb

theorem opening_only_in_braces_late :
    Delimiters.braces.Unmarked ∧
      (scan .braces "\x7b\x7ba \x7b\x7bb\x7d\x7d".toList).rest =
        .error (.tag .unclosedTag "\x7b\x7ba \x7b\x7bb\x7d\x7d".toList) ∧
      ∃ e, Template.compile .braces "\x7b\x7ba \x7b\x7bb\x7d\x7d" = .error e := by
  have hd : Delimiters.braces.Unmarked := by decide
  have hrest : (scan .braces "\x7b\x7ba \x7b\x7bb\x7d\x7d".toList).rest =
      .error (.tag .unclosedTag "\x7b\x7ba \x7b\x7bb\x7d\x7d".toList) := by decide +kernel
  obtain ⟨-, -, hcompile⟩ := opening_only_in_braces .braces hd "\x7b\x7ba \x7b\x7bb\x7d\x7d"
  obtain ⟨e, he, -⟩ := hcompile _ hrest
  exact ⟨hd, hrest, e, he⟩

/-- What a tag in braces says is not looked through for opening delimiters. -/
theorem braces_hold_opening :
    (∃ t ∈ (scan .braces "\x7b\x7b\x7ba \x7b\x7bb\x7d\x7d\x7d".toList).tags,
      t.kind ≠ .comment ∧ t.kind ≠ .quoted ∧ Delimiters.braces.opening.toList <:+: t.content) ∧
    (Template.compile .braces "\x7b\x7b\x7ba \x7b\x7bb\x7d\x7d\x7d").toBool = true := by
  decide +kernel

end Tag
end TextTemplate

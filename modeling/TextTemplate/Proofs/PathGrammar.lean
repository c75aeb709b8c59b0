import TextTemplate.Proofs.BracketedPath
import TextTemplate.Proofs.Scanning.Places

/-! A path is read exactly when it is written by the grammar of paths: what leads to its segments,
and the segments with a point or a slash between them. -/

namespace TextTemplate.Path

/-- The characters with a meaning of their own in the segments of a path. -/
def signs : List Char := ['[', ']', '.', '/']

/-- A segment as it is written, and what it holds. -/
inductive SegmentText : List Char → List Char → Prop
  | bare {s : List Char} (hn : s ≠ []) (h : ∀ c ∈ s, c ∉ signs) : SegmentText s s
  | bracketed {s : List Char} (h : ']' ∉ s) : SegmentText ('[' :: (s ++ [']'])) s

/-- Segments with a point or a slash between each two of them. -/
inductive Segments : List Char → List (List Char) → Prop
  | one {w s : List Char} (h : SegmentText w s) : Segments w [s]
  | more {w s r : List Char} {c : Char} {segments : List (List Char)} (h : SegmentText w s)
      (hc : c = '.' ∨ c = '/') (hr : Segments r segments) :
      Segments (w ++ c :: r) (s :: segments)

/-- The `@` of a special name is taken off, where there is one. -/
inductive Marked : List Char → Bool → List Char → Prop
  | special {s : List Char} : Marked ('@' :: s) true s
  | plain {s : List Char} (h : s.head? ≠ some '@') : Marked s false s

/-- As many steps out are taken off as there are; the last one may lack its slash. -/
inductive Leaves : List Char → Nat → List Char → Prop
  | run {n : Nat} {s : List Char} (h : ¬ ['.', '.', '/'] <+: s) (hn : s ≠ ['.', '.']) :
      Leaves (leaveText n ++ s) n s
  | last {n : Nat} : Leaves (leaveText n ++ ['.', '.']) (n + 1) []

/-- One mark of a strict path is taken off, where there is one. -/
inductive Strict : List Char → Bool → List Char → Prop
  | mark {mark s : List Char} (h : mark ∈ strictMarks) : Strict (mark ++ s) true s
  | none {s : List Char} (h : ∀ mark ∈ strictMarks, ¬ mark <+: s) : Strict s false s

/-- What a path begins with, and the rest. -/
structure Lead where
  special : Bool
  depth : Nat
  strict : Bool
  rest : List Char

/-- How a path divides into what it begins with and the rest. -/
def Lead.Of (l : Lead) (s : List Char) : Prop :=
  ∃ t u, Marked s l.special t ∧ Leaves t l.depth u ∧ Strict u l.strict l.rest

def thisText : List Char := ['t', 'h', 'i', 's']

/-- The spellings of the context itself. -/
def contextTexts : List (List Char) := [[], ['.'], thisText]

/-- The first segment has the `@` that the path begins with. -/
def Lead.named (l : Lead) : List (List Char) → List (List Char)
  | first :: others => (if l.special then '@' :: first else first) :: others
  | [] => []

/-- What a segment that is being read was written as so far. -/
def Segment.written : Segment → List Char
  | .bare text => text
  | .bracketed text => '[' :: (text ++ [']'])

/-- A segment that is being read holds nothing that it may not hold. -/
def Segment.Allowed : Segment → Prop
  | .bare text => ∀ c ∈ text, c ∉ signs
  | .bracketed text => ']' ∉ text

section
variable {s w t r whole text : List Char} {segments : List (List Char)} {current : Segment}
  {depth : Nat} {b : Bool} {c : Char} {l m : Lead} {p : Path}

/-! The lead -/

theorem leave_of_not_prefix (h : ¬ ['.', '.', '/'] <+: s) (hn : s ≠ ['.', '.']) :
    leave s = (0, s) := by
  fun_cases leave s with
  | case1 => exact absurd rfl hn
  | case2 s => exact absurd ⟨s, rfl⟩ h
  | case3 => rfl

theorem Leaves.step (h : Leaves s depth t) : Leaves ('.' :: '.' :: '/' :: s) (depth + 1) t := by
  have hcons : ∀ n u, '.' :: '.' :: '/' :: (leaveText n ++ u) = leaveText (n + 1) ++ u := by
    intro n u
    simp [leaveText, List.replicate_succ]
  cases h with
  | run h hn =>
    rw [hcons]
    exact .run h hn
  | last =>
    rw [hcons]
    exact .last

theorem leaves_leave (s : List Char) : Leaves s (leave s).1 (leave s).2 := by
  fun_induction leave s with
  | case1 => exact .last (n := 0)
  | case2 s ih => exact ih.step
  | case3 s hlast hstep =>
    refine .run (n := 0) ?_ hlast
    rintro ⟨r, rfl⟩
    exact hstep r rfl

theorem leaves_iff : Leaves s depth t ↔ leave s = (depth, t) := by
  constructor
  · intro h
    cases h with
    | run h hn => rw [leave_append, leave_of_not_prefix h hn, Nat.add_zero]
    | last =>
      rw [leave_append]
      rfl
  · intro h
    have hleaves := leaves_leave s
    rwa [h] at hleaves

theorem dropStrict_of_none (h : strictMarks.findSome? (Text.after? · s) = none) :
    dropStrict s = (false, s) := by
  rw [strictMarks] at h
  simp only [dropStrict, h]

theorem dropStrict_of_some (h : strictMarks.findSome? (Text.after? · s) = some t) :
    dropStrict s = (true, t) := by
  rw [strictMarks] at h
  simp only [dropStrict, h]

theorem no_mark_iff :
    strictMarks.findSome? (Text.after? · s) = none ↔ ∀ mark ∈ strictMarks, ¬ mark <+: s := by
  simp only [List.findSome?_eq_none_iff, ← Text.isSome_after?_iff, Option.not_isSome_iff_eq_none]

theorem strict_iff : Strict s b t ↔ dropStrict s = (b, t) := by
  constructor
  · intro h
    cases h with
    | mark hm => exact dropStrict_mark hm
    | none hn => exact dropStrict_of_none (no_mark_iff.2 hn)
  · intro h
    cases hfound : strictMarks.findSome? (Text.after? · s) with
    | some rest =>
      rw [dropStrict_of_some hfound] at h
      cases h
      obtain ⟨mark, hm, hr⟩ := List.exists_of_findSome?_eq_some hfound
      rw [Text.after?_eq_some_iff.1 hr]
      exact .mark hm
    | none =>
      rw [dropStrict_of_none hfound] at h
      cases h
      exact .none (no_mark_iff.1 hfound)

theorem exists_marked (s : List Char) : ∃ b t, Marked s b t := by
  by_cases h : s.head? = some '@'
  · obtain ⟨t, rfl⟩ := List.head?_eq_some_iff.1 h
    exact ⟨true, t, .special⟩
  · exact ⟨false, s, .plain h⟩

theorem Marked.unique {b' : Bool} {t' : List Char} (h : Marked s b t) (h' : Marked s b' t') :
    b = b' ∧ t = t' := by
  cases h with
  | special =>
    cases h' with
    | special => exact ⟨rfl, rfl⟩
    | plain h => exact absurd rfl h
  | plain h =>
    cases h' with
    | special => exact absurd rfl h
    | plain _ => exact ⟨rfl, rfl⟩

theorem exists_lead (s : List Char) : ∃ l : Lead, l.Of s := by
  obtain ⟨special, t, hm⟩ := exists_marked s
  let l : Lead := ⟨special, (leave t).1, (dropStrict (leave t).2).1, (dropStrict (leave t).2).2⟩
  exact ⟨l, t, (leave t).2, hm, leaves_leave t, strict_iff.2 rfl⟩

theorem Lead.Of.unique (h : l.Of s) (h' : m.Of s) : m = l := by
  obtain ⟨t, u, hm, hl, hs⟩ := h
  obtain ⟨t', u', hm', hl', hs'⟩ := h'
  obtain ⟨hspecial, rfl⟩ := hm'.unique hm
  have hleave := (leaves_iff.1 hl').symm.trans (leaves_iff.1 hl)
  obtain ⟨hdepth, rfl⟩ := Prod.mk.inj hleave
  have hdrop := (strict_iff.1 hs').symm.trans (strict_iff.1 hs)
  obtain ⟨hstrict, hrest⟩ := Prod.mk.inj hdrop
  cases l
  cases m
  cases hspecial
  cases hdepth
  cases hstrict
  cases hrest
  rfl

/-! The segments -/

theorem segmentsFrom_bare (h : ∀ c ∈ w, c ∉ signs) :
    segmentsFrom whole (.bare text) (w ++ r) = segmentsFrom whole (.bare (text ++ w)) r := by
  induction w generalizing text with
  | nil => rw [List.nil_append, List.append_nil]
  | cons c w ih =>
    have hc := h c (.head _)
    simp only [signs, List.mem_cons, List.not_mem_nil, or_false, not_or] at hc
    obtain ⟨hopen, hclose, hpoint, hslash⟩ := hc
    have hnext : segmentsFrom whole (.bare (text ++ [c])) (w ++ r) =
        segmentsFrom whole (.bare (text ++ [c] ++ w)) r := ih fun d hd => h d (.tail _ hd)
    rw [List.append_assoc, List.singleton_append] at hnext
    rw [List.cons_append, segmentsFrom, if_neg hopen, if_neg hclose,
      if_neg (by simp [hpoint, hslash])]
    exact hnext

theorem SegmentText.exists_current (h : SegmentText w s) (whole : List Char) :
    ∃ current : Segment, current.finish? = some s ∧
      ∀ r, segmentsFrom whole (.bare []) (w ++ r) = segmentsFrom whole current r := by
  cases h with
  | bare hn h =>
    refine ⟨.bare s, ?_, fun r => segmentsFrom_bare h⟩
    rw [Segment.finish?]
    exact hn
  | bracketed h =>
    refine ⟨.bracketed s, rfl, fun r => ?_⟩
    rw [List.cons_append, List.append_assoc, List.singleton_append, segmentsFrom_bracket h]

theorem Segments.segmentsFrom_eq (h : Segments r segments) :
    segmentsFrom whole (.bare []) r = .ok segments := by
  induction h with
  | @one w s h =>
    obtain ⟨current, hfinish, hread⟩ := h.exists_current whole
    rw [← List.append_nil w, hread, segmentsFrom, hfinish]
  | @more w s r c segments h hc _ ih =>
    obtain ⟨current, hfinish, hread⟩ := h.exists_current whole
    rw [hread, segmentsFrom_separator hfinish hc, ih]
    rfl

theorem allowed_nothing : (Segment.bare []).Allowed := fun _ h => absurd h List.not_mem_nil

theorem Segment.Allowed.segmentText (h : current.Allowed) (hs : current.finish? = some s) :
    SegmentText current.written s := by
  cases current with
  | bare text =>
    cases text with
    | nil => cases hs
    | cons c text =>
      cases hs
      exact .bare (List.cons_ne_nil c text) h
  | bracketed text =>
    cases hs
    exact .bracketed h

theorem closing_of_dropWhile {cs : List Char} (h : cs.dropWhile (· ≠ ']') = c :: r) :
    ']' ∉ cs.takeWhile (· ≠ ']') ∧ cs = cs.takeWhile (· ≠ ']') ++ ']' :: r := by
  constructor
  · intro hm
    have hne := List.all_eq_true.1 List.all_takeWhile _ hm
    simp at hne
  · have hc := List.head?_dropWhile_not (· ≠ ']') cs
    rw [h] at hc
    obtain rfl : c = ']' := by simpa using hc
    rw [← h, List.takeWhile_append_dropWhile]

/-- What is read of a text, behind the segment that is being read, is written by the grammar. -/
theorem segments_of_segmentsFrom (hcurrent : current.Allowed)
    (h : segmentsFrom whole current s = .ok segments) :
    Segments (current.written ++ s) segments := by
  fun_induction segmentsFrom whole current s generalizing segments with
  | case1 current s hfinish =>
    cases h
    rw [List.append_nil]
    exact .one (hcurrent.segmentText hfinish)
  | case5 current cs hbare d rest hclose ih =>
    obtain rfl := not_not.1 hbare
    obtain ⟨hallowed, hcs⟩ := closing_of_dropWhile hclose
    have hrest := ih hallowed h
    rw [Segment.written, List.cons_append, List.append_assoc, List.singleton_append, ← hcs] at hrest
    exact hrest
  | case7 current c cs _ _ hc s hfinish ih =>
    cases hmore : segmentsFrom whole (.bare []) cs with
    | error e =>
      rw [hmore] at h
      cases h
    | ok others =>
      rw [hmore] at h
      cases h
      exact .more (hcurrent.segmentText hfinish) hc (ih allowed_nothing hmore)
  | case9 c cs hopen hclose hseparator text ih =>
    have hallowed : (Segment.bare (text ++ [c])).Allowed := by
      intro d hd
      rcases List.mem_append.1 hd with hd | hd
      · exact hcurrent d hd
      · obtain rfl := List.mem_singleton.1 hd
        rw [not_or] at hseparator
        simp [signs, hopen, hclose, hseparator]
    have hrest := ih hallowed h
    rw [Segment.written, List.append_assoc, List.singleton_append] at hrest
    exact hrest
  | case2 | case3 | case4 | case6 | case8 | case10 => cases h

theorem split_eq_ok_iff : split s = .ok segments ↔ Segments s segments := by
  constructor
  · exact segments_of_segmentsFrom allowed_nothing
  · exact Segments.segmentsFrom_eq

theorem Segments.ne_nil (h : Segments s segments) : segments ≠ [] := by
  cases h <;> exact List.cons_ne_nil _ _

/-! The whole path -/

theorem isContext_iff : isContext s = true ↔ s ∈ contextTexts := by
  simp [isContext, contextTexts, thisText, or_assoc]

theorem not_segments_nil : ¬ Segments [] segments := by
  rw [← split_eq_ok_iff, split, segmentsFrom]
  intro h
  cases h

theorem not_segments_point : ¬ Segments ['.'] segments := by
  rw [← split_eq_ok_iff, split, segmentsFrom]
  intro h
  cases h

/-- The name of the context would be a segment too, and is not read as one. -/
theorem endSegments_eq_ok_iff :
    endSegments s = .ok segments ↔
      (s ∈ contextTexts ∧ segments = []) ∨ (s ≠ thisText ∧ Segments s segments) := by
  rw [endSegments]
  by_cases hs : s ∈ contextTexts
  · rw [if_pos (isContext_iff.2 hs)]
    constructor
    · intro h
      cases h
      exact .inl ⟨hs, rfl⟩
    · rintro (⟨-, rfl⟩ | ⟨hn, h⟩)
      · rfl
      · simp only [contextTexts, List.mem_cons, List.not_mem_nil, or_false] at hs
        obtain rfl | rfl | rfl := hs
        · exact absurd h not_segments_nil
        · exact absurd h not_segments_point
        · exact absurd rfl hn
  · have hthis : s ≠ thisText := by
      rintro rfl
      exact hs (by simp [contextTexts])
    rw [if_neg (mt isContext_iff.1 hs), split_eq_ok_iff]
    simp [hs, hthis]

theorem parse_of_lead (h : l.Of s) :
    parse s = (endSegments l.rest).bind fun segments =>
      if l.special = true ∧ segments = [] then .error (.missingSpecialName s)
      else .ok ⟨(l.named segments).map String.ofList, l.depth, l.strict⟩ := by
  obtain ⟨t, u, hmarked, hleaves, hstrict⟩ := h
  have hleave := leaves_iff.1 hleaves
  have hdrop := strict_iff.1 hstrict
  obtain ⟨special, depth, strict, rest⟩ := l
  dsimp only at hmarked hleave hdrop ⊢
  cases hmarked with
  | special =>
    unfold parse
    simp only [hleave, hdrop]
    rw [endSegments]
    cases isContext rest with
    | true => rfl
    | false =>
      cases hsplit : split rest with
      | error e => simp [Except.bind, bind]
      | ok segments => cases segments <;> simp [Except.bind, bind, Lead.named, pure, Except.pure]
  | plain hhead =>
    rw [parse_of_head hhead, hleave]
    simp only [hdrop]
    cases endSegments rest with
    | error e => rfl
    | ok segments => cases segments <;> rfl

theorem parse_eq_ok_iff_end (h : l.Of s) :
    parse s = .ok p ↔
      ∃ segments, endSegments l.rest = .ok segments ∧ (l.special = true → segments ≠ []) ∧
        p = ⟨(l.named segments).map String.ofList, l.depth, l.strict⟩ := by
  rw [parse_of_lead h]
  cases endSegments l.rest with
  | error e => simp [Except.bind]
  | ok segments =>
    by_cases hrefused : l.special = true ∧ segments = []
    · simp [Except.bind, hrefused]
    · have hnamed : l.special = true → segments ≠ [] := fun hs hn => hrefused ⟨hs, hn⟩
      rw [Except.bind, if_neg hrefused]
      constructor
      · intro hp
        cases hp
        exact ⟨segments, rfl, hnamed, rfl⟩
      · rintro ⟨_, hsegments, -, rfl⟩
        cases hsegments
        rfl

theorem parse_eq_ok_iff (h : l.Of s) :
    parse s = .ok p ↔
      p.depth = l.depth ∧ p.strict = l.strict ∧
        ((l.special = false ∧ l.rest ∈ contextTexts ∧ p.segments = []) ∨
          (l.rest ≠ thisText ∧ ∃ segments, Segments l.rest segments ∧
            p.segments = (l.named segments).map String.ofList)) := by
  rw [parse_eq_ok_iff_end h]
  constructor
  · rintro ⟨segments, hend, hnamed, rfl⟩
    refine ⟨rfl, rfl, ?_⟩
    rcases endSegments_eq_ok_iff.1 hend with ⟨hcontext, rfl⟩ | ⟨hthis, hgrammar⟩
    · exact .inl ⟨by simpa using hnamed, hcontext, rfl⟩
    · exact .inr ⟨hthis, segments, hgrammar, rfl⟩
  · obtain ⟨names, depth, strict⟩ := p
    rintro ⟨rfl, rfl, ⟨hplain, hcontext, rfl⟩ | ⟨hthis, segments, hgrammar, rfl⟩⟩
    · exact ⟨[], endSegments_eq_ok_iff.2 (.inl ⟨hcontext, rfl⟩), by simp [hplain], rfl⟩
    · exact ⟨segments, endSegments_eq_ok_iff.2 (.inr ⟨hthis, hgrammar⟩), fun _ => hgrammar.ne_nil,
        rfl⟩

end

/-- A path has one lead and one rest, and is read exactly when the rest is a spelling of the context
without an `@` before it, or is no name of the context and consists of segments by the grammar. What
is read are the steps out, whether there was a mark of a strict path, and what the segments hold. -/
theorem parse_by_grammar (s : List Char) :
    ∃ l : Lead, (∀ m : Lead, m.Of s ↔ m = l) ∧
      ((∃ p, parse s = .ok p) ↔
        (l.special = false ∧ l.rest ∈ contextTexts) ∨
          (l.rest ≠ thisText ∧ ∃ segments, Segments l.rest segments)) ∧
      ∀ p, parse s = .ok p ↔
        p.depth = l.depth ∧ p.strict = l.strict ∧
          ((l.special = false ∧ l.rest ∈ contextTexts ∧ p.segments = []) ∨
            (l.rest ≠ thisText ∧ ∃ segments, Segments l.rest segments ∧
              p.segments = (l.named segments).map String.ofList)) := by
  obtain ⟨l, hl⟩ := exists_lead s
  have honly : ∀ m : Lead, m.Of s ↔ m = l := by
    intro m
    exact ⟨hl.unique, fun h => h ▸ hl⟩
  refine ⟨l, honly, ?_, fun p => parse_eq_ok_iff hl⟩
  constructor
  · rintro ⟨p, hp⟩
    obtain ⟨-, -, ⟨hspecial, hcontext, -⟩ | ⟨hthis, segments, hgrammar, -⟩⟩ :=
      (parse_eq_ok_iff hl).1 hp
    · exact .inl ⟨hspecial, hcontext⟩
    · exact .inr ⟨hthis, segments, hgrammar⟩
  · rintro (⟨hspecial, hcontext⟩ | ⟨hthis, segments, hgrammar⟩)
    · let p : Path := ⟨[], l.depth, l.strict⟩
      exact ⟨p, (parse_eq_ok_iff hl).2 ⟨rfl, rfl, .inl ⟨hspecial, hcontext, rfl⟩⟩⟩
    · let p : Path := ⟨(l.named segments).map String.ofList, l.depth, l.strict⟩
      exact ⟨p, (parse_eq_ok_iff hl).2 ⟨rfl, rfl, .inr ⟨hthis, segments, hgrammar, rfl⟩⟩⟩

/-- The name of the context is a segment by the grammar, and still no name for an `@`. -/
theorem special_context_refused :
    let s := "@this".toList
    let l : Lead := ⟨true, 0, false, thisText⟩
    l.Of s ∧ Segments l.rest [thisText] ∧ parse s = .error (.missingSpecialName s) := by
  intro s l
  have hplain : ∀ c ∈ thisText, c ∉ signs := by simp [thisText, signs]
  have hlead : l.Of s := ⟨thisText, thisText, .special, leaves_iff.2 rfl, strict_iff.2 rfl⟩
  exact ⟨hlead, .one (.bare (by decide) hplain), rfl⟩

end TextTemplate.Path

import TextTemplate.Proofs.Printing.Words

/-! A printed path is one word, and is read back. -/

namespace TextTemplate.Path
variable {σ : PathStyle} {p : Path} {lead r s whole : List Char} {segments : List String}
  {name : String} {c : Char}

/-! The segments -/

theorem segmentsText_cons (separator : Char) (name next : String) (segments : List String) :
    segmentsText separator (name :: next :: segments) =
      bracketed name ++ separator :: segmentsText separator (next :: segments) := by
  simp [segmentsText]

theorem segmentsFrom_bracket (h : ']' ∉ s) :
    segmentsFrom whole (.bare []) ('[' :: (s ++ ']' :: r)) =
      segmentsFrom whole (.bracketed s) r := by
  have htake : (s ++ ']' :: r).takeWhile (· ≠ ']') = s := by
    rw [List.takeWhile_append_of_pos, List.takeWhile_cons_of_neg, List.append_nil]
    · simp
    · intro c hc
      exact decide_eq_true fun he => h (he ▸ hc)
  have hdrop : (s ++ ']' :: r).dropWhile (· ≠ ']') = ']' :: r := by
    rw [List.dropWhile_append_of_pos, List.dropWhile_cons_of_neg]
    · simp
    · intro c hc
      exact decide_eq_true fun he => h (he ▸ hc)
  rw [segmentsFrom, if_pos rfl, if_neg (by simp), htake]
  split
  · rename_i he
    rw [hdrop] at he
    cases he
  · rename_i he
    rw [hdrop] at he
    cases he
    rfl

theorem segmentsFrom_separator {current : Segment} (h : current.finish? = some s)
    (hc : c = '.' ∨ c = '/') :
    segmentsFrom whole current (c :: r) = (segmentsFrom whole (.bare []) r).map (s :: ·) := by
  rw [segmentsFrom.eq_def]
  rcases hc with rfl | rfl <;> simp [h]

theorem segmentsFrom_text (σ : PathStyle) (hn : segments ≠ [])
    (h : ∀ name ∈ segments, ']' ∉ name.toList) :
    segmentsFrom whole (.bare []) (segmentsText σ.separator segments) =
      .ok (segments.map String.toList) := by
  induction segments with
  | nil => exact absurd rfl hn
  | cons name segments ih =>
    have hclose := h name (.head _)
    cases segments with
    | nil =>
      rw [segmentsText, List.flatMap_nil, List.append_nil, bracketed, segmentsFrom_bracket hclose,
        segmentsFrom]
      rfl
    | cons next segments =>
      have hrest := ih (List.cons_ne_nil next segments) fun name hm => h name (.tail _ hm)
      rw [segmentsText_cons, bracketed, List.cons_append, List.append_assoc, List.singleton_append,
        segmentsFrom_bracket hclose, segmentsFrom_separator rfl σ.isSeparator, hrest]
      rfl

theorem split_text (σ : PathStyle) (hn : segments ≠ [])
    (h : ∀ name ∈ segments, ']' ∉ name.toList) :
    split (segmentsText σ.separator segments) = .ok (segments.map String.toList) :=
  segmentsFrom_text σ hn h

/-! What leads to the segments -/

theorem leave_append (n : Nat) (s : List Char) :
    leave (leaveText n ++ s) = (n + (leave s).1, (leave s).2) := by
  induction n with
  | zero => simp [leaveText]
  | succ n ih =>
    have hcons : leaveText (n + 1) ++ s = '.' :: '.' :: '/' :: (leaveText n ++ s) := by
      simp [leaveText, List.replicate_succ]
    rw [hcons, leave, ih]
    congr 1
    omega

theorem dropStrict_append (s : List Char) : dropStrict (strictText true ++ s) = (true, s) := by
  simp [dropStrict, strictText, Text.after?]

theorem endText_cons :
    endText σ lead (name :: segments) = segmentsText σ.separator (name :: segments) :=
  rfl

/-- How the end of a path begins. -/
theorem endText_cases (σ : PathStyle) (lead : List Char) (segments : List String) :
    (segments = [] ∧ (endText σ lead segments = ['.'] ∨
      endText σ lead segments = ['t', 'h', 'i', 's'] ∨
      (lead ≠ [] ∧ endText σ lead segments = []))) ∨
    (segments ≠ [] ∧ ∃ s, endText σ lead segments = '[' :: s) := by
  cases segments with
  | nil =>
    refine .inl ⟨rfl, ?_⟩
    rw [endText]
    cases σ.context with
    | point => exact .inl rfl
    | word => exact .inr (.inl rfl)
    | least =>
      by_cases hl : lead = []
      · exact .inl (if_pos hl)
      · exact .inr (.inr ⟨hl, if_neg hl⟩)
  | cons name segments => exact .inr ⟨List.cons_ne_nil _ _, _, rfl⟩

theorem leave_endText : leave (endText σ lead segments) = (0, endText σ lead segments) := by
  obtain ⟨-, h | h | ⟨-, h⟩⟩ | ⟨-, s, h⟩ := endText_cases σ lead segments <;> rw [h] <;> rfl

theorem dropStrict_endText :
    dropStrict (endText σ lead segments) = (false, endText σ lead segments) := by
  obtain ⟨-, h | h | ⟨-, h⟩⟩ | ⟨-, s, h⟩ := endText_cases σ lead segments <;> rw [h] <;> rfl

theorem isContext_endText : isContext (endText σ lead segments) = segments.isEmpty := by
  obtain ⟨rfl, h | h | ⟨-, h⟩⟩ | ⟨hn, s, h⟩ := endText_cases σ lead segments <;> rw [h]
  · rfl
  · rfl
  · rfl
  · simp [isContext, hn]

/-- The segments of what is left of a path behind its lead. -/
def endSegments (s : List Char) : Except ArgumentError (List (List Char)) :=
  if isContext s then .ok [] else split s

theorem endSegments_endText (h : ∀ name ∈ segments, Bracketable name) :
    endSegments (endText σ lead segments) = .ok (segments.map String.toList) := by
  rw [endSegments, isContext_endText]
  cases segments with
  | nil => rfl
  | cons name segments =>
    exact split_text σ (List.cons_ne_nil name segments) fun next hm => (h next hm).not_mem_close

theorem leave_print (p : Path) :
    leave (p.print σ) = (p.depth, strictText p.strict ++ endText σ p.leadText p.segments) := by
  rw [print, leadText, List.append_assoc, leave_append]
  cases p.strict with
  | true => rfl
  | false =>
    rw [strictText, if_neg (by decide), List.nil_append, leave_endText]
    rfl

theorem dropStrict_text (b : Bool) :
    dropStrict (strictText b ++ endText σ lead segments) = (b, endText σ lead segments) := by
  cases b with
  | true => exact dropStrict_append _
  | false => exact dropStrict_endText

/-- How a printed path begins. -/
theorem print_cases (σ : PathStyle) (p : Path) :
    (∃ s, p.print σ = '.' :: s) ∨ (∃ s, p.print σ = '[' :: s) ∨
      (∃ s, p.print σ = ['t', 'h', 'i', 's'] ++ s ∧ ∀ c ∈ s.head?, c = '/') := by
  rw [print, leadText]
  cases p.depth with
  | succ n => exact .inl ⟨_, rfl⟩
  | zero =>
    cases p.strict with
    | true =>
      refine .inr (.inr ⟨'/' :: endText σ _ p.segments, rfl, ?_⟩)
      intro c hc
      exact (Option.some.inj hc).symm
    | false =>
      obtain ⟨-, h | h | ⟨hl, h⟩⟩ | ⟨-, s, h⟩ :=
        endText_cases σ (leaveText 0 ++ strictText false) p.segments <;> rw [h]
      · exact .inl ⟨[], rfl⟩
      · refine .inr (.inr ⟨[], rfl, ?_⟩)
        intro c hc
        cases hc
      · exact absurd rfl hl
      · exact .inr (.inl ⟨s, rfl⟩)

theorem parse_of_head (h : s.head? ≠ some '@') :
    parse s = (endSegments (dropStrict (leave s).2).2).map fun segments =>
      ⟨segments.map String.ofList, (leave s).1, (dropStrict (leave s).2).1⟩ := by
  unfold parse
  split
  rename_i special rest hm
  split at hm
  · exact absurd rfl h
  · cases hm
    dsimp only
    rw [endSegments]
    cases isContext (dropStrict (leave s).2).2 with
    | true => rfl
    | false => cases split (dropStrict (leave s).2).2 <;> rfl

theorem parse_written (hp : p.Printable) : parse (p.print σ) = .ok p := by
  have hhead : (p.print σ).head? ≠ some '@' := by
    obtain ⟨s, h⟩ | ⟨s, h⟩ | ⟨s, h, -⟩ := print_cases σ p <;> rw [h] <;> simp
  rw [parse_of_head hhead, leave_print, dropStrict_text, endSegments_endText hp]
  simp [Except.map, Function.comp_def]

/-! The whole path as one word -/

/-- The characters of a printed path that stand outside brackets. -/
def plainChars : List Char := ['.', '/', 't', 'h', 'i', 's']

theorem mem_plainChars_of_mem_leadText (h : c ∈ p.leadText) : c ∈ plainChars := by
  rw [leadText, List.mem_append] at h
  rcases h with h | h
  · obtain ⟨s, hs, hc⟩ := List.mem_flatten.1 h
    obtain rfl := (List.mem_replicate.1 hs).2
    have hstep : ['.', '.', '/'] ⊆ plainChars := by decide
    exact hstep hc
  · cases hs : p.strict with
    | true =>
      have hmark : strictText true ⊆ plainChars := by decide
      rw [hs] at h
      exact hmark h
    | false =>
      rw [hs] at h
      cases h

theorem mem_plainChars_of_mem_context {mark : ContextMark} (h : c ∈ mark.text lead) :
    c ∈ plainChars := by
  cases mark with
  | point => exact List.mem_cons.2 (.inl (List.mem_singleton.1 h))
  | word =>
    have hword : ['t', 'h', 'i', 's'] ⊆ plainChars := by decide
    exact hword h
  | least =>
    rw [ContextMark.text] at h
    split at h
    · exact List.mem_cons.2 (.inl (List.mem_singleton.1 h))
    · cases h

/-- What goes over plain characters and over brackets goes over a path. -/
theorem passes_print {f : List Char → Option (List Char × List Char)}
    (hplain : ∀ c ∈ plainChars, Token.Passes f [c])
    (hsegment : ∀ name, Bracketable name → Token.Passes f (bracketed name)) (hp : p.Printable) :
    Token.Passes f (p.print σ) := by
  have hlead : Token.Passes f p.leadText :=
    .of_forall fun c hc => hplain c (mem_plainChars_of_mem_leadText hc)
  rw [print]
  apply hlead.append
  rw [Printable] at hp
  cases hs : p.segments with
  | nil => exact .of_forall fun c hc => hplain c (mem_plainChars_of_mem_context hc)
  | cons name segments =>
    have hseparator : σ.separator ∈ plainChars := by
      rcases σ.isSeparator with h | h <;> rw [h] <;> decide
    rw [hs] at hp
    have hfirst := hsegment name (hp name (.head _))
    refine hfirst.append (.flatMap fun next hm => ?_)
    exact (hplain _ hseparator).append (hsegment next (hp next (.tail _ hm)))

theorem wordlike_print (hp : p.Printable) : Token.Wordlike (p.print σ) := by
  refine passes_print ?_ (fun name hn => Token.wordlike_bracketed hn) hp
  intro c hc
  apply Token.wordlike_of_forall
  intro d hd
  obtain rfl := List.mem_singleton.1 hd
  revert d
  exact forall_mem_of_all (by decide)

theorem balanced_print (hp : p.Printable) : Token.Balanced (p.print σ) := by
  intro n hn
  refine passes_print ?_ (fun name hname => Token.balanced_bracketed hname n hn) hp
  intro c hc
  refine Token.balanced_singleton ?_ n hn
  revert c
  exact forall_mem_of_all (by decide)

theorem isBlank_of_mem_plainChars (h : c ∈ plainChars) : Text.isBlank c = false := by
  have hall : ∀ d ∈ plainChars, Text.isBlank d = false := forall_mem_of_all (by decide)
  exact hall c h

theorem solid_segmentsText (hn : segments ≠ []) :
    Text.Solid (segmentsText σ.separator segments) := by
  induction segments with
  | nil => exact absurd rfl hn
  | cons name segments ih =>
    have hname : Text.Solid (bracketed name) := .enclosed (by decide) (by decide)
    cases segments with
    | nil =>
      rw [segmentsText, List.flatMap_nil, List.append_nil]
      exact hname
    | cons next segments =>
      rw [segmentsText_cons, List.append_cons]
      exact hname.append (ih (List.cons_ne_nil next segments))

theorem print_ne_nil (σ : PathStyle) (p : Path) : p.print σ ≠ [] := by
  obtain ⟨s, h⟩ | ⟨s, h⟩ | ⟨s, h, -⟩ := print_cases σ p <;> rw [h] <;> simp

theorem solid_print (σ : PathStyle) (p : Path) : Text.Solid (p.print σ) := by
  have hlead : ∀ c ∈ p.leadText, Text.isBlank c = false := fun c hc =>
    isBlank_of_mem_plainChars (mem_plainChars_of_mem_leadText hc)
  cases hs : p.segments with
  | nil =>
    apply Text.Solid.of_forall (print_ne_nil σ p)
    intro c hc
    rw [print, hs, List.mem_append] at hc
    rcases hc with hc | hc
    · exact hlead c hc
    · exact isBlank_of_mem_plainChars (mem_plainChars_of_mem_context hc)
  | cons name segments =>
    have hend : Text.Solid (segmentsText σ.separator (name :: segments)) :=
      solid_segmentsText (List.cons_ne_nil name segments)
    rw [print, hs, endText_cons]
    by_cases hl : p.leadText = []
    · rw [hl, List.nil_append]
      exact hend
    · have hsolid := (Text.Solid.of_forall hl hlead).append (s := []) hend
      rwa [List.append_nil] at hsolid

theorem readAs_print (hp : p.Printable) : Token.ReadAs (p.print σ) .word (p.print σ) := by
  apply readAs_word (wordlike_print hp) (solid_print σ p)
  · obtain ⟨s, h⟩ | ⟨s, h⟩ | ⟨s, h, -⟩ := print_cases σ p <;> rw [h] <;> simp
  · intro r hr
    obtain ⟨s, h⟩ | ⟨s, h⟩ | ⟨s, h, hs⟩ := print_cases σ p <;> rw [h]
    · apply Token.splitKey_of_word (w := []) (by simp)
      intro c hc
      cases hc
      exact ⟨by decide +kernel, by decide⟩
    · apply Token.splitKey_of_word (w := []) (by simp)
      intro c hc
      cases hc
      exact ⟨by decide +kernel, by decide⟩
    · -- The word `this` could be a key, but what follows it is no sign of one.
      rw [List.append_assoc]
      apply Token.splitKey_of_word
      · exact forall_mem_of_all (by decide)
      · intro c hc
        cases s with
        | nil =>
          cases hr c hc
          exact ⟨Token.isKeyChar_space, by decide⟩
        | cons d s =>
          cases hs d rfl
          cases hc
          exact ⟨by decide +kernel, by decide⟩

theorem ofWord_print (hp : p.Printable) : Reference.ofWord (p.print σ) = .ok (.path p) := by
  have hconst : p.print σ ≠ ['t', 'r', 'u', 'e'] ∧ p.print σ ≠ ['f', 'a', 'l', 's', 'e'] ∧
      p.print σ ≠ ['n', 'u', 'l', 'l'] := by
    obtain ⟨s, h⟩ | ⟨s, h⟩ | ⟨s, h, -⟩ := print_cases σ p <;> rw [h] <;> simp
  have hnumber : Number.ofNumeral? (p.print σ) = none := by
    obtain ⟨s, h⟩ | ⟨s, h⟩ | ⟨s, h, -⟩ := print_cases σ p <;> rw [h] <;> simp [Number.ofNumeral?]
  obtain ⟨htrue, hfalse, hnull⟩ := hconst
  rw [Reference.ofWord, if_neg htrue, if_neg hfalse, if_neg hnull, hnumber, parse_written hp]
  rfl

end TextTemplate.Path

import TextTemplate.Proofs.Scanning.Places
import TextTemplate.Tag.Markup

/-! Where the first tag of a text stands, and where it ends. -/

namespace TextTemplate

/-- Neither delimiter holds a backslash or a tilde. -/
def Delimiters.Unmarked (d : Delimiters) : Prop :=
  ∀ c ∈ d.opening.toList ++ d.closing.toList, c ≠ '\\' ∧ c ≠ '~'

instance (d : Delimiters) : Decidable d.Unmarked :=
  List.decidableBAll (fun c => c ≠ '\\' ∧ c ≠ '~') (d.opening.toList ++ d.closing.toList)

def startsTilde : List Char → Bool
  | '~' :: _ => true
  | _ => false

/-- What stands behind a tilde, if the text starts with one. -/
def afterTilde : List Char → List Char
  | '~' :: s => s
  | s => s

/-- In the text `v` behind an opening delimiter and its tilde, the enclosure starts, and `i`
characters on it ends, with the tag. -/
def Closes (d : Delimiters) (e : Enclosure) (v : List Char) (i : Nat) : Prop :=
  e.opening <+: v ∧ e.opening.length ≤ i ∧
    ∃ b, OccursAt (e.closing ++ Markup.tilde b ++ d.closing.toList) v i

/-- How a tag is written, given the text `u` behind its opening delimiter. An enclosure that is
closed somewhere ends, with the tag, at the first such place; any other tag ends with the first
closing delimiter. -/
inductive Extent (d : Delimiters) (u : List Char) : List Char → Prop
  | enclosed {e : Enclosure} {b : Bool} {i : Nat} (he : e ≠ .plain)
      (hi : IsLeast {i | Closes d e (afterTilde u) i} i)
      (hb : OccursAt (e.closing ++ Markup.tilde b ++ d.closing.toList) (afterTilde u) i) :
      Extent d u (d.opening.toList ++ Markup.tilde (startsTilde u) ++ (afterTilde u).take i ++
        (e.closing ++ Markup.tilde b ++ d.closing.toList))
  | plain {i : Nat} (hn : ∀ e i, e ≠ .plain → ¬ Closes d e (afterTilde u) i)
      (hi : IsLeast {i | OccursAt d.closing.toList u i} i) :
      Extent d u (d.opening.toList ++ u.take i ++ d.closing.toList)

section
variable {d : Delimiters} {w s u : List Char}

theorem tilde_append_afterTilde (u : List Char) :
    Markup.tilde (startsTilde u) ++ afterTilde u = u := by
  rw [startsTilde.eq_def, afterTilde.eq_def]
  split <;> rfl

theorem startsTilde_eq_false (hw : w ≠ []) (h : '~' ∉ w) (hu : w <+: u) :
    startsTilde u = false := by
  obtain ⟨r, rfl⟩ := hu
  cases w with
  | nil => exact absurd rfl hw
  | cons c w =>
    rw [startsTilde.eq_def]
    split
    · rename_i heq
      cases heq
      simp at h
    · rfl

/-- What holds no tilde and stands in a text stands behind its tilde. -/
theorem exists_occursAt_afterTilde {i : Nat} (hw : w ≠ []) (h : '~' ∉ w) (ho : OccursAt w u i) :
    ∃ j, i = (Markup.tilde (startsTilde u)).length + j ∧ OccursAt w (afterTilde u) j := by
  cases hu : startsTilde u with
  | false =>
    have hv := tilde_append_afterTilde u
    rw [hu] at hv
    refine ⟨i, (Nat.zero_add i).symm, ?_⟩
    rw [← hv] at ho
    exact ho
  | true =>
    have hv := tilde_append_afterTilde u
    rw [hu] at hv
    cases i with
    | zero =>
      have ho : w <+: u := ho
      have hs := startsTilde_eq_false hw h ho
      rw [hu] at hs
      cases hs
    | succ i =>
      refine ⟨i, Nat.add_comm i 1, ?_⟩
      rw [← hv] at ho
      exact ho

theorem Delimiters.Unmarked.tilde_notMem_closing (hd : d.Unmarked) : '~' ∉ d.closing.toList :=
  fun h => (hd '~' (List.mem_append_right _ h)).2 rfl

theorem Delimiters.Unmarked.tilde_notMem_opening (hd : d.Unmarked) : '~' ∉ d.opening.toList :=
  fun h => (hd '~' (List.mem_append_left _ h)).2 rfl

theorem Delimiters.Unmarked.backslash_notMem_opening (hd : d.Unmarked) :
    '\\' ∉ d.opening.toList :=
  fun h => (hd '\\' (List.mem_append_left _ h)).1 rfl

theorem Delimiters.opening_toList_ne (d : Delimiters) : d.opening.toList ≠ [] := by
  simpa using d.opening_ne

theorem Delimiters.closing_toList_ne (d : Delimiters) : d.closing.toList ≠ [] := by
  simpa using d.closing_ne

end

namespace Markup
variable {d : Delimiters} {e : Enclosure} {b : Bool} {s u r : List Char} {m : Markup}

theorem isSome_afterEnd?_iff :
    (afterEnd? d e s).isSome ↔ ∃ b, e.closing ++ tilde b ++ d.closing.toList <+: s := by
  constructor
  · intro h
    obtain ⟨⟨b, r⟩, hr⟩ := Option.isSome_iff_exists.1 h
    exact ⟨b, r, (afterEnd?_eq_some hr).symm⟩
  · rintro ⟨b, r, rfl⟩
    have hc : Text.after? e.closing (e.closing ++ tilde b ++ d.closing.toList ++ r) =
        some (tilde b ++ d.closing.toList ++ r) := by
      rw [Text.after?_eq_some_iff]
      simp only [List.append_assoc]
    have hb : Text.after? (tilde b ++ d.closing.toList) (tilde b ++ d.closing.toList ++ r) =
        some r := Text.after?_eq_some_iff.2 rfl
    rw [afterEnd?, hc]
    simp only [bind, Option.bind_some, List.findSome?_isSome_iff, Option.isSome_map]
    exact ⟨b, by cases b <;> simp, by rw [hb]; rfl⟩

theorem closes_iff (s : List Char) (i : Nat) :
    Closes d e (e.opening ++ s) (e.opening.length + i) ↔ (afterEnd? d e (s.drop i)).isSome := by
  rw [isSome_afterEnd?_iff, Closes]
  simp only [OccursAt.append_left_iff, List.prefix_append, Nat.le_add_right, true_and]
  rfl

theorem readAs?_append (d : Delimiters) (b : Bool) (e : Enclosure) (s : List Char) :
    readAs? d b e (d.opening.toList ++ tilde b ++ e.opening ++ s) =
      (Text.upTo (afterEnd? d e) s).map fun (inside, b', r) => (⟨b, e, inside, b'⟩, r) := by
  have h : Text.after? (d.opening.toList ++ tilde b ++ e.opening)
      (d.opening.toList ++ tilde b ++ e.opening ++ s) = some s := Text.after?_eq_some_iff.2 rfl
  rw [readAs?, h]
  simp only [bind, Option.bind_some]
  cases Text.upTo (afterEnd? d e) s <;> rfl

theorem exists_of_isSome_readAs? (h : (readAs? d b e s).isSome) :
    ∃ t, s = d.opening.toList ++ tilde b ++ e.opening ++ t := by
  obtain ⟨⟨m, r⟩, hm⟩ := Option.isSome_iff_exists.1 h
  simp only [readAs?, bind, Option.bind_eq_some_iff] at hm
  obtain ⟨t, ht, -⟩ := hm
  exact ⟨t, Text.after?_eq_some_iff.1 ht⟩

/-- A tag of one enclosure is read exactly when it is closed somewhere. -/
theorem isSome_readAs?_iff (v : List Char) :
    (readAs? d b e (d.opening.toList ++ tilde b ++ v)).isSome ↔ ∃ i, Closes d e v i := by
  constructor
  · intro h
    obtain ⟨t, ht⟩ := exists_of_isSome_readAs? h
    rw [List.append_assoc _ e.opening t] at ht
    obtain rfl := List.append_cancel_left ht
    rw [← List.append_assoc, readAs?_append, Option.isSome_map] at h
    obtain ⟨⟨w, a⟩, hw⟩ := Option.isSome_iff_exists.1 h
    obtain ⟨ha, -⟩ := Text.upTo_isLeast hw
    exact ⟨_, (closes_iff t w.length).2 (Option.isSome_of_eq_some ha)⟩
  · rintro ⟨i, hi⟩
    obtain ⟨⟨t, rfl⟩, hle, -⟩ := id hi
    obtain ⟨j, rfl⟩ := Nat.exists_eq_add_of_le hle
    have hj := (closes_iff t j).1 hi
    rw [← List.append_assoc, readAs?_append, Option.isSome_map]
    cases hu : Text.upTo (afterEnd? d e) t with
    | some a => rfl
    | none =>
      rw [Text.upTo_eq_none_iff.1 hu j] at hj
      cases hj

/-- It ends at the first place where it is closed. -/
theorem readAs?_isLeast {v : List Char}
    (h : readAs? d b e (d.opening.toList ++ tilde b ++ v) = some (m, r)) :
    m.trimsBefore = b ∧ m.enclosure = e ∧
      IsLeast {i | Closes d e v i} (e.opening.length + m.inside.length) := by
  obtain ⟨t, ht⟩ := exists_of_isSome_readAs? (Option.isSome_of_eq_some h)
  rw [List.append_assoc _ e.opening t] at ht
  obtain rfl := List.append_cancel_left ht
  rw [← List.append_assoc, readAs?_append] at h
  obtain ⟨⟨inside, b', r'⟩, hu, he⟩ := Option.map_eq_some_iff.1 h
  cases he
  obtain ⟨ha, -, hleast⟩ := Text.upTo_isLeast hu
  refine ⟨rfl, rfl, (closes_iff t _).2 (Option.isSome_of_eq_some ha), ?_⟩
  intro i hi
  obtain ⟨j, rfl⟩ := Nat.exists_eq_add_of_le hi.2.1
  have hj := hleast ((closes_iff t j).1 hi)
  exact Nat.add_le_add_left hj _

/-- What the text behind an opening delimiter says of the tag. -/
structure Reads (d : Delimiters) (u : List Char) (m : Markup) : Prop where
  trimsBefore : m.trimsBefore = startsTilde u
  least : IsLeast {i | Closes d m.enclosure (afterTilde u) i}
    (m.enclosure.opening.length + m.inside.length)
  unclosed : m.enclosure = .plain → ∀ e i, e ≠ .plain → ¬ Closes d e (afterTilde u) i

theorem closes_plain_iff {v : List Char} {i : Nat} :
    Closes d .plain v i ↔ ∃ b, OccursAt (tilde b ++ d.closing.toList) v i := by
  simp [Closes, Enclosure.opening, Enclosure.closing]

theorem exists_closes_plain_iff {v : List Char} :
    (∃ i, Closes d .plain v i) ↔ d.closing.toList <:+: v := by
  rw [infix_iff_exists_occursAt]
  constructor
  · rintro ⟨i, hi⟩
    obtain ⟨b, hb⟩ := closes_plain_iff.1 hi
    exact ⟨_, hb.of_append⟩
  · rintro ⟨i, hi⟩
    exact ⟨i, closes_plain_iff.2 ⟨false, hi⟩⟩

theorem isInfix_of_closes {v : List Char} {i : Nat} (h : Closes d e v i) :
    d.closing.toList <:+: v := by
  obtain ⟨-, -, b, hb⟩ := h
  exact hb.of_append.isInfix

/-- The enclosures in the order in which they are tried. -/
def readEnclosed? (d : Delimiters) (b : Bool) (s : List Char) : Option (Markup × List Char) :=
  [.dashes, .braces, .plain].findSome? fun e => readAs? d b e s

theorem readEnclosed?_eq_none_iff (v : List Char) :
    readEnclosed? d b (d.opening.toList ++ tilde b ++ v) = none ↔ ¬ d.closing.toList <:+: v := by
  simp only [readEnclosed?, List.findSome?_eq_none_iff]
  constructor
  · intro h hc
    obtain ⟨i, hi⟩ := exists_closes_plain_iff.2 hc
    have hs := (isSome_readAs?_iff (b := b) v).2 ⟨i, hi⟩
    rw [h .plain (by simp)] at hs
    cases hs
  · intro h e _
    rw [← Option.not_isSome_iff_eq_none, isSome_readAs?_iff]
    rintro ⟨i, hi⟩
    exact h (isInfix_of_closes hi)

theorem readEnclosed?_false_eq_none_iff :
    readEnclosed? d false (d.opening.toList ++ u) = none ↔ ¬ d.closing.toList <:+: u := by
  have h := readEnclosed?_eq_none_iff (d := d) (b := false) u
  rwa [tilde, if_neg Bool.false_ne_true, List.append_nil] at h

/-- The inside of the first enclosure that is closed somewhere. -/
theorem readEnclosed?_eq_some {v : List Char}
    (h : readEnclosed? d b (d.opening.toList ++ tilde b ++ v) = some (m, r)) :
    m.trimsBefore = b ∧
      IsLeast {i | Closes d m.enclosure v i} (m.enclosure.opening.length + m.inside.length) ∧
      (m.enclosure = .plain → ∀ e i, e ≠ .plain → ¬ Closes d e v i) := by
  obtain ⟨tried, e, rest, hl, he, hn⟩ := List.findSome?_eq_some_iff.1 h
  obtain ⟨hb, rfl, hleast⟩ := readAs?_isLeast he
  refine ⟨hb, hleast, ?_⟩
  intro hp e i hne hc
  have htried : e ∈ tried := by
    rw [hp] at hl
    rcases tried with _ | ⟨e₁, _ | ⟨e₂, _ | ⟨e₃, tried⟩⟩⟩ <;> simp at hl
    obtain ⟨rfl, rfl, -⟩ := hl
    cases e with
    | plain => exact absurd rfl hne
    | braces | dashes => simp
  have hs := (isSome_readAs?_iff (b := b) v).2 ⟨i, hc⟩
  rw [hn e htried] at hs
  cases hs

theorem readEnclosed?_eq_none_of_not_opening (h : ¬ d.opening.toList ++ tilde b <+: s) :
    readEnclosed? d b s = none := by
  simp only [readEnclosed?, List.findSome?_eq_none_iff]
  intro e _
  rw [← Option.not_isSome_iff_eq_none]
  intro hs
  obtain ⟨t, rfl⟩ := exists_of_isSome_readAs? hs
  apply h
  rw [List.append_assoc _ e.opening]
  exact List.prefix_append _ _

theorem read?_eq (s : List Char) :
    read? d s = (readEnclosed? d true s).or (readEnclosed? d false s) := by
  change [true, false].findSome? (fun b => readEnclosed? d b s) = _
  rw [List.findSome?_cons]
  cases readEnclosed? d true s with
  | some x => rfl
  | none =>
    rw [List.findSome?_cons]
    cases readEnclosed? d false s <;> rfl

/-- With unmarked delimiters a tilde behind the opening one always belongs to it. -/
theorem read?_append (hd : d.Unmarked) (u : List Char) :
    read? d (d.opening.toList ++ u) = readEnclosed? d (startsTilde u) (d.opening.toList ++ u) := by
  rw [read?_eq]
  cases hu : startsTilde u with
  | false =>
    have hn : ¬ d.opening.toList ++ tilde true <+: d.opening.toList ++ u := by
      rw [List.prefix_append_right_inj]
      rintro ⟨r, rfl⟩
      cases hu
    rw [readEnclosed?_eq_none_of_not_opening hn, Option.none_or]
  | true =>
    cases ht : readEnclosed? d true (d.opening.toList ++ u) with
    | some x => rfl
    | none =>
      -- without the tilde no more can be read: the closing delimiter does not start with one
      have hv := tilde_append_afterTilde u
      rw [hu] at hv
      have hc : ¬ d.closing.toList <:+: afterTilde u := by
        rw [← readEnclosed?_eq_none_iff (b := true), List.append_assoc, hv]
        exact ht
      rw [Option.none_or]
      refine readEnclosed?_false_eq_none_iff.2 ?_
      intro hcu
      rw [← hv] at hcu
      rcases List.infix_cons_iff.1 hcu with hp | hi
      · have hs := startsTilde_eq_false d.closing_toList_ne hd.tilde_notMem_closing hp
        cases hs
      · exact hc hi

theorem isSome_read?_iff (u : List Char) :
    (read? d (d.opening.toList ++ u)).isSome ↔ d.closing.toList <:+: u := by
  rw [read?_eq, ← not_iff_not, Option.not_isSome_iff_eq_none, Option.or_eq_none_iff,
    readEnclosed?_false_eq_none_iff]
  constructor
  · exact fun h => h.2
  · intro h
    refine ⟨?_, h⟩
    by_cases hp : d.opening.toList ++ tilde true <+: d.opening.toList ++ u
    · obtain ⟨v, rfl⟩ := (List.prefix_append_right_inj _).1 hp
      rw [← List.append_assoc, readEnclosed?_eq_none_iff]
      exact fun hc => h (hc.trans (List.suffix_append _ v).isInfix)
    · exact readEnclosed?_eq_none_of_not_opening hp

theorem read?_reads (hd : d.Unmarked) (h : read? d (d.opening.toList ++ u) = some (m, r)) :
    Reads d u m := by
  rw [read?_append hd] at h
  have hu := tilde_append_afterTilde u
  rw [← hu, ← List.append_assoc, hu] at h
  obtain ⟨hb, hl, hn⟩ := readEnclosed?_eq_some h
  exact ⟨hb, hl, hn⟩

/-- The text behind the opening delimiter and its tilde. -/
theorem Reads.afterTilde_eq (h : Reads d u m) (hs : d.opening.toList ++ u = m.text d ++ r) :
    afterTilde u = m.enclosure.opening ++ m.inside ++
      (m.enclosure.closing ++ tilde m.trimsAfter ++ d.closing.toList ++ r) := by
  rw [← tilde_append_afterTilde u, text, h.trimsBefore] at hs
  simp only [List.append_assoc, List.append_cancel_left_eq] at hs ⊢
  exact hs

theorem Reads.plain_eq (h : Reads d u m) (hp : m.enclosure = .plain)
    (hs : d.opening.toList ++ u = m.text d ++ r) :
    tilde (startsTilde u) ++ m.inside ++ tilde m.trimsAfter ++ (d.closing.toList ++ r) = u := by
  have hu := tilde_append_afterTilde u
  rw [h.afterTilde_eq hs, hp] at hu
  simp only [Enclosure.opening, Enclosure.closing, List.nil_append, List.append_assoc] at hu ⊢
  exact hu

/-- What stands before the end of a plain tag is its inside, tildes apart. -/
theorem Reads.take_eq (h : Reads d u m) (hp : m.enclosure = .plain)
    (hs : d.opening.toList ++ u = m.text d ++ r) :
    u.take (tilde (startsTilde u) ++ m.inside ++ tilde m.trimsAfter).length =
      tilde (startsTilde u) ++ m.inside ++ tilde m.trimsAfter := by
  have ht := congrArg (List.take (tilde (startsTilde u) ++ m.inside ++ tilde m.trimsAfter).length)
    (h.plain_eq hp hs)
  rw [List.take_left] at ht
  exact ht.symm

/-- No closing delimiter stands before the end of a plain tag. -/
theorem Reads.isLeast_closing (hd : d.Unmarked) (h : Reads d u m) (hp : m.enclosure = .plain)
    (hs : d.opening.toList ++ u = m.text d ++ r) :
    IsLeast {i | OccursAt d.closing.toList u i}
      (tilde (startsTilde u) ++ m.inside ++ tilde m.trimsAfter).length := by
  have hv := h.afterTilde_eq hs
  obtain ⟨-, hleast⟩ := h.least
  simp only [hp, Enclosure.opening, Enclosure.closing, List.nil_append, List.length_nil,
    Nat.zero_add] at hv hleast
  constructor
  · have ho := OccursAt.append (tilde (startsTilde u) ++ m.inside ++ tilde m.trimsAfter)
      d.closing.toList r
    rw [h.plain_eq hp hs] at ho
    exact ho
  · intro i hi
    obtain ⟨j, rfl, hj⟩ :=
      exists_occursAt_afterTilde d.closing_toList_ne hd.tilde_notMem_closing hi
    have hij := hleast (closes_plain_iff.2 ⟨false, hj⟩)
    cases ha : m.trimsAfter with
    | false =>
      simp only [tilde, Bool.false_eq_true, if_false, List.append_nil, List.length_append]
      omega
    | true =>
      -- what stands behind the inside is the tilde, so that the delimiter comes later
      have hne : m.inside.length ≠ j := by
        rintro rfl
        rw [hv, ha] at hj
        have hp := OccursAt.append_left_iff (i := 0).1 hj
        have hs := startsTilde_eq_false d.closing_toList_ne hd.tilde_notMem_closing hp
        cases hs
      simp only [tilde, if_true, List.length_append, List.length_singleton]
      omega

/-- The text of a tag that is read does not depend on how it is read. -/
theorem Reads.extent (hd : d.Unmarked) (h : Reads d u m)
    (hs : d.opening.toList ++ u = m.text d ++ r) : Extent d u (m.text d) := by
  have hv := h.afterTilde_eq hs
  by_cases hp : m.enclosure = .plain
  · have hl := h.isLeast_closing hd hp hs
    have he := Extent.plain (h.unclosed hp) hl
    rw [h.take_eq hp hs] at he
    rw [text, h.trimsBefore, hp]
    simpa [Enclosure.opening, Enclosure.closing] using he
  · have ho : OccursAt (m.enclosure.closing ++ tilde m.trimsAfter ++ d.closing.toList)
        (afterTilde u) (m.enclosure.opening.length + m.inside.length) := by
      rw [hv, ← List.length_append]
      exact OccursAt.append _ _ r
    have he := Extent.enclosed hp h.least ho
    have ht : (afterTilde u).take (m.enclosure.opening.length + m.inside.length) =
        m.enclosure.opening ++ m.inside := by
      rw [hv, ← List.length_append, List.take_left]
    rw [ht] at he
    rw [text, h.trimsBefore]
    simpa using he

end Markup
end TextTemplate

import Mathlib.Order.Bounds.Basic
import TextTemplate.ParseError

/-! The excerpts that error messages quote: the longest pieces of whole characters that fit. They
are found by going from a fixed byte index to the next one between two characters. -/

namespace TextTemplate.Text
variable {s t p q r u : List Char} {c : Char} {n i j : Nat}

/-- The bytes that a text takes in UTF-8. -/
def byteSize (s : List Char) : Nat := (String.ofList s).utf8ByteSize

/-- The bytes of the text may be cut at this index: it is an end of the text, or stands between two
characters. -/
def Boundary (s : List Char) (i : Nat) : Prop := String.Pos.Raw.IsValid (String.ofList s) ⟨i⟩

/-- The longest piece at the end of a text that fits. -/
structure IsLongestEnd (n : Nat) (s t : List Char) : Prop where
  suffix : t <:+ s
  fits : byteSize t ≤ n
  longest : ∀ u, u <:+ s → byteSize u ≤ n → u <:+ t

/-- The longest piece at the start of a text that fits. -/
structure IsLongestStart (n : Nat) (s t : List Char) : Prop where
  isPrefix : t <+: s
  fits : byteSize t ≤ n
  longest : ∀ u, u <+: s → byteSize u ≤ n → u <+: t

/-- One byte on. -/
def Up (i j : Nat) : Prop := j = i + 1

/-- One byte back. -/
def Down (i j : Nat) : Prop := i = j + 1

/-- The loop that goes from index to index until it comes to a boundary. -/
inductive Search (s : List Char) (step : Nat → Nat → Prop) : Nat → Nat → Prop
  | stop {i : Nat} (here : Boundary s i) : Search s step i i
  | turn {i j k : Nat} (here : ¬ Boundary s i) (next : step i j) (rest : Search s step j k) :
      Search s step i k

/-- A text that fits is left whole. Of any other, the piece is behind the boundary that is found on
the way up from `n` bytes before the end. -/
inductive CutAtEnd (n : Nat) (s : List Char) : List Char → Prop
  | whole (h : byteSize s ≤ n) : CutAtEnd n s s
  | behind {p t : List Char} (h : n < byteSize s) (parts : s = p ++ t)
      (search : Search s Up (byteSize s - n) (byteSize p)) : CutAtEnd n s t

/-- A text that fits is left whole. Of any other, the piece is before the boundary that is found on
the way down from `n` bytes behind the start. -/
inductive CutAtStart (n : Nat) (s : List Char) : List Char → Prop
  | whole (h : byteSize s ≤ n) : CutAtStart n s s
  | before {t r : List Char} (h : n < byteSize s) (parts : s = t ++ r)
      (search : Search s Down n (byteSize t)) : CutAtStart n s t

/-! Bytes -/

@[simp]
theorem byteSize_nil : byteSize [] = 0 := rfl

@[simp]
theorem byteSize_append (s t : List Char) : byteSize (s ++ t) = byteSize s + byteSize t := by
  rw [byteSize, String.ofList_append, String.utf8ByteSize_append]
  rfl

@[simp]
theorem byteSize_cons (c : Char) (s : List Char) : byteSize (c :: s) = c.utf8Size + byteSize s := by
  rw [byteSize, String.ofList_cons, String.utf8ByteSize_append, String.utf8ByteSize_singleton]
  rfl

@[simp]
theorem byteSize_reverse (s : List Char) : byteSize s.reverse = byteSize s := by
  induction s with
  | nil => rfl
  | cons c s ih => simp [ih, Nat.add_comm]

theorem eq_nil_of_byteSize (h : byteSize s = 0) : s = [] := by
  cases s with
  | nil => rfl
  | cons c s =>
    have hc := c.utf8Size_pos
    rw [byteSize_cons] at h
    omega

theorem boundary_iff : Boundary s i ↔ ∃ p r, s = p ++ r ∧ byteSize p = i := by
  rw [Boundary, String.Pos.Raw.isValid_ofList]
  constructor
  · rintro ⟨k, hk⟩
    exact ⟨s.take k, s.drop k, (List.take_append_drop k s).symm, hk.symm⟩
  · rintro ⟨p, r, rfl, hp⟩
    refine ⟨p.length, ?_⟩
    rw [List.take_left]
    exact hp.symm

theorem Boundary.le (h : Boundary s i) : i ≤ byteSize s := h.le_utf8ByteSize

/-- A text is cut at an index in one way. -/
theorem append_inj_of_byteSize (h : p ++ t = q ++ u) (hp : byteSize p = byteSize q) :
    p = q ∧ t = u := by
  rcases List.append_eq_append_iff.1 h with ⟨a, rfl, rfl⟩ | ⟨a, rfl, rfl⟩
  · rw [byteSize_append] at hp
    obtain rfl := eq_nil_of_byteSize (s := a) (by omega)
    exact ⟨(List.append_nil p).symm, rfl⟩
  · rw [byteSize_append] at hp
    obtain rfl := eq_nil_of_byteSize (s := a) (by omega)
    exact ⟨List.append_nil q, rfl⟩

/-! Loops -/

theorem search_up_iff : Search s Up i j ↔ IsLeast {k | i ≤ k ∧ Boundary s k} j := by
  constructor
  · intro h
    induction h with
    | stop here => exact ⟨⟨Nat.le_refl _, here⟩, fun k hk => hk.1⟩
    | @turn i j k here next _ ih =>
      cases next
      refine ⟨⟨Nat.le_of_succ_le ih.1.1, ih.1.2⟩, ?_⟩
      rintro m ⟨hm, hb⟩
      have hne : i ≠ m := fun he => here (he ▸ hb)
      exact ih.2 ⟨by omega, hb⟩
  · rintro ⟨⟨hij, hj⟩, hleast⟩
    -- on the distance to the first boundary
    obtain ⟨d, rfl⟩ := Nat.exists_eq_add_of_le hij
    clear hij
    induction d generalizing i with
    | zero => exact .stop hj
    | succ d ih =>
      have hi : ¬ Boundary s i := by
        intro hi
        have hle := hleast ⟨Nat.le_refl i, hi⟩
        omega
      have hnext : i + (d + 1) = i + 1 + d := by omega
      rw [hnext] at hj hleast ⊢
      refine .turn hi rfl (ih ?_ hj)
      rintro k ⟨hk, hb⟩
      exact hleast ⟨by omega, hb⟩

theorem search_down_iff : Search s Down i j ↔ IsGreatest {k | k ≤ i ∧ Boundary s k} j := by
  constructor
  · intro h
    induction h with
    | stop here => exact ⟨⟨Nat.le_refl _, here⟩, fun k hk => hk.1⟩
    | @turn i j k here next _ ih =>
      cases next
      refine ⟨⟨Nat.le_succ_of_le ih.1.1, ih.1.2⟩, ?_⟩
      rintro m ⟨hm, hb⟩
      have hne : m ≠ j + 1 := fun he => here (he ▸ hb)
      exact ih.2 ⟨by omega, hb⟩
  · rintro ⟨⟨hji, hj⟩, hgreatest⟩
    obtain ⟨d, rfl⟩ := Nat.exists_eq_add_of_le hji
    clear hji
    induction d with
    | zero => exact .stop hj
    | succ d ih =>
      have hi : ¬ Boundary s (j + (d + 1)) := by
        intro hi
        have hle := hgreatest ⟨Nat.le_refl _, hi⟩
        omega
      refine .turn hi rfl (ih ?_)
      rintro k ⟨hk, hb⟩
      exact hgreatest ⟨by omega, hb⟩

/-! Longest pieces -/

theorem firstBytes_longest (n : Nat) (s : List Char) : IsLongestStart n s (firstBytes n s) := by
  induction s generalizing n with
  | nil => exact ⟨List.prefix_rfl, Nat.zero_le n, fun u hu _ => hu⟩
  | cons c s ih =>
    rw [firstBytes]
    split
    · rename_i hc
      have hrest := ih (n - c.utf8Size)
      refine ⟨List.cons_prefix_cons.2 ⟨rfl, hrest.isPrefix⟩, ?_, ?_⟩
      · have hfits := hrest.fits
        rw [byteSize_cons]
        omega
      · rintro u hu hn
        cases u with
        | nil => exact List.nil_prefix
        | cons d u =>
          obtain ⟨rfl, hu'⟩ := List.cons_prefix_cons.1 hu
          rw [byteSize_cons] at hn
          exact List.cons_prefix_cons.2 ⟨rfl, hrest.longest u hu' (by omega)⟩
    · rename_i hc
      refine ⟨List.nil_prefix, Nat.zero_le n, ?_⟩
      rintro u hu hn
      cases u with
      | nil => exact List.prefix_rfl
      | cons d u =>
        obtain ⟨rfl, -⟩ := List.cons_prefix_cons.1 hu
        rw [byteSize_cons] at hn
        omega

theorem lastBytes_longest (n : Nat) (s : List Char) : IsLongestEnd n s (lastBytes n s) := by
  have h := firstBytes_longest n s.reverse
  refine ⟨?_, ?_, ?_⟩
  · rw [← List.reverse_prefix, lastBytes, List.reverse_reverse]
    exact h.isPrefix
  · rw [lastBytes, byteSize_reverse]
    exact h.fits
  · intro u hu hn
    rw [← List.reverse_prefix, lastBytes, List.reverse_reverse]
    exact h.longest u.reverse (List.reverse_prefix.2 hu) (by rwa [byteSize_reverse])

theorem IsLongestEnd.eq_of_fits (h : IsLongestEnd n s t) (hs : byteSize s ≤ n) : t = s :=
  h.suffix.eq_of_length_le (h.longest s List.suffix_rfl hs).length_le

theorem IsLongestStart.eq_of_fits (h : IsLongestStart n s t) (hs : byteSize s ≤ n) : t = s :=
  h.isPrefix.eq_of_length_le (h.longest s List.prefix_rfl hs).length_le

/-- Before the longest piece at the end, the first boundary is from which on the text fits. -/
theorem IsLongestEnd.search (h : IsLongestEnd n s t) (hs : s = p ++ t) :
    Search s Up (byteSize s - n) (byteSize p) := by
  have hsize : byteSize s = byteSize p + byteSize t := by rw [hs, byteSize_append]
  have hfits := h.fits
  rw [search_up_iff]
  refine ⟨⟨by omega, boundary_iff.2 ⟨p, t, hs, rfl⟩⟩, ?_⟩
  rintro k ⟨hk, hb⟩
  obtain ⟨q, u, hqu, rfl⟩ := boundary_iff.1 hb
  have hsize' : byteSize s = byteSize q + byteSize u := by rw [hqu, byteSize_append]
  obtain ⟨v, rfl⟩ := h.longest u ⟨q, hqu.symm⟩ (by omega)
  rw [byteSize_append] at hsize
  omega

theorem IsLongestStart.search (h : IsLongestStart n s t) : Search s Down n (byteSize t) := by
  obtain ⟨r, hr⟩ := h.isPrefix
  rw [search_down_iff]
  refine ⟨⟨h.fits, boundary_iff.2 ⟨t, r, hr.symm, rfl⟩⟩, ?_⟩
  rintro k ⟨hk, hb⟩
  obtain ⟨q, u, hqu, rfl⟩ := boundary_iff.1 hb
  obtain ⟨v, rfl⟩ := h.longest q ⟨u, hqu.symm⟩ hk
  rw [byteSize_append]
  exact Nat.le_add_right _ _

theorem IsLongestEnd.cut_iff (h : IsLongestEnd n s t) : CutAtEnd n s u ↔ u = t := by
  obtain ⟨p, hp⟩ := h.suffix
  constructor
  · intro hu
    cases hu with
    | whole hs => exact (h.eq_of_fits hs).symm
    | @behind q u _ parts search =>
      have hsize := (search_up_iff.1 search).unique (search_up_iff.1 (h.search hp.symm))
      exact (append_inj_of_byteSize (parts.symm.trans hp.symm) hsize).2
  · rintro rfl
    by_cases hs : byteSize s ≤ n
    · have hwhole := h.eq_of_fits hs
      rw [hwhole]
      exact .whole hs
    · exact .behind (Nat.lt_of_not_le hs) hp.symm (h.search hp.symm)

theorem IsLongestStart.cut_iff (h : IsLongestStart n s t) : CutAtStart n s u ↔ u = t := by
  obtain ⟨r, hr⟩ := h.isPrefix
  constructor
  · intro hu
    cases hu with
    | whole hs => exact (h.eq_of_fits hs).symm
    | @before u q _ parts search =>
      have hsize := (search_down_iff.1 search).unique (search_down_iff.1 h.search)
      exact (append_inj_of_byteSize (parts.symm.trans hr.symm) hsize).1
  · rintro rfl
    by_cases hs : byteSize s ≤ n
    · have hwhole := h.eq_of_fits hs
      rw [hwhole]
      exact .whole hs
    · exact .before (Nat.lt_of_not_le hs) hr.symm h.search

end TextTemplate.Text

namespace TextTemplate
open Text

/-- The excerpts of error messages are the longest pieces of whole characters that fit, and what is
cut off by bytes is the same. The loops to the next boundary end, and do so inside the text. -/
theorem excerpts_longest (s raw : List Char) :
    (IsLongestEnd 32 s (excerptEnd s).toList ∧
      (∀ t, CutAtEnd 32 s t ↔ t = (excerptEnd s).toList) ∧
      ∃ start, Search s Up (byteSize s - 32) start ∧ start ≤ byteSize s) ∧
    (IsLongestStart 48 raw (excerptStart raw).toList ∧
      (∀ t, CutAtStart 48 raw t ↔ t = (excerptStart raw).toList) ∧
      ∃ stop, Search raw Down 48 stop ∧ stop ≤ byteSize raw) := by
  have hend := lastBytes_longest 32 s
  have hstart := firstBytes_longest 48 raw
  obtain ⟨p, hp⟩ := hend.suffix
  rw [excerptEnd, excerptStart, String.toList_ofList, String.toList_ofList]
  refine ⟨⟨hend, fun t => hend.cut_iff, byteSize p, hend.search hp.symm, ?_⟩,
    ⟨hstart, fun t => hstart.cut_iff, byteSize (firstBytes 48 raw), hstart.search, ?_⟩⟩
  · exact (boundary_iff.2 ⟨p, _, hp.symm, rfl⟩).le
  · exact (search_down_iff.1 hstart.search).1.2.le

/-- An excerpt is no longer than it may be, and does not cut a character. -/
example : excerptEnd (List.replicate 20 'é' ++ "cut off".toList) =
    String.ofList (List.replicate 12 'é' ++ "cut off".toList) := by decide

end TextTemplate

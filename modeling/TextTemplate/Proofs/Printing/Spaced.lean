import TextTemplate.Proofs.Printing.Basic

/-! Texts with single spaces between them: their ends, and how they are taken apart again. -/

namespace TextTemplate.Text
variable {a b r s : List Char} {l : List (List Char)} {c d : Char}

/-- Starts and ends with something to see. -/
structure Solid (s : List Char) : Prop where
  head : ∃ c ∈ s.head?, isBlank c = false
  last : ∃ c ∈ s.getLast?, isBlank c = false

/-- Over, or going on with a space. -/
def Ended (s : List Char) : Prop := ∀ c ∈ s.head?, c = ' '

theorem ended_nil : Ended [] := by
  intro c hc
  cases hc

theorem ended_space : Ended (' ' :: s) := by
  intro c hc
  exact (Option.some.inj hc).symm

theorem ended_flatMap (l : List (List Char)) : Ended (l.flatMap (' ' :: ·)) := by
  cases l with
  | nil => exact ended_nil
  | cons a l => exact ended_space

namespace Solid

theorem ne_nil (h : Solid s) : s ≠ [] := by
  rintro rfl
  obtain ⟨c, hc, -⟩ := h.head
  cases hc

theorem append (ha : Solid a) (hb : Solid b) : Solid (a ++ s ++ b) := by
  obtain ⟨c, hc, hcb⟩ := ha.head
  obtain ⟨d, hd, hdb⟩ := hb.last
  refine ⟨⟨c, ?_, hcb⟩, ⟨d, ?_, hdb⟩⟩
  · rw [Option.mem_def] at hc ⊢
    simp [List.head?_append, hc]
  · rw [Option.mem_def] at hd ⊢
    simp [List.getLast?_append, hd]

theorem enclosed (hc : isBlank c = false) (hd : isBlank d = false) : Solid (c :: (s ++ [d])) := by
  refine ⟨⟨c, rfl, hc⟩, ⟨d, ?_, hd⟩⟩
  rw [← List.cons_append, List.getLast?_concat]
  rfl

theorem of_forall (hn : s ≠ []) (h : ∀ c ∈ s, isBlank c = false) : Solid s := by
  refine ⟨⟨s.head hn, List.head?_eq_some_head hn, h _ (List.head_mem hn)⟩, ?_⟩
  exact ⟨s.getLast hn, List.getLast?_eq_some_getLast hn, h _ (List.getLast_mem hn)⟩

theorem trimStart_append (h : Solid s) (r : List Char) : trimStart (s ++ r) = s ++ r := by
  obtain ⟨c, hc, hb⟩ := h.head
  cases s with
  | nil => cases hc
  | cons d s =>
    cases Option.some.inj hc
    exact List.dropWhile_cons_of_neg (by simp [hb])

theorem trim_eq (h : Solid s) : trim s = s := by
  have hstart := h.trimStart_append []
  rw [List.append_nil] at hstart
  obtain ⟨c, hc, hb⟩ := h.last
  rw [trim, hstart, trimEnd]
  rw [← List.head?_reverse, Option.mem_def] at hc
  obtain ⟨r, hr⟩ := List.head?_eq_some_iff.1 hc
  rw [hr, List.dropWhile_cons_of_neg (by simp [hb]), ← hr, List.reverse_reverse]

end Solid

theorem spaced_cons_cons : spaced (a :: b :: l) = a ++ [' '] ++ spaced (b :: l) := by
  simp [spaced]

theorem mem_spaced (h : c ∈ spaced l) : c = ' ' ∨ ∃ a ∈ l, c ∈ a := by
  cases l with
  | nil => cases h
  | cons a l =>
    rw [spaced, List.mem_append, List.mem_flatMap] at h
    rcases h with h | ⟨b, hb, h⟩
    · exact .inr ⟨a, .head _, h⟩
    · rcases List.mem_cons.1 h with h | h
      · exact .inl h
      · exact .inr ⟨b, .tail _ hb, h⟩

theorem solid_spaced (hn : l ≠ []) (h : ∀ a ∈ l, Solid a) : Solid (spaced l) := by
  induction l with
  | nil => exact absurd rfl hn
  | cons a l ih =>
    cases l with
    | nil =>
      rw [spaced, List.flatMap_nil, List.append_nil]
      exact h a (.head _)
    | cons b l =>
      rw [spaced_cons_cons]
      have hrest := ih (List.cons_ne_nil b l) fun c hc => h c (.tail _ hc)
      exact (h a (.head _)).append hrest

theorem trimStart_flatMap (h : ∀ a ∈ l, Solid a) :
    trimStart (l.flatMap (' ' :: ·)) = spaced l := by
  cases l with
  | nil => rfl
  | cons a l => exact (h a (.head _)).trimStart_append _

theorem words_cons (c : Char) (s : List Char) :
    words (c :: s) =
      if isBlank c then words s
      else match s, words s with
        | d :: _, w :: ws => if isBlank d then [c] :: w :: ws else (c :: w) :: ws
        | _, ws => [c] :: ws :=
  rfl

theorem words_space : words (' ' :: s) = words s := by
  rw [words_cons, if_pos (by decide)]

theorem words_cons_of_ended (hc : isBlank c = false) (hr : Ended r) :
    words (c :: r) = [c] :: words r := by
  have hb : ¬ isBlank c := by simp [hc]
  rw [words_cons, if_neg hb]
  cases r with
  | nil => rfl
  | cons d r =>
    cases hr d rfl
    cases words (' ' :: r) with
    | nil => rfl
    | cons w ws => exact if_pos (by decide)

theorem words_append (hn : a ≠ []) (h : ∀ c ∈ a, isBlank c = false) (hr : Ended r) :
    words (a ++ r) = a :: words r := by
  induction a with
  | nil => exact absurd rfl hn
  | cons c a ih =>
    have hc := h c (.head _)
    cases a with
    | nil => exact words_cons_of_ended hc hr
    | cons d a =>
      have hb : ¬ isBlank c := by simp [hc]
      have hd : ¬ isBlank d := by simp [h d (.tail _ (.head _))]
      have hrest := ih (List.cons_ne_nil d a) fun e he => h e (.tail _ he)
      rw [List.cons_append, words_cons, if_neg hb, hrest]
      exact if_neg hd

theorem words_spaced (h : ∀ a ∈ l, a ≠ [] ∧ ∀ c ∈ a, isBlank c = false) :
    words (spaced l) = l := by
  induction l with
  | nil => rfl
  | cons a l ih =>
    obtain ⟨hn, hb⟩ := h a (.head _)
    have hrest := ih fun b hb => h b (.tail _ hb)
    rw [spaced, words_append hn hb (ended_flatMap l)]
    congr 1
    cases l with
    | nil => rfl
    | cons b l => exact words_space.trans hrest

/-- The codes of all white space. -/
def blankCodes : List Nat :=
  [9, 10, 11, 12, 13, 32, 133, 160, 5760, 8192, 8193, 8194, 8195, 8196, 8197, 8198, 8199, 8200,
    8201, 8202, 8232, 8233, 8239, 8287, 12288]

theorem toNat_mem_blankCodes (h : isBlank c) : c.toNat ∈ blankCodes := by
  simp only [isBlank, Bool.or_eq_true, Bool.and_eq_true, decide_eq_true_eq, Char.le_def,
    UInt32.le_iff_toNat_le] at h
  have hcode : c.val.toNat = c.toNat := rfl
  rw [hcode] at h
  rcases h with (((((((((rfl | h) | rfl) | rfl) | rfl) | h) | rfl) | rfl) | rfl) | rfl) | rfl
  case inl.inl.inl.inl.inl.inl.inl.inl.inl.inr =>
    have hlow : '\t'.val.toNat = 9 := rfl
    have hhigh : '\r'.val.toNat = 13 := rfl
    simp only [blankCodes, List.mem_cons]
    omega
  case inl.inl.inl.inl.inl.inr =>
    have hlow : '\u2000'.val.toNat = 8192 := rfl
    have hhigh : '\u200a'.val.toNat = 8202 := rfl
    simp only [blankCodes, List.mem_cons]
    omega
  all_goals decide

theorem isAlphanumeric_eq_false_of_isBlank (h : isBlank c) : isAlphanumeric c = false := by
  have hcode := toNat_mem_blankCodes h
  have hascii : ∀ n ∈ blankCodes, (Char.ofNat n).isAlphanum = false := by decide
  -- The kernel compares numbers faster by `Nat.ble` than by instances.
  have hwide : ∀ n ∈ blankCodes,
      (wideAlphanumeric.any fun r => Nat.ble r.1 n && Nat.ble n r.2) = false := by
    decide +kernel
  have hble : ∀ m k : Nat, decide (m ≤ k) = Nat.ble m k := by
    intro m k
    rw [Bool.eq_iff_iff, decide_eq_true_eq, Nat.ble_eq]
  have hc := hascii _ hcode
  rw [Char.ofNat_toNat] at hc
  simp only [isAlphanumeric, hc, hble, hwide _ hcode, Bool.or_false]

end TextTemplate.Text

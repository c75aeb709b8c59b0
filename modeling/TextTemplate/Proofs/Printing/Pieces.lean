import TextTemplate.Proofs.Printing.Spaced

/-! What is written for one argument is read as one piece. -/

namespace TextTemplate.Token
variable {f : List Char → Option (List Char × List Char)} {a r s v w : List Char} {c q : Char}
  {n : Nat} {k : Option (List Char)} {kind : Kind}

/-- Reading goes over `w` and stops where it would have stopped without it. -/
def Passes (f : List Char → Option (List Char × List Char)) (w : List Char) : Prop :=
  ∀ s, f (w ++ s) = (f s).map fun (v, r) => (w ++ v, r)

namespace Passes

theorem nil : Passes f [] := by
  intro s
  exact Option.map_id'.symm

theorem append (hv : Passes f v) (hw : Passes f w) : Passes f (v ++ w) := by
  intro s
  rw [List.append_assoc, hv, hw, Option.map_map]
  simp [Function.comp_def]

theorem of_forall (h : ∀ c ∈ w, Passes f [c]) : Passes f w := by
  induction w with
  | nil => exact nil
  | cons c w ih =>
    have hrest := ih fun d hd => h d (.tail _ hd)
    exact (h c (.head _)).append hrest

theorem flatMap {α : Type} {g : α → List Char} {l : List α} (h : ∀ x ∈ l, Passes f (g x)) :
    Passes f (l.flatMap g) := by
  induction l with
  | nil => exact nil
  | cons x l ih =>
    rw [List.flatMap_cons]
    exact (h x (.head _)).append (ih fun y hy => h y (.tail _ hy))

end Passes

/-- A search for the closing parenthesis of any group goes over the text. -/
def Balanced (w : List Char) : Prop := ∀ n, 0 < n → Passes (upToParen? n .outside) w

theorem balanced_singleton (h : c ≠ '(' ∧ c ≠ ')' ∧ c ≠ '"' ∧ c ≠ '\'') : Balanced [c] := by
  obtain ⟨hopen, hclose, hdouble, hsingle⟩ := h
  intro n _ s
  simp [upToParen?, isQuote, hopen, hclose, hdouble, hsingle]

theorem balanced_of_forall (h : ∀ c ∈ w, c ≠ '(' ∧ c ≠ ')' ∧ c ≠ '"' ∧ c ≠ '\'') : Balanced w := by
  intro n hn
  exact .of_forall fun c hc => balanced_singleton (h c hc) n hn

theorem Balanced.append (hv : Balanced v) (hw : Balanced w) : Balanced (v ++ w) := by
  intro n hn
  exact (hv n hn).append (hw n hn)

theorem Balanced.group (h : Balanced w) : Balanced ('(' :: (w ++ [')'])) := by
  intro n hn s
  have hinside := h (n + 1) (Nat.succ_pos n) (')' :: s)
  have hone : ¬ n + 1 ≤ 1 := by omega
  simp only [List.cons_append, List.append_assoc, List.nil_append, upToParen?] at hinside ⊢
  simp [isQuote, hinside, hone, Option.map_map, Function.comp_def]

theorem Balanced.upToParen? (h : Balanced w) :
    upToParen? 1 .outside (w ++ ')' :: s) = some (w ++ [')'], s) := by
  rw [h 1 Nat.one_pos, Token.upToParen?, if_pos ⟨rfl, Nat.le_refl 1⟩]
  rfl

theorem balanced_spaced {l : List (List Char)} (h : ∀ a ∈ l, Balanced a) :
    Balanced (Text.spaced l) := by
  have hspace : Balanced [' '] := balanced_singleton (by decide)
  intro n hn
  cases l with
  | nil => exact .nil
  | cons a l =>
    have hrest : ∀ b ∈ l, Passes (upToParen? n .outside) (' ' :: b) := fun b hb =>
      (hspace n hn).append (h b (.tail _ hb) n hn)
    exact (h a (.head _) n hn).append (.flatMap hrest)

theorem upToQuote?_escaped (v s : List Char) :
    upToQuote? '"' false (v.flatMap escapeQuoted ++ '"' :: s) =
      some (v.flatMap escapeQuoted ++ ['"'], s) := by
  induction v with
  | nil => rfl
  | cons c v ih =>
    by_cases hc : c = '"' ∨ c = '\\'
    · rcases hc with rfl | rfl <;> simp [escapeQuoted, upToQuote?, ih]
    · rw [not_or] at hc
      simp [escapeQuoted, upToQuote?, ih, hc]

theorem upToParen?_escaped (n : Nat) (v s : List Char) :
    upToParen? n (.inside '"' false) (v.flatMap escapeQuoted ++ '"' :: s) =
      (upToParen? n .outside s).map fun (w, r) => (v.flatMap escapeQuoted ++ '"' :: w, r) := by
  induction v with
  | nil => rfl
  | cons c v ih =>
    by_cases hc : c = '"' ∨ c = '\\'
    · rcases hc with rfl | rfl <;>
        simp [escapeQuoted, upToParen?, ih, Option.map_map, Function.comp_def]
    · have hc' := not_or.1 hc
      simp [escapeQuoted, upToParen?, ih, hc', Option.map_map, Function.comp_def]

theorem balanced_quoted (v : List Char) : Balanced (quoted v) := by
  intro n _ s
  have h := upToParen?_escaped n v s
  simp only [quoted, List.cons_append, List.append_assoc, List.nil_append, upToParen?]
  simp [isQuote, h, Option.map_map, Function.comp_def]

/-- No character of a word ends it. -/
def Wordlike (w : List Char) : Prop := Passes (wordEnd? false) w

theorem wordlike_of_forall
    (h : ∀ c ∈ w, Text.isBlank c = false ∧ c ≠ '(' ∧ c ≠ ')' ∧ c ≠ '|' ∧ c ≠ '[') :
    Wordlike w := by
  refine .of_forall fun c hc => ?_
  obtain ⟨hb, hopen, hclose, hpipe, hbracket⟩ := h c hc
  intro s
  simp [wordEnd?, hb, hopen, hclose, hpipe, hbracket]

theorem wordEnd?_true_append (h : ']' ∉ v) :
    wordEnd? true (v ++ ']' :: s) = (wordEnd? false s).map fun (w, r) => (v ++ ']' :: w, r) := by
  induction v with
  | nil => simp [wordEnd?]
  | cons c v ih =>
    have hc : c ≠ ']' := fun he => h (he ▸ .head _)
    have hv := ih fun hm => h (.tail _ hm)
    simp [wordEnd?, hc, hv, Option.map_map, Function.comp_def]

theorem wordlike_bracketed {name : String} (h : Bracketable name) :
    Wordlike (Path.bracketed name) := by
  intro s
  have hclose : ']' ∉ name.toList := h.not_mem_close
  have hinside := wordEnd?_true_append (s := s) hclose
  simp only [Path.bracketed, List.cons_append, List.append_assoc, List.nil_append, wordEnd?]
  simp [Text.isBlank, hinside, Option.map_map, Function.comp_def]

theorem Wordlike.wordEnd? (h : Wordlike w) (hr : Text.Ended r) :
    wordEnd? false (w ++ r) = some (w, r) := by
  rw [h r]
  cases r with
  | nil => simp [Token.wordEnd?]
  | cons c r =>
    cases hr c rfl
    simp [Token.wordEnd?, Text.isBlank]

theorem balanced_bracketed {name : String} (h : Bracketable name) :
    Balanced (Path.bracketed name) := by
  apply balanced_of_forall
  intro c hc
  rw [Path.bracketed, List.mem_cons, List.mem_append, List.mem_singleton] at hc
  rcases hc with rfl | hc | rfl
  · decide
  · exact (h c hc).2
  · decide

/-! Keys -/

/-- A key with its sign, as it stands before a value. -/
def keyText : Option (List Char) → List Char
  | none => []
  | some key => key ++ ['=']

theorem eq_keyText_append (s : List Char) : s = keyText (splitKey s).1 ++ (splitKey s).2 := by
  rw [splitKey.eq_def]
  split
  · rename_i c cs body htake hdrop
    rw [keyText, List.append_assoc, List.singleton_append, ← htake, ← hdrop,
      List.takeWhile_append_dropWhile]
  · rfl

theorem of_mem_keyText {c : Char} (h : c ∈ keyText (splitKey s).1) : isKeyChar c ∨ c = '=' := by
  rw [splitKey.eq_def] at h
  split at h
  · rename_i d cs body htake hdrop
    rw [keyText, ← htake, List.mem_append, List.mem_singleton] at h
    exact h.imp_left (List.all_eq_true.1 List.all_takeWhile c)
  · cases h

theorem splitKey_of_word (hw : ∀ c ∈ w, isKeyChar c)
    (hr : ∀ c ∈ r.head?, isKeyChar c = false ∧ c ≠ '=') : splitKey (w ++ r) = (none, w ++ r) := by
  have htake : (w ++ r).dropWhile isKeyChar = r := by
    rw [List.dropWhile_append_of_pos hw]
    cases r with
    | nil => rfl
    | cons c r => exact List.dropWhile_cons_of_neg (by simp [(hr c rfl).1])
  rw [splitKey, htake]
  split
  · exact absurd rfl (hr '=' rfl).2
  · rfl

theorem isKeyChar_equals : isKeyChar '=' = false := by decide +kernel

theorem isKeyChar_space : isKeyChar ' ' = false := by decide +kernel

theorem splitKey_key (hn : w ≠ []) (hw : ∀ c ∈ w, isKeyChar c) :
    splitKey (w ++ '=' :: s) = (some w, s) := by
  have htake : (w ++ '=' :: s).takeWhile isKeyChar = w := by
    rw [List.takeWhile_append_of_pos hw, List.takeWhile_cons_of_neg (by simp [isKeyChar_equals]),
      List.append_nil]
  have hdrop : (w ++ '=' :: s).dropWhile isKeyChar = '=' :: s := by
    rw [List.dropWhile_append_of_pos hw, List.dropWhile_cons_of_neg (by simp [isKeyChar_equals])]
  rw [splitKey, htake, hdrop]
  cases w with
  | nil => exact absurd rfl hn
  | cons c w => rfl

theorem isKeyChar_open : isKeyChar '(' = false := by decide +kernel

theorem splitKey_group (s : List Char) : splitKey ('(' :: s) = (none, '(' :: s) := by
  have h : splitKey ([] ++ '(' :: s) = (none, [] ++ '(' :: s) := by
    refine splitKey_of_word (by simp) ?_
    rintro c ⟨⟩
    exact ⟨isKeyChar_open, by decide⟩
  exact h

theorem readBody_group (key : Option (List Char)) (s : List Char) :
    readBody key ('(' :: s) =
      match upToParen? 1 .outside s with
      | some (v, r) => .ok (.group v.dropLast, '(' :: v, r)
      | none => .error (.unmatchedParentheses ('(' :: s)) :=
  rfl

/-- What the text of an argument is read as, wherever it stands between blanks. -/
structure ReadAs (a : List Char) (kind : Kind) (v : List Char) : Prop where
  solid : Text.Solid a
  unkeyed : ∀ r, Text.Ended r → splitKey (a ++ r) = (none, a ++ r)
  body : ∀ k r, Text.Ended r → readBody k (a ++ r) = .ok (kind, v, r)

section
variable (h : ReadAs a kind v)
include h

theorem ReadAs.next? (hr : Text.Ended r) :
    next? (a ++ r) = .ok (some ⟨kind, v, none, Text.trimStart r⟩) := by
  have hne : a ++ r ≠ [] := by simp [h.solid.ne_nil]
  rw [Token.next?, if_neg hne, h.unkeyed r hr, h.body _ r hr]

theorem ReadAs.next?_key (hn : w ≠ []) (hw : ∀ c ∈ w, isKeyChar c) (hr : Text.Ended r) :
    Token.next? (w ++ '=' :: (a ++ r)) = .ok (some ⟨kind, v, some w, Text.trimStart r⟩) := by
  have hne : w ++ '=' :: (a ++ r) ≠ [] := by simp
  rw [Token.next?, if_neg hne, splitKey_key hn hw, h.body _ r hr]

end

theorem allFrom_nil : allFrom [] = .ok [] := by
  rw [allFrom]
  rfl

theorem allFrom_of_next? {t : Token} (h : next? s = .ok (some t)) :
    allFrom s = (allFrom t.tail).map (t :: ·) := by
  rw [allFrom]
  split <;> simp_all

end TextTemplate.Token

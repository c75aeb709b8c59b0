import TextTemplate.ParseError
import TextTemplate.Text.Alphanumeric
import TextTemplate.Text.Blank

/-! The pieces of a tag's arguments: words, strings, groups in parentheses and block parameters. -/

namespace TextTemplate

inductive Token.Kind
  | word
  | string
  | group (inner : List Char)
  | blockParams
deriving DecidableEq

/-- One piece, the key it was written with, and the text that follows it. -/
structure Token where
  kind : Token.Kind
  value : List Char
  key : Option (List Char)
  tail : List Char
deriving DecidableEq

namespace Token
variable {s v r k : List Char} {t : Token} {q : Char} {b : Bool} {n : Nat}

/-- Where a search inside quotes stands. -/
inductive Quoting
  | outside
  | inside (quote : Char) (escaped : Bool)
deriving DecidableEq

def isQuote (c : Char) : Bool := c = '"' || c = '\''

/-- Reads a quoted text after its opening quote, up to and with the closing one.
An odd run of backslashes escapes the quote behind it. -/
def upToQuote? (q : Char) : Bool → List Char → Option (List Char × List Char)
  | _, [] => none
  | escaped, c :: cs =>
    if c = q ∧ ¬escaped then some ([c], cs)
    else (upToQuote? q (c = '\\' && !escaped) cs).map fun (v, r) => (c :: v, r)

/-- Reads up to and with the parenthesis that brings the count of open ones to zero.
Parentheses inside quotes do not count. -/
def upToParen? : Nat → Quoting → List Char → Option (List Char × List Char)
  | _, _, [] => none
  | n, .inside q escaped, c :: cs =>
    let quoting := if c = q ∧ ¬escaped then .outside else .inside q (c = '\\' && !escaped)
    (upToParen? n quoting cs).map fun (v, r) => (c :: v, r)
  | n, .outside, c :: cs =>
    if c = ')' ∧ n ≤ 1 then some ([c], cs)
    else
      let n := if c = '(' then n + 1 else if c = ')' then n - 1 else n
      let quoting := if isQuote c then .inside c false else .outside
      (upToParen? n quoting cs).map fun (v, r) => (c :: v, r)

/-- Reads a word: it ends at white space, a parenthesis or a pipe outside square brackets. -/
def wordEnd? : Bool → List Char → Option (List Char × List Char)
  | inBrackets, [] => if inBrackets then none else some ([], [])
  | true, c :: cs => (wordEnd? (c ≠ ']') cs).map fun (v, r) => (c :: v, r)
  | false, c :: cs =>
    if Text.isBlank c || c = '(' || c = ')' || c = '|' then some ([], c :: cs)
    else (wordEnd? (c = '[') cs).map fun (v, r) => (c :: v, r)

def isKeyChar (c : Char) : Bool := Text.isAlphanumeric c || c = '_' || c = '-' || c = '$'

/-- Splits `key=body`. -/
def splitKey (s : List Char) : Option (List Char) × List Char :=
  match s.takeWhile isKeyChar, s.dropWhile isKeyChar with
  | c :: cs, '=' :: body => (some (c :: cs), body)
  | _, _ => (none, s)

/-- Kind and value of the piece that starts a text, with the rest of the text. -/
def readBody (key : Option (List Char)) (s : List Char) :
    Except ArgumentError (Kind × List Char × List Char) :=
  match s with
  | [] => .error (.missingValue (key.getD []))
  | c :: cs =>
    if Text.isBlank c then .error (.missingValue (key.getD []))
    else if c = '(' then
      match upToParen? 1 .outside cs with
      | some (v, r) => .ok (.group v.dropLast, c :: v, r)
      | none => .error (.unmatchedParentheses s)
    else if c = ')' then .error (.unmatchedParentheses s)
    else if isQuote c then
      match upToQuote? c false cs with
      | some (v, r) => .ok (.string, c :: v, r)
      | none => .error (.unterminatedString s)
    else if c = '|' then
      match cs.dropWhile (· ≠ '|') with
      | _ :: r => .ok (.blockParams, Text.trim (cs.takeWhile (· ≠ '|')), r)
      | [] => .error (.unclosedBlockParams s)
    else
      match wordEnd? false s with
      | some (v, r) => .ok (.word, v, r)
      | none => .error (.unclosedWordBracket s)

/-- The piece that starts a text without leading white space. -/
def next? (s : List Char) : Except ArgumentError (Option Token) :=
  if s = [] then .ok none
  else
    match readBody (splitKey s).1 (splitKey s).2 with
    | .ok (kind, value, rest) => .ok (some ⟨kind, value, (splitKey s).1, Text.trimStart rest⟩)
    | .error e => .error e

def first? (s : List Char) : Except ArgumentError (Option Token) := next? (Text.trim s)

theorem upToQuote?_eq_some (h : upToQuote? q b s = some (v, r)) : s = v ++ r := by
  induction s generalizing b v with
  | nil => cases h
  | cons c cs ih =>
    unfold upToQuote? at h
    split at h
    · cases h; rfl
    · obtain ⟨⟨_, _⟩, h, he⟩ := Option.map_eq_some_iff.1 h
      cases he
      simp [ih h]

theorem upToParen?_eq_some {p : Quoting} (h : upToParen? n p s = some (v, r)) : s = v ++ r := by
  induction s generalizing n p v with
  | nil => simp [upToParen?] at h
  | cons c cs ih =>
    cases p with
    | inside q escaped =>
      obtain ⟨⟨_, _⟩, h, he⟩ := Option.map_eq_some_iff.1 h
      cases he
      simp [ih h]
    | outside =>
      unfold upToParen? at h
      split at h
      · cases h; rfl
      · obtain ⟨⟨_, _⟩, h, he⟩ := Option.map_eq_some_iff.1 h
        cases he
        simp [ih h]

theorem wordEnd?_eq_some (h : wordEnd? b s = some (v, r)) : s = v ++ r := by
  induction s generalizing b v with
  | nil => cases b <;> simp [wordEnd?] at h; simp [h]
  | cons c cs ih =>
    cases b with
    | true =>
      obtain ⟨⟨_, _⟩, h, he⟩ := Option.map_eq_some_iff.1 h
      cases he
      simp [ih h]
    | false =>
      unfold wordEnd? at h
      split at h
      · cases h; rfl
      · obtain ⟨⟨_, _⟩, h, he⟩ := Option.map_eq_some_iff.1 h
        cases he
        simp [ih h]

theorem length_splitKey_le (s : List Char) : (splitKey s).2.length ≤ s.length := by
  unfold splitKey
  split
  · rename_i body hb
    have := (List.dropWhile_suffix (l := s) isKeyChar).length_le
    simp only [hb, List.length_cons] at this
    exact Nat.le_of_succ_le this
  · exact Nat.le_refl _

/-- The text begins with a piece of this kind and value, and `r` follows. -/
inductive Begins (r : List Char) : List Char → Kind → List Char → Prop
  | group {cs u : List Char} (h : upToParen? 1 .outside cs = some (u, r)) :
      Begins r ('(' :: cs) (.group u.dropLast) ('(' :: u)
  | string {q : Char} {cs u : List Char} (hq : isQuote q) (h : upToQuote? q false cs = some (u, r)) :
      Begins r (q :: cs) .string (q :: u)
  | blockParams {names : List Char} :
      Begins r ('|' :: (names ++ '|' :: r)) .blockParams (Text.trim names)
  | word {c : Char} {cs v : List Char} (h : wordEnd? (c = '[') cs = some (v, r)) :
      Begins r (c :: cs) .word (c :: v)

theorem begins_of_readBody {key : Option (List Char)} {kind : Kind}
    (h : readBody key s = .ok (kind, v, r)) : Begins r s kind v := by
  rw [readBody.eq_def] at h
  split at h
  · cases h
  rename_i c cs
  split at h
  · cases h
  rename_i hb
  split at h
  · rename_i hc
    subst hc
    split at h <;> cases h
    rename_i hp
    exact .group hp
  rename_i hopen
  split at h
  · cases h
  rename_i hclose
  split at h
  · rename_i hq
    split at h <;> cases h
    rename_i hu
    exact .string hq hu
  split at h
  · rename_i hc
    subst hc
    split at h <;> cases h
    rename_i bar hdrop
    have hbar := List.head?_dropWhile_not (· ≠ '|') cs
    rw [hdrop] at hbar
    obtain rfl : bar = '|' := by simpa using hbar
    have hcs : cs = cs.takeWhile (· ≠ '|') ++ '|' :: r := by
      rw [← hdrop, List.takeWhile_append_dropWhile]
    conv => arg 2; rw [hcs]
    exact .blockParams
  · rename_i hbar
    split at h <;> cases h
    rename_i hw
    simp only [wordEnd?, hb, hopen, hclose, hbar, decide_false, Bool.or_self, Bool.false_eq_true,
      if_false] at hw
    obtain ⟨⟨_, _⟩, hv, he⟩ := Option.map_eq_some_iff.1 hw
    cases he
    exact .word hv

theorem Begins.exists_append {kind : Kind} (h : Begins r s kind v) : ∃ w, w ≠ [] ∧ s = w ++ r := by
  cases h with
  | @group cs u h => exact ⟨'(' :: u, List.cons_ne_nil _ _, by rw [upToParen?_eq_some h]; rfl⟩
  | @string q cs u hq h => exact ⟨q :: u, List.cons_ne_nil _ _, by rw [upToQuote?_eq_some h]; rfl⟩
  | @blockParams names => exact ⟨'|' :: (names ++ ['|']), List.cons_ne_nil _ _, by simp⟩
  | @word c cs v h => exact ⟨c :: v, List.cons_ne_nil _ _, by rw [wordEnd?_eq_some h]; rfl⟩

theorem length_readBody_lt {key : Option (List Char)} {kind : Kind}
    (h : readBody key s = .ok (kind, v, r)) : r.length < s.length := by
  obtain ⟨w, hw, rfl⟩ := (begins_of_readBody h).exists_append
  have hpos := List.length_pos_iff.2 hw
  rw [List.length_append]
  omega

theorem length_inner_lt_of_readBody {key : Option (List Char)} {inner : List Char}
    (h : readBody key s = .ok (.group inner, v, r)) : inner.length < s.length := by
  generalize hk : Kind.group inner = kind at h
  cases begins_of_readBody h with
  | group hp =>
    cases hk
    simp only [upToParen?_eq_some hp, List.length_cons, List.length_append, List.length_dropLast]
    omega
  | string | blockParams | word => cases hk

theorem length_tail_lt (h : next? s = .ok (some t)) : t.tail.length < s.length := by
  unfold next? at h
  split at h
  · cases h
  · split at h
    · rename_i hr
      cases h
      exact Nat.lt_of_le_of_lt (Text.length_trimStart_le _)
        (Nat.lt_of_lt_of_le (length_readBody_lt hr) (length_splitKey_le s))
    · cases h

theorem length_inner_lt {inner : List Char} (h : next? s = .ok (some t))
    (ht : t.kind = .group inner) : inner.length < s.length := by
  unfold next? at h
  split at h
  · cases h
  · split at h
    · rename_i hr
      cases h
      cases ht
      exact Nat.lt_of_lt_of_le (length_inner_lt_of_readBody hr) (length_splitKey_le s)
    · cases h

/-- All pieces of a text that has no leading white space. -/
def allFrom (s : List Char) : Except ArgumentError (List Token) :=
  match _h : next? s with
  | .error e => .error e
  | .ok none => .ok []
  | .ok (some t) => (allFrom t.tail).map (t :: ·)
termination_by s.length
decreasing_by exact length_tail_lt _h

def all (s : List Char) : Except ArgumentError (List Token) := allFrom (Text.trim s)

theorem length_inner_lt_of_mem_allFrom {ts : List Token} {inner : List Char}
    (h : allFrom s = .ok ts) (ht : t ∈ ts) (hk : t.kind = .group inner) :
    inner.length < s.length := by
  fun_induction allFrom s generalizing ts with
  | case1 => cases h
  | case2 => cases h; cases ht
  | case3 s u hu ih =>
    cases hall : allFrom u.tail with
    | error e => simp [hall, Except.map] at h
    | ok us =>
      simp only [hall, Except.map, Except.ok.injEq] at h
      subst h
      cases ht with
      | head => exact length_inner_lt hu hk
      | tail _ ht => exact Nat.lt_trans (ih hall ht) (length_tail_lt hu)

theorem length_inner_lt_of_mem_all {ts : List Token} {inner : List Char} (h : all s = .ok ts)
    (ht : t ∈ ts) (hk : t.kind = .group inner) : inner.length < s.length :=
  Nat.lt_of_lt_of_le (length_inner_lt_of_mem_allFrom h ht hk) (Text.length_trim_le s)

end Token
end TextTemplate

import Mathlib.Data.List.Forall2
import TextTemplate.Proofs.Printing.Paths

/-! Collecting arguments from the texts that stand for them. -/

namespace TextTemplate

/-- The reference that one piece stands for. -/
def Token.reference (t : Token) : Except ArgumentError Reference :=
  match t.kind, t.value with
  | .group inner, _ => (Invocation.parseCall inner).map .call
  | .blockParams, names => .error (.strayBlockParams names)
  | .string, quote :: s => (stringLiteral quote s).map fun v => .literal (.string (String.ofList v))
  | .string, [] => .error .emptyReference
  | .word, s => Reference.ofWord s

/-! Collecting the pieces, where groups are read by the parser itself -/

namespace Invocation

theorem reference_eq {n : Nat} {t : Token} (h : ∀ inner, t.kind = .group inner → inner.length < n) :
    reference (n := n) (fun inner _ => parseCall inner) t h = t.reference := by
  obtain ⟨kind, value, key, tail⟩ := t
  cases kind with
  | word => rfl
  | string => cases value <;> rfl
  | group inner => rfl
  | blockParams => rfl

/-- What the pieces of a list of arguments add to what came before. -/
def gather (announced : Bool) (i : Invocation) : List Token → Except ArgumentError Invocation
  | [] => .ok i
  | t :: ts =>
    if i.aliases ≠ [] then .error (.afterBlockParams t.value)
    else if announced then
      match Text.words t.value with
      | [] => .error .emptyBlockParams
      | names => gather false { i with aliases := names.map String.ofList } ts
    else if announcesAliases t ts.head? then gather true i ts
    else do
      let r ← t.reference
      let i ← add i t r
      gather false i ts

theorem collect_eq_gather {n : Nat} (ts : List Token)
    (h : ∀ t ∈ ts, ∀ inner, t.kind = .group inner → inner.length < n) (announced : Bool)
    (i : Invocation) :
    collect (n := n) (fun inner _ => parseCall inner) announced i ts h = gather announced i ts := by
  induction ts generalizing announced i with
  | nil => rfl
  | cons t ts ih =>
    have hs : ∀ u ∈ ts, ∀ inner, u.kind = .group inner → inner.length < n :=
      fun u hu => h u (.tail _ hu)
    simp only [collect, reference_eq, ih hs]
    rfl

theorem parseArguments_eq (s : List Char) :
    parseArguments s = (Token.all s).bind (gather false .empty) := by
  rw [parseArguments]
  split
  · rename_i h
    rw [h]
    rfl
  · rename_i h
    rw [collect_eq_gather, h]
    rfl

theorem parseCall_eq (s : List Char) :
    parseCall s = (parseArguments s).bind fun i =>
      match promote? i with
      | some call => .ok call
      | none => .error (.missingHelper s) := by
  rw [parseCall, parseArguments_eq]
  split
  · rename_i h
    rw [h]
    rfl
  · rename_i h
    rw [collect_eq_gather, h]
    rfl

/-- What the rest of a text adds to the arguments before it. -/
def gatherFrom (i : Invocation) (s : List Char) : Except ArgumentError Invocation :=
  (Token.allFrom s).bind (gather false i)

end Invocation

/-- A text that stands for a reference, by itself and inside a group. -/
structure Reference.Written (a : List Char) (r : Reference) : Prop where
  balanced : Token.Balanced a
  read : ∃ kind v, Token.ReadAs a kind v ∧ v ≠ ['a', 's'] ∧
    ∀ key tail, Token.reference ⟨kind, v, key, tail⟩ = .ok r

theorem Reference.Written.solid {a : List Char} {r : Reference} (h : r.Written a) :
    Text.Solid a := by
  obtain ⟨_, _, h, -⟩ := h.read
  exact h.solid

/-- A text that stands for a reference under its key. -/
def WrittenEntry (a : List Char) (entry : String × Reference) : Prop :=
  ∃ b, a = entry.1.toList ++ '=' :: b ∧ IsKey entry.1 ∧ entry.2.Written b

theorem IsKey.solid {key : String} (h : IsKey key) : Text.Solid key.toList := by
  apply Text.Solid.of_forall
  · simp [h.nonempty]
  · intro c hc
    exact (plain_of_isKeyChar (h.chars c hc)).1

theorem balanced_of_isKeyChar {w : List Char} (h : ∀ c ∈ w, Token.isKeyChar c) :
    Token.Balanced w := by
  apply Token.balanced_of_forall
  intro c hc
  obtain ⟨-, hopen, hclose, hdouble, hsingle, -⟩ := plain_of_isKeyChar (h c hc)
  exact ⟨hopen, hclose, hdouble, hsingle⟩

theorem WrittenEntry.solid {a : List Char} {entry : String × Reference} (h : WrittenEntry a entry) :
    Text.Solid a := by
  obtain ⟨b, rfl, hkey, hw⟩ := h
  rw [List.append_cons]
  exact hkey.solid.append hw.solid

theorem WrittenEntry.balanced {a : List Char} {entry : String × Reference}
    (h : WrittenEntry a entry) : Token.Balanced a := by
  obtain ⟨b, rfl, hkey, hw⟩ := h
  have hsign : Token.Balanced ['='] := Token.balanced_singleton (by decide)
  exact (balanced_of_isKeyChar hkey.chars).append (hsign.append hw.balanced)

/-- What stands in the first of two related lists is related to something in the second. -/
theorem exists_mem_of_forall₂ {α β : Type} {R : α → β → Prop} {l : List α} {xs : List β} {a : α}
    (h : List.Forall₂ R l xs) (ha : a ∈ l) : ∃ x ∈ xs, R a x := by
  induction h with
  | nil => cases ha
  | @cons b x l xs hx _ ih =>
    rcases List.mem_cons.1 ha with rfl | ha
    · exact ⟨x, List.mem_cons_self .., hx⟩
    · obtain ⟨y, hy, hR⟩ := ih ha
      exact ⟨y, List.mem_cons_of_mem _ hy, hR⟩

/-- What holds of each text that stands for something holds of all of them. -/
theorem forall_of_forall₂ {α : Type} {R : List Char → α → Prop} {P : List Char → Prop}
    {l : List (List Char)} {xs : List α}
    (hR : ∀ a x, R a x → P a) (h : List.Forall₂ R l xs) : ∀ a ∈ l, P a := by
  intro a ha
  obtain ⟨x, -, hx⟩ := exists_mem_of_forall₂ h ha
  exact hR a x hx

section
variable {σ : PathStyle} {i j : Invocation} {a s : List Char} {l ps : List (List Char)}
  {r : Reference} {t : Token} {key : String} {params : List Reference}
  {hash : List (String × Reference)} {names : List String}

namespace Invocation

/-- One piece, and what it adds. -/
theorem gatherFrom_of_next? (h : Token.next? s = .ok (some t)) (ha : i.aliases = [])
    (hv : t.value ≠ ['a', 's']) (hr : t.reference = .ok r) (hadd : add i t r = .ok j) :
    gatherFrom i s = gatherFrom j t.tail := by
  have hword : ∀ next, announcesAliases t next = false := by
    intro next
    simp [announcesAliases, hv]
  rw [gatherFrom, Token.allFrom_of_next? h, gatherFrom]
  cases Token.allFrom t.tail with
  | error e => rfl
  | ok ts =>
    simp only [Except.map, Except.bind, gather]
    rw [if_neg (not_not_intro ha), if_neg Bool.false_ne_true, hword, if_neg Bool.false_ne_true, hr]
    simp only [bind, Except.bind, hadd]

theorem gatherFrom_param (h : r.Written a) (hl : ∀ b ∈ l, Text.Solid b) (ha : i.aliases = [])
    (hh : i.hash = []) :
    gatherFrom i (Text.spaced (a :: l)) =
      gatherFrom { i with params := i.params ++ [r] } (Text.spaced l) := by
  obtain ⟨kind, v, hread, hv, hr⟩ := h.read
  have hnext := hread.next? (Text.ended_flatMap l)
  rw [Text.trimStart_flatMap hl] at hnext
  exact gatherFrom_of_next? hnext ha hv (hr _ _) (if_pos hh)

theorem gatherFrom_entry (h : WrittenEntry a (key, r)) (hl : ∀ b ∈ l, Text.Solid b)
    (ha : i.aliases = []) :
    gatherFrom i (Text.spaced (a :: l)) =
      gatherFrom { i with hash := i.hash ++ [(key, r)] } (Text.spaced l) := by
  obtain ⟨b, rfl, hkey, hw⟩ := h
  obtain ⟨kind, v, hread, hv, hr⟩ := hw.read
  have hn : key.toList ≠ [] := by simp [hkey.nonempty]
  have hnext := hread.next?_key hn hkey.chars (Text.ended_flatMap l)
  rw [Text.trimStart_flatMap hl] at hnext
  have hspaced : Text.spaced ((key.toList ++ '=' :: b) :: l) =
      key.toList ++ '=' :: (b ++ l.flatMap (' ' :: ·)) := by
    simp [Text.spaced]
  rw [hspaced]
  refine gatherFrom_of_next? hnext ha hv (hr _ _) ?_
  simp [add]

theorem gatherFrom_params (h : List.Forall₂ Reference.Written ps params)
    (hl : ∀ b ∈ l, Text.Solid b) (ha : i.aliases = []) (hh : i.hash = []) :
    gatherFrom i (Text.spaced (ps ++ l)) =
      gatherFrom { i with params := i.params ++ params } (Text.spaced l) := by
  induction h generalizing i with
  | nil =>
    obtain ⟨helper, before, hash, aliases⟩ := i
    rw [List.nil_append, List.append_nil]
  | @cons a r ps params hr hrest ih =>
    have hps := forall_of_forall₂ (fun _ _ hw => hw.solid) hrest
    have hsolid : ∀ b ∈ ps ++ l, Text.Solid b := by
      intro b hb
      exact (List.mem_append.1 hb).elim (hps b) (hl b)
    rw [List.cons_append, gatherFrom_param hr hsolid ha hh,
      ih (i := { i with params := i.params ++ [r] }) ha hh, List.append_assoc]
    rfl

theorem gatherFrom_entries (h : List.Forall₂ WrittenEntry ps hash) (hl : ∀ b ∈ l, Text.Solid b)
    (ha : i.aliases = []) :
    gatherFrom i (Text.spaced (ps ++ l)) =
      gatherFrom { i with hash := i.hash ++ hash } (Text.spaced l) := by
  induction h generalizing i with
  | nil =>
    obtain ⟨helper, before, hash, aliases⟩ := i
    rw [List.nil_append, List.append_nil]
  | @cons a entry ps hash hr hrest ih =>
    have hps := forall_of_forall₂ (fun _ _ hw => hw.solid) hrest
    have hsolid : ∀ b ∈ ps ++ l, Text.Solid b := by
      intro b hb
      exact (List.mem_append.1 hb).elim (hps b) (hl b)
    rw [List.cons_append, gatherFrom_entry hr hsolid ha,
      ih (i := { i with hash := i.hash ++ [entry] }) ha, List.append_assoc]
    rfl

/-! Aliases -/

theorem solid_bars (s : List Char) : Text.Solid ('|' :: (s ++ ['|'])) :=
  .enclosed (by decide) (by decide)

theorem next?_bars (hs : '|' ∉ s) (hsolid : Text.Solid s) :
    Token.next? ('|' :: (s ++ ['|'])) = .ok (some ⟨.blockParams, s, none, []⟩) := by
  have hkey : Token.splitKey ([] ++ '|' :: (s ++ ['|'])) = (none, [] ++ '|' :: (s ++ ['|'])) := by
    apply Token.splitKey_of_word (by simp)
    intro c hc
    cases hc
    exact ⟨by decide +kernel, by decide⟩
  have hbar : ∀ c ∈ s, decide (c ≠ '|') = true := by
    intro c hc
    exact decide_eq_true fun he => hs (he ▸ hc)
  have htake : (s ++ ['|']).takeWhile (· ≠ '|') = s := by
    rw [List.takeWhile_append_of_pos hbar, List.takeWhile_cons_of_neg (by simp), List.append_nil]
  have hdrop : (s ++ ['|']).dropWhile (· ≠ '|') = ['|'] := by
    rw [List.dropWhile_append_of_pos hbar, List.dropWhile_cons_of_neg (by simp)]
  rw [List.nil_append] at hkey
  rw [Token.next?, if_neg (List.cons_ne_nil _ _), hkey]
  simp only [Token.readBody, htake, hdrop, hsolid.trim_eq]
  rfl

theorem allFrom_announced (hs : '|' ∉ s) (hsolid : Text.Solid s) :
    Token.allFrom (Text.spaced [['a', 's'], '|' :: (s ++ ['|'])]) = .ok
      [⟨.word, ['a', 's'], none, '|' :: (s ++ ['|'])⟩, ⟨.blockParams, s, none, []⟩] := by
  have has : Token.ReadAs ['a', 's'] .word ['a', 's'] :=
    readAs_plain (List.cons_ne_nil _ _) (forall_mem_of_all (by decide))
  have hbars : ∀ a ∈ ['|' :: (s ++ ['|'])], Text.Solid a := by
    intro a ha
    rw [List.mem_singleton.1 ha]
    exact solid_bars s
  have hfirst := has.next? (Text.ended_flatMap ['|' :: (s ++ ['|'])])
  have hone : Text.spaced ['|' :: (s ++ ['|'])] = '|' :: (s ++ ['|']) := by simp [Text.spaced]
  rw [Text.trimStart_flatMap hbars, hone] at hfirst
  rw [Text.spaced, Token.allFrom_of_next? hfirst, Token.allFrom_of_next? (next?_bars hs hsolid),
    Token.allFrom_nil]
  rfl

theorem blankFree_of_isAlias (hn : ∀ name ∈ names, IsAlias name) :
    ∀ a ∈ names.map String.toList, a ≠ [] ∧ ∀ c ∈ a, Text.isBlank c = false := by
  intro a ha
  obtain ⟨name, hm, rfl⟩ := List.mem_map.1 ha
  have hname := hn name hm
  refine ⟨?_, fun c hc => (hname.chars c hc).1⟩
  simp [hname.nonempty]

theorem notMem_bar_of_isAlias (hn : ∀ name ∈ names, IsAlias name) :
    '|' ∉ Text.spaced (names.map String.toList) := by
  intro h
  rcases Text.mem_spaced h with h | ⟨a, ha, h⟩
  · cases h
  · obtain ⟨name, hm, rfl⟩ := List.mem_map.1 ha
    exact ((hn name hm).chars _ h).2 rfl

theorem gatherFrom_aliases (hn : ∀ name ∈ names, IsAlias name) (ha : i.aliases = []) :
    gatherFrom i (Text.spaced (aliasPieces names)) = .ok { i with aliases := names } := by
  obtain ⟨helper, params, hash, aliases⟩ := i
  obtain rfl : aliases = [] := ha
  cases names with
  | nil =>
    rw [aliasPieces, Text.spaced, gatherFrom, Token.allFrom_nil]
    rfl
  | cons name names =>
    have hfree := blankFree_of_isAlias hn
    have hsolid : Text.Solid (Text.spaced ((name :: names).map String.toList)) :=
      Text.solid_spaced (List.cons_ne_nil _ _) fun a hm => .of_forall (hfree a hm).1 (hfree a hm).2
    have hall := allFrom_announced (notMem_bar_of_isAlias hn) hsolid
    have hwords := Text.words_spaced hfree
    rw [gatherFrom, aliasPieces, hall]
    · simp only [Except.bind, gather, announcesAliases, hwords]
      simp [Function.comp_def]
    · simp

/-! Whole argument lists -/

/-- The helper as the parser first sees it: a path before the other arguments. -/
def helperParams : Option String → List Reference
  | none => []
  | some name => [.path ⟨[name], 0, false⟩]

theorem parseArguments_print {helper : Option String}
    (hh : List.Forall₂ Reference.Written (helperPieces helper) (helperParams helper))
    (hp : List.Forall₂ Reference.Written (paramPieces σ params) params)
    (he : List.Forall₂ WrittenEntry (hashPieces σ hash) hash)
    (hn : ∀ name ∈ names, IsAlias name) (hne : helper ≠ none ∨ params ≠ []) :
    parseArguments (Invocation.print σ ⟨helper, params, hash, names⟩) =
      .ok ⟨none, helperParams helper ++ params, hash, names⟩ := by
  have hsolidAliases : ∀ a ∈ aliasPieces names, Text.Solid a := by
    intro a ha
    cases names with
    | nil => cases ha
    | cons name names =>
      rw [aliasPieces] at ha
      · simp only [List.mem_cons, List.not_mem_nil, or_false] at ha
        rcases ha with rfl | rfl
        · exact .of_forall (List.cons_ne_nil _ _) (forall_mem_of_all (by decide))
        · exact solid_bars _
      · simp
  have hsolidHash : ∀ a ∈ hashPieces σ hash ++ aliasPieces names, Text.Solid a := by
    intro a ha
    exact (List.mem_append.1 ha).elim (forall_of_forall₂ (fun _ _ hw => hw.solid) he a)
      (hsolidAliases a)
  have hsolidParams : ∀ a ∈ paramPieces σ params ++ (hashPieces σ hash ++ aliasPieces names),
      Text.Solid a := by
    intro a ha
    exact (List.mem_append.1 ha).elim (forall_of_forall₂ (fun _ _ hw => hw.solid) hp a)
      (hsolidHash a)
  have hsolid : Text.Solid (Invocation.print σ ⟨helper, params, hash, names⟩) := by
    rw [Invocation.print]
    apply Text.solid_spaced
    · cases helper with
      | some name => simp [helperPieces]
      | none =>
        cases params with
        | nil => simp at hne
        | cons p ps => simp [helperPieces, paramPieces]
    · intro a ha
      exact (List.mem_append.1 ha).elim (forall_of_forall₂ (fun _ _ hw => hw.solid) hh a)
        (hsolidParams a)
  rw [parseArguments_eq, Token.all, hsolid.trim_eq, Invocation.print, ← gatherFrom,
    gatherFrom_params hh hsolidParams rfl rfl, gatherFrom_params hp hsolidHash rfl rfl,
    gatherFrom_entries he hsolidAliases rfl, gatherFrom_aliases hn rfl]
  rfl

end Invocation
end

end TextTemplate

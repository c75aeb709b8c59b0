import TextTemplate.Proofs.Printing.Arguments

/-! Every piece of an argument list is accounted for: first the positional arguments, then those with
a key, then the names that `as` announces, and nothing else. -/

namespace TextTemplate

/-- The piece is an argument without a key. -/
def Token.Positional (t : Token) (r : Reference) : Prop := t.key = none ∧ t.reference = .ok r

/-- The piece is an argument under its key. -/
def Token.Keyed (t : Token) (entry : String × Reference) : Prop :=
  t.key = some entry.1.toList ∧ t.reference = .ok entry.2

/-- The pieces announce these names: the word `as`, and block parameters behind it. It does not
matter whether the block parameters have a key. -/
inductive Token.Announce : List Token → List String → Prop
  | nothing : Announce [] []
  | names {t u : Token} (hk : t.key = none) (ht : t.kind = .word ∧ t.value = ['a', 's'])
      (hu : u.kind = .blockParams) (hn : Text.words u.value ≠ []) :
      Announce [t, u] ((Text.words u.value).map String.ofList)

section
variable {t u : Token} {ts rest positional named announced : List Token} {i j : Invocation}
  {r : Reference} {entry : String × Reference} {params : List Reference}
  {hash : List (String × Reference)} {names : List String} {s : List Char}

namespace Token

theorem kind_ne_of_reference (h : t.reference = .ok r) : t.kind ≠ .blockParams := by
  intro hk
  simp only [reference, hk] at h
  cases h

/-- A piece behind the arguments before it. -/
theorem kind_ne_of_head? (hp : List.Forall₂ Positional positional params)
    (hr : ∀ u ∈ rest.head?, u.kind ≠ .blockParams) :
    ∀ u ∈ (positional ++ rest).head?, u.kind ≠ .blockParams := by
  cases hp with
  | nil => exact hr
  | cons ht _ =>
    intro u hu
    cases hu
    exact kind_ne_of_reference ht.2

theorem kind_ne_of_keyed (hk : List.Forall₂ Keyed named hash) (ha : Announce announced names) :
    ∀ u ∈ (named ++ announced).head?, u.kind ≠ .blockParams := by
  cases hk with
  | cons ht _ =>
    intro u hu
    cases hu
    exact kind_ne_of_reference ht.2
  | nil =>
    cases ha with
    | nothing => nofun
    | names _ ht _ _ =>
      intro u hu
      cases hu
      rw [ht.1]
      nofun

end Token

namespace Invocation
open Token

theorem not_announcesAliases_of_key (hk : t.key ≠ none) (next : Option Token) :
    announcesAliases t next = false := by
  simp [announcesAliases, hk]

theorem not_announcesAliases_of_next {next : Option Token}
    (hn : ∀ u ∈ next, u.kind ≠ .blockParams) : announcesAliases t next = false := by
  cases next with
  | none => simp [announcesAliases]
  | some u => simp [announcesAliases, hn u rfl]

theorem announcesAliases_iff {next : Option Token} :
    announcesAliases t next = true ↔
      t.key = none ∧ (t.kind = .word ∧ t.value = ['a', 's']) ∧
        ∃ u, next = some u ∧ u.kind = .blockParams := by
  cases next <;> simp [announcesAliases, and_assoc]

/-- One argument, and the arguments behind it. -/
theorem gather_of_reference (ha : i.aliases = []) (hn : announcesAliases t ts.head? = false)
    (hr : t.reference = .ok r) (hadd : add i t r = .ok j) :
    gather false i (t :: ts) = gather false j ts := by
  rw [gather, if_neg (not_not_intro ha), if_neg Bool.false_ne_true, hn, if_neg Bool.false_ne_true,
    hr]
  simp only [bind, Except.bind, hadd]

theorem gather_positional (h : List.Forall₂ Positional positional params) (ha : i.aliases = [])
    (hh : i.hash = []) (hr : ∀ u ∈ rest.head?, u.kind ≠ .blockParams) :
    gather false i (positional ++ rest) =
      gather false { i with params := i.params ++ params } rest := by
  induction h generalizing i with
  | nil =>
    obtain ⟨helper, before, hash, aliases⟩ := i
    rw [List.nil_append, List.append_nil]
  | @cons t r positional params ht hrest ih =>
    have hn : announcesAliases t (positional ++ rest).head? = false :=
      not_announcesAliases_of_next (kind_ne_of_head? hrest hr)
    have hadd : add i t r = .ok { i with params := i.params ++ [r] } := by
      simp [add, ht.1, hh]
    rw [List.cons_append, gather_of_reference ha hn ht.2 hadd,
      ih (i := { i with params := i.params ++ [r] }) ha hh, List.append_assoc]
    rfl

theorem gather_keyed (h : List.Forall₂ Keyed named hash) (ha : i.aliases = []) :
    gather false i (named ++ rest) = gather false { i with hash := i.hash ++ hash } rest := by
  induction h generalizing i with
  | nil =>
    obtain ⟨helper, params, before, aliases⟩ := i
    rw [List.nil_append, List.append_nil]
  | @cons t entry named hash ht hrest ih =>
    have hn : announcesAliases t (named ++ rest).head? = false :=
      not_announcesAliases_of_key (by simp [ht.1]) _
    have hadd : add i t entry.2 = .ok { i with hash := i.hash ++ [entry] } := by
      simp [add, ht.1]
    rw [List.cons_append, gather_of_reference ha hn ht.2 hadd,
      ih (i := { i with hash := i.hash ++ [entry] }) ha, List.append_assoc]
    rfl

theorem gather_announced (ht : announcesAliases t (some u) = true) (ha : i.aliases = []) :
    gather false i (t :: u :: ts) =
      if Text.words u.value = [] then .error .emptyBlockParams
      else gather false { i with aliases := (Text.words u.value).map String.ofList } ts := by
  rw [gather, if_neg (not_not_intro ha), if_neg Bool.false_ne_true, List.head?_cons, ht, if_pos rfl,
    gather, if_neg (not_not_intro ha), if_pos rfl]
  cases Text.words u.value <;> rfl

theorem gather_announce (h : Announce announced names) (ha : i.aliases = []) :
    gather false i announced = .ok { i with aliases := names } := by
  obtain ⟨helper, params, hash, aliases⟩ := i
  obtain rfl : aliases = [] := ha
  cases h with
  | nothing => rfl
  | @names t u hk ht hu hn =>
    rw [gather_announced (announcesAliases_iff.2 ⟨hk, ht, u, rfl, hu⟩) rfl, if_neg hn]
    rfl

/-- Nothing may follow the names that are announced. -/
theorem eq_nil_of_gather (h : gather false i ts = .ok j) (ha : i.aliases ≠ []) :
    ts = [] ∧ j = i := by
  cases ts with
  | nil =>
    cases h
    exact ⟨rfl, rfl⟩
  | cons t ts =>
    rw [gather, if_pos ha] at h
    cases h

/-- What one piece may do: announce the last names, or add an argument. -/
theorem gather_cases (h : gather false i (t :: ts) = .ok j) (ha : i.aliases = []) :
    (Announce (t :: ts) j.aliases ∧ j = { i with aliases := j.aliases }) ∨
      (∃ entry, t.Keyed entry ∧ gather false { i with hash := i.hash ++ [entry] } ts = .ok j) ∨
      ∃ r, t.Positional r ∧ i.hash = [] ∧
        gather false { i with params := i.params ++ [r] } ts = .ok j := by
  by_cases hn : announcesAliases t ts.head? = true
  · obtain ⟨hk, ht, u, hu, hkind⟩ := announcesAliases_iff.1 hn
    obtain ⟨ts, rfl⟩ := List.head?_eq_some_iff.1 hu
    rw [gather_announced hn ha] at h
    split at h
    · cases h
    · rename_i hw
      obtain ⟨rfl, rfl⟩ := eq_nil_of_gather h (by simpa using hw)
      exact .inl ⟨.names hk ht hkind hw, rfl⟩
  · rw [gather, if_neg (not_not_intro ha), if_neg Bool.false_ne_true, if_neg hn] at h
    cases hr : t.reference with
    | error e =>
      rw [hr] at h
      cases h
    | ok r =>
      simp only [hr, bind, Except.bind, add] at h
      cases hk : t.key with
      | some key =>
        rw [hk] at h
        exact .inr (.inl ⟨(String.ofList key, r), ⟨by simp [hk], hr⟩, h⟩)
      | none =>
        by_cases hh : i.hash = []
        · simp only [hk, if_pos hh] at h
          exact .inr (.inr ⟨r, ⟨hk, hr⟩, hh, h⟩)
        · simp only [hk, if_neg hh] at h
          cases h

/-- What the pieces of a list are, and what they add to the arguments before them. -/
structure Gathered (i : Invocation) (ts : List Token) (j : Invocation)
    (positional named announced : List Token) (params : List Reference)
    (hash : List (String × Reference)) : Prop where
  pieces : ts = positional ++ (named ++ announced)
  add_params : List.Forall₂ Positional positional params
  add_hash : List.Forall₂ Keyed named hash
  announce : Announce announced j.aliases
  order : i.hash ≠ [] → positional = []
  result : j = ⟨i.helper, i.params ++ params, i.hash ++ hash, j.aliases⟩

theorem exists_gathered (h : gather false i ts = .ok j) (ha : i.aliases = []) :
    ∃ positional named announced params hash,
      Gathered i ts j positional named announced params hash := by
  -- `order` carries the induction: behind an argument with a key no positional one is left.
  induction ts generalizing i with
  | nil =>
    obtain ⟨helper, params, hash, aliases⟩ := i
    obtain rfl : aliases = [] := ha
    cases h
    refine ⟨[], [], [], [], [], rfl, .nil, .nil, .nothing, fun _ => rfl, ?_⟩
    simp only [List.append_nil]
  | cons t ts ih =>
    rcases gather_cases h ha with ⟨hannounce, hj⟩ | ⟨entry, ht, h⟩ | ⟨r, ht, hh, h⟩
    · refine ⟨[], [], t :: ts, [], [], rfl, .nil, .nil, hannounce, fun _ => rfl, ?_⟩
      simpa using hj
    · obtain ⟨positional, named, announced, params, hash, hg⟩ := ih h ha
      obtain rfl := hg.order (by simp)
      obtain rfl : params = [] := List.forall₂_nil_left_iff.1 hg.add_params
      refine ⟨[], t :: named, announced, [], entry :: hash, ?_, .nil, .cons ht hg.add_hash,
        hg.announce, fun _ => rfl, ?_⟩
      · rw [hg.pieces]
        rfl
      · simpa using hg.result
    · obtain ⟨positional, named, announced, params, hash, hg⟩ := ih h ha
      refine ⟨t :: positional, named, announced, r :: params, hash, ?_, .cons ht hg.add_params,
        hg.add_hash, hg.announce, fun hne => absurd hh hne, ?_⟩
      · rw [hg.pieces]
        rfl
      · simpa using hg.result

/-- The pieces of a text stand for these arguments: the positional ones, those with a key, and the
names that are announced. -/
def Accounts (ts : List Token) (i : Invocation) : Prop :=
  ∃ positional named announced, ts = positional ++ (named ++ announced) ∧
    List.Forall₂ Positional positional i.params ∧ List.Forall₂ Keyed named i.hash ∧
    Announce announced i.aliases ∧ i.helper = none

theorem gather_eq_ok_iff : gather false .empty ts = .ok i ↔ Accounts ts i := by
  constructor
  · intro h
    obtain ⟨positional, named, announced, params, hash, hg⟩ := exists_gathered h rfl
    have hi := hg.result
    simp only [empty, List.nil_append] at hi
    rw [hi]
    exact ⟨positional, named, announced, hg.pieces, hg.add_params, hg.add_hash, hg.announce, rfl⟩
  · rintro ⟨positional, named, announced, rfl, hp, hk, ha, hn⟩
    obtain ⟨helper, params, hash, names⟩ := i
    obtain rfl : helper = none := hn
    rw [gather_positional hp rfl rfl (kind_ne_of_keyed hk ha), gather_keyed hk rfl,
      gather_announce ha rfl]
    rfl

theorem parseArguments_eq_ok_iff :
    parseArguments s = .ok i ↔ ∃ ts, Token.all s = .ok ts ∧ Accounts ts i := by
  rw [parseArguments_eq]
  cases Token.all s with
  | error e => simp [Except.bind]
  | ok ts => simp [Except.bind, gather_eq_ok_iff]

/-- A call is a list of arguments whose first one names the helper. -/
theorem parseCall_eq_ok_iff :
    parseCall s = .ok i ↔ ∃ j, parseArguments s = .ok j ∧ promote? j = some i := by
  rw [parseCall_eq]
  cases parseArguments s with
  | error e => simp [Except.bind]
  | ok j => cases hp : promote? j <;> simp [Except.bind, hp]

/-- In a tag the first argument may name the helper. -/
theorem parseArguments_of_parse (h : parse s = .ok i) :
    ∃ j, parseArguments s = .ok j ∧ (i = j ∨ promote? j = some i) := by
  cases ha : parseArguments s with
  | error e =>
    simp only [parse, ha, bind, Except.bind] at h
    cases h
  | ok j =>
    simp only [parse, ha, bind, Except.bind, pure, Except.pure] at h
    refine ⟨j, rfl, ?_⟩
    split at h
    · cases h
    · split at h
      · cases h
        cases promote? j with
        | none => exact .inl rfl
        | some call => exact .inr rfl
      · cases h
        exact .inl rfl

theorem helper_of_parseArguments (h : parseArguments s = .ok i) : i.helper = none := by
  obtain ⟨ts, -, hi⟩ := parseArguments_eq_ok_iff.1 h
  obtain ⟨-, -, -, -, -, -, -, hn⟩ := hi
  exact hn

theorem Accounts.mem_cases (h : Accounts ts i) (ht : t ∈ ts) :
    (∃ r ∈ i.params, t.Positional r) ∨ (∃ entry ∈ i.hash, t.Keyed entry) ∨
      (t.kind = .word ∧ t.key = none) ∨
      (t.kind = .blockParams ∧ i.aliases = (Text.words t.value).map String.ofList) := by
  obtain ⟨positional, named, announced, rfl, hp, hn, ha, -⟩ := h
  rcases List.mem_append.1 ht with ht | ht
  · exact .inl (exists_mem_of_forall₂ hp ht)
  rcases List.mem_append.1 ht with ht | ht
  · exact .inr (.inl (exists_mem_of_forall₂ hn ht))
  · generalize i.aliases = names at ha
    cases ha with
    | nothing => cases ht
    | names hkey hword hu _ =>
      simp only [List.mem_cons, List.not_mem_nil, or_false] at ht
      rcases ht with rfl | rfl
      · exact .inr (.inr (.inl ⟨hword.1, hkey⟩))
      · exact .inr (.inr (.inr ⟨hu, rfl⟩))

theorem Accounts.mem_of_key (h : Accounts ts i) (ht : t ∈ ts) (hk : t.key ≠ none) :
    (∃ entry ∈ i.hash, t.Keyed entry) ∨ (t.kind = .blockParams ∧
      i.aliases = (Text.words t.value).map String.ofList) := by
  rcases h.mem_cases ht with ⟨r, -, hr⟩ | hentry | ⟨-, hword⟩ | hparams
  · exact absurd hr.1 hk
  · exact .inl hentry
  · exact absurd hword hk
  · exact .inr hparams

theorem Accounts.aliases_eq_nil_iff (h : Accounts ts i) :
    i.aliases = [] ↔ ∀ t ∈ ts, t.kind ≠ .blockParams := by
  constructor
  · intro hnil t ht
    obtain ⟨positional, named, announced, rfl, hp, hn, ha, -⟩ := h
    rw [hnil] at ha
    generalize hnames : ([] : List String) = names at ha
    cases ha with
    | names _ _ _ hw => exact absurd (List.map_eq_nil_iff.1 hnames.symm) hw
    | nothing =>
      rw [List.append_nil] at ht
      rcases List.mem_append.1 ht with ht | ht
      · obtain ⟨r, -, hr⟩ := exists_mem_of_forall₂ hp ht
        exact kind_ne_of_reference hr.2
      · obtain ⟨entry, -, hr⟩ := exists_mem_of_forall₂ hn ht
        exact kind_ne_of_reference hr.2
  · intro hts
    obtain ⟨positional, named, announced, rfl, hp, hn, ha, -⟩ := h
    generalize i.aliases = names at ha
    cases ha with
    | nothing => rfl
    | @names t u _ _ hu _ => exact absurd hu (hts u (by simp))

end Invocation
end

namespace Invocation

/-- A text is read as arguments exactly when its pieces are, in order, the positional arguments, those
with a key, and the names that `as` announces. A piece with a key is the argument under it, unless
it is the block parameters: their key is dropped. -/
theorem parseArguments_accounts (s : List Char) (i : Invocation) :
    (parseArguments s = .ok i ↔ ∃ ts, Token.all s = .ok ts ∧ Accounts ts i) ∧
    ∀ ts, parseArguments s = .ok i → Token.all s = .ok ts → ∀ t ∈ ts, t.key ≠ none →
      (∃ entry ∈ i.hash, t.Keyed entry) ∨
        (t.kind = .blockParams ∧ i.aliases = (Text.words t.value).map String.ofList) := by
  refine ⟨parseArguments_eq_ok_iff, ?_⟩
  intro ts h hall t ht hk
  obtain ⟨us, hus, hi⟩ := parseArguments_eq_ok_iff.1 h
  obtain rfl : ts = us := Except.ok.inj (hall.symm.trans hus)
  exact hi.mem_of_key ht hk

/-- The key of block parameters is accepted and means nothing. -/
theorem announced_key_dropped :
    ∃ ts i, Token.all "as k=|x|".toList = .ok ts ∧ (∃ t ∈ ts, t.key = some ['k']) ∧
      parseArguments "as k=|x|".toList = .ok i ∧ i.hash = [] ∧ i.aliases = ["x"] := by
  let word : Token := ⟨.word, ['a', 's'], none, "k=|x|".toList⟩
  let names : Token := ⟨.blockParams, ['x'], some ['k'], []⟩
  have hall : Token.all "as k=|x|".toList = .ok [word, names] := by decide +kernel
  have hi : Accounts [word, names] ⟨none, [], [], ["x"]⟩ :=
    ⟨[], [], [word, names], rfl, .nil, .nil, .names rfl ⟨rfl, rfl⟩ rfl (by decide), rfl⟩
  exact ⟨_, _, hall, ⟨names, by simp, rfl⟩, parseArguments_eq_ok_iff.2 ⟨_, hall, hi⟩, rfl, rfl⟩

end Invocation
end TextTemplate

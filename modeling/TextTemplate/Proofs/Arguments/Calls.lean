import Mathlib.Logic.Relation
import TextTemplate.Proofs.Arguments.Order
import TextTemplate.Proofs.Scanning.Places

/-! The calls inside arguments: each stands in a group, which is read by itself. -/

namespace TextTemplate

/-- The text has this group among its pieces. -/
def Token.Group (s inner : List Char) : Prop := ∃ ts, all s = .ok ts ∧ ∃ t ∈ ts, t.kind = .group inner

/-- The text has block parameters among its pieces. -/
def Token.NamesParams (s : List Char) : Prop :=
  ∃ ts, all s = .ok ts ∧ ∃ t ∈ ts, t.kind = .blockParams

/-- The call is a positional argument, or one under a key. -/
inductive Invocation.Argument (i call : Invocation) : Prop
  | positional (h : .call call ∈ i.params)
  | keyed {key : String} (h : (key, .call call) ∈ i.hash)

/-- The arguments and the aliases are those that the text says. A call or a value may have its first
word as helper. -/
structure Invocation.Reads (s : List Char) (i j : Invocation) : Prop where
  arguments : parseArguments s = .ok j
  aliases : i.aliases = j.aliases
  calls : ∀ call, i.Argument call ↔ j.Argument call

section
variable {s inner : List Char} {t : Token} {ts : List Token} {i j call : Invocation} {r : Reference}

namespace Token

/-- Only a group stands for a call. -/
theorem reference_eq_call_iff :
    t.reference = .ok (.call call) ↔
      ∃ inner, t.kind = .group inner ∧ Invocation.parseCall inner = .ok call := by
  obtain ⟨kind, value, key, tail⟩ := t
  cases kind with
  | group inner => cases h : Invocation.parseCall inner <;> simp [reference, h, Except.map]
  | blockParams => simp [reference]
  | string =>
    cases value with
    | nil => simp [reference]
    | cons quote s => cases h : stringLiteral quote s <;> simp [reference, h, Except.map]
  | word =>
    simp only [reference, reduceCtorEq, false_and, exists_false, iff_false]
    intro h
    rw [Reference.ofWord] at h
    repeat' split at h
    all_goals first | cases h | skip
    cases hp : Path.parse value <;> simp [hp, Except.map] at h

/-! The pieces behind the first one -/

theorem splitKey_suffix (s : List Char) : (splitKey s).2 <:+ s :=
  ⟨keyText (splitKey s).1, (eq_keyText_append s).symm⟩

/-- The tail of a piece is a text without white space before it. -/
theorem exists_suffix_of_next? (h : next? s = .ok (some t)) :
    ∃ r, r <:+ s ∧ t.tail = Text.trimStart r := by
  rw [next?] at h
  split at h
  · cases h
  · split at h
    · rename_i hr
      cases h
      obtain ⟨w, -, hw⟩ := (begins_of_readBody hr).exists_append
      have hsuffix : _ <:+ (splitKey s).2 := ⟨w, hw.symm⟩
      exact ⟨_, hsuffix.trans (splitKey_suffix s), rfl⟩
    · cases h

theorem trim_tail (h : first? s = .ok (some t)) : Text.trim t.tail = t.tail := by
  obtain ⟨r, hr, ht⟩ := exists_suffix_of_next? h
  have htail : t.tail <:+ Text.trim s := ht ▸ (List.dropWhile_suffix _).trans hr
  by_cases hn : t.tail = []
  · rw [hn]
    rfl
  · apply Text.Solid.trim_eq
    refine ⟨⟨_, List.head?_eq_some_head hn, ?_⟩, ⟨_, List.getLast?_eq_some_getLast hn, ?_⟩⟩
    · apply Text.head?_trimStart r
      rw [← ht]
      exact List.head?_eq_some_head hn
    · apply Text.getLast?_trimEnd (Text.trimStart s)
      obtain ⟨w, hw⟩ := htail
      rw [← Text.trim, ← hw, Option.mem_def, List.getLast?_append, List.getLast?_eq_some_getLast hn,
        Option.some_or]

theorem all_of_first? (h : first? s = .ok (some t)) : all s = (all t.tail).map (t :: ·) := by
  rw [all, allFrom_of_next? h, all, trim_tail h]

theorem group_iff_of_first? (h : first? s = .ok (some t)) {us : List Token} (ht : all t.tail = .ok us) :
    Group s inner ↔ t.kind = .group inner ∨ Group t.tail inner := by
  have hall : all s = .ok (t :: us) := by
    rw [all_of_first? h, ht]
    rfl
  simp only [Group, hall, ht, Except.ok.injEq, exists_eq_left', List.exists_mem_cons_iff]

end Token

namespace Invocation

theorem Accounts.argument_iff (h : Accounts ts i) :
    i.Argument call ↔ ∃ t ∈ ts, t.reference = .ok (.call call) := by
  constructor
  · obtain ⟨positional, named, announced, rfl, hp, hn, -, -⟩ := h
    rintro (hc | @⟨key, hc⟩)
    · obtain ⟨t, ht, hr⟩ := exists_mem_of_forall₂ hp.flip hc
      exact ⟨t, List.mem_append_left _ ht, hr.2⟩
    · obtain ⟨t, ht, hr⟩ := exists_mem_of_forall₂ hn.flip hc
      exact ⟨t, List.mem_append_right _ (List.mem_append_left _ ht), hr.2⟩
  · rintro ⟨t, ht, hr⟩
    obtain ⟨inner, hk, -⟩ := Token.reference_eq_call_iff.1 hr
    rcases h.mem_cases ht with ⟨r, hmem, h⟩ | ⟨⟨key, r⟩, hmem, h⟩ | ⟨hw, -⟩ | ⟨hw, -⟩
    · cases hr.symm.trans h.2
      exact .positional hmem
    · cases hr.symm.trans h.2
      exact .keyed hmem
    · cases hk.symm.trans hw
    · cases hk.symm.trans hw

theorem Accounts.exists_call (h : Accounts ts i) (ht : t ∈ ts) (hk : t.kind = .group inner) :
    ∃ call, parseCall inner = .ok call := by
  have hr : ∃ r, t.reference = .ok r := by
    rcases h.mem_cases ht with ⟨r, -, h⟩ | ⟨entry, -, h⟩ | ⟨hw, -⟩ | ⟨hw, -⟩
    · exact ⟨r, h.2⟩
    · exact ⟨entry.2, h.2⟩
    · cases hk.symm.trans hw
    · cases hk.symm.trans hw
  obtain ⟨r, hr⟩ := hr
  simp only [Token.reference, hk] at hr
  cases hc : parseCall inner with
  | error e =>
    rw [hc] at hr
    cases hr
  | ok call => exact ⟨call, rfl⟩

namespace Reads

theorem of_parseArguments (h : parseArguments s = .ok i) : Reads s i i := ⟨h, rfl, fun _ => .rfl⟩

/-- The first argument, where it becomes the name of the helper, is no call. -/
theorem of_promote? (h : parseArguments s = .ok j) (hp : promote? j = some i) : Reads s i j := by
  rw [promote?] at hp
  split at hp
  · cases hp
  · rename_i p ps hps
    obtain ⟨name, hname, rfl⟩ := Option.map_eq_some_iff.1 hp
    refine ⟨h, rfl, fun call => ⟨?_, ?_⟩⟩
    · rintro (hc | hc)
      · exact .positional (hps ▸ List.mem_cons_of_mem _ hc)
      · exact .keyed hc
    · rintro (hc | hc)
      · rw [hps] at hc
        rcases List.mem_cons.1 hc with rfl | hc
        · cases hname
        · exact .positional hc
      · exact .keyed hc

theorem exists_of_parseCall (h : parseCall s = .ok i) : ∃ j, Reads s i j := by
  obtain ⟨j, ha, hp⟩ := parseCall_eq_ok_iff.1 h
  exact ⟨j, of_promote? ha hp⟩

theorem exists_of_parse (h : parse s = .ok i) : ∃ j, Reads s i j := by
  obtain ⟨j, ha, rfl | hp⟩ := parseArguments_of_parse h
  · exact ⟨i, of_parseArguments ha⟩
  · exact ⟨j, of_promote? ha hp⟩

theorem argument_iff (h : Reads s i j) :
    i.Argument call ↔ ∃ inner, Token.Group s inner ∧ parseCall inner = .ok call := by
  obtain ⟨ts, hall, hj⟩ := parseArguments_eq_ok_iff.1 h.arguments
  rw [h.calls, hj.argument_iff]
  constructor
  · rintro ⟨t, ht, hr⟩
    obtain ⟨inner, hk, hc⟩ := Token.reference_eq_call_iff.1 hr
    exact ⟨inner, ⟨ts, hall, t, ht, hk⟩, hc⟩
  · rintro ⟨inner, ⟨us, hus, t, ht, hk⟩, hc⟩
    obtain rfl : ts = us := Except.ok.inj (hall.symm.trans hus)
    exact ⟨t, ht, Token.reference_eq_call_iff.2 ⟨inner, hk, hc⟩⟩

theorem exists_call (h : Reads s i j) (hg : Token.Group s inner) :
    ∃ call, parseCall inner = .ok call ∧ i.Argument call := by
  obtain ⟨ts, hall, hj⟩ := parseArguments_eq_ok_iff.1 h.arguments
  obtain ⟨us, hus, t, ht, hk⟩ := id hg
  obtain rfl : ts = us := Except.ok.inj (hall.symm.trans hus)
  obtain ⟨call, hc⟩ := hj.exists_call ht hk
  exact ⟨call, hc, h.argument_iff.2 ⟨inner, hg, hc⟩⟩

theorem aliases_eq_nil_iff (h : Reads s i j) : i.aliases = [] ↔ ¬ Token.NamesParams s := by
  obtain ⟨ts, hall, hj⟩ := parseArguments_eq_ok_iff.1 h.arguments
  rw [h.aliases, hj.aliases_eq_nil_iff, Token.NamesParams]
  constructor
  · rintro hts ⟨us, hus, t, ht, hk⟩
    obtain rfl : ts = us := Except.ok.inj (hall.symm.trans hus)
    exact hts t ht hk
  · intro hn t ht hk
    exact hn ⟨ts, hall, t, ht, hk⟩

end Reads

/-- A call has aliases exactly where its text has block parameters. -/
theorem aliases_parseCall (h : parseCall s = .ok call) :
    call.aliases = [] ↔ ¬ Token.NamesParams s := by
  obtain ⟨j, hj⟩ := Reads.exists_of_parseCall h
  exact hj.aliases_eq_nil_iff

open Relation

/-- Where the arguments are read, so are the groups at any depth. -/
theorem Reads.exists_nested (h : Reads s i j) (hg : TransGen Token.Group s inner) :
    ∃ call, parseCall inner = .ok call ∧ TransGen Argument i call := by
  -- From the outermost group inwards: each call reads the next group as its arguments.
  induction hg using TransGen.head_induction_on generalizing i j with
  | single hg =>
    obtain ⟨call, hc, hi⟩ := h.exists_call hg
    exact ⟨call, hc, .single hi⟩
  | head hg _ ih =>
    obtain ⟨k, hk, hi⟩ := h.exists_call hg
    obtain ⟨_, hmid⟩ := exists_of_parseCall hk
    obtain ⟨call, hc, hcall⟩ := ih hmid
    exact ⟨call, hc, .head hi hcall⟩

/-- The calls at any depth are those of the groups at any depth. -/
theorem Reads.nested_iff (h : Reads s i j) :
    TransGen Argument i call ↔ ∃ inner, TransGen Token.Group s inner ∧ parseCall inner = .ok call := by
  constructor
  · intro hc
    induction hc using TransGen.head_induction_on generalizing s j with
    | single hc =>
      obtain ⟨inner, hg, hp⟩ := h.argument_iff.1 hc
      exact ⟨inner, .single hg, hp⟩
    | head hk _ ih =>
      obtain ⟨mid, hg, hp⟩ := h.argument_iff.1 hk
      obtain ⟨_, hmid⟩ := exists_of_parseCall hp
      obtain ⟨inner, hinner, hc⟩ := ih hmid
      exact ⟨inner, .head hg hinner, hc⟩
  · rintro ⟨inner, hg, hc⟩
    obtain ⟨k, hk, hi⟩ := h.exists_nested hg
    obtain rfl : call = k := Except.ok.inj (hc.symm.trans hk)
    exact hi

end Invocation
end
end TextTemplate

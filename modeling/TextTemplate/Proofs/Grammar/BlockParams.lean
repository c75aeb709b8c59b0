import TextTemplate.Proofs.Arguments.Calls
import TextTemplate.Proofs.Grammar.Mentions

/-! Aliases stand on blocks and their branches, and on the calls in whose groups block parameters are
written. -/

namespace TextTemplate
open Relation Zipper

/-- The tag goes on with arguments. -/
def Tag.Kind.HasArguments (k : Tag.Kind) : Prop :=
  k ∈ [escapedValue, rawValue, opening, inverse, alternative, partialTag, partialBlock]

/-- The text stands in a group of the tag's arguments, at any depth. -/
def Tag.Groups (t : Tag) (inner : List Char) : Prop :=
  t.kind.HasArguments ∧ TransGen Token.Group t.content inner

/-- The call names a partial, or stands in arguments, at any depth. -/
def Symbol.Calls (s : Symbol) (call : Invocation) : Prop :=
  s.Mentions .name call ∨ ∃ role i, s.Mentions role i ∧ TransGen Invocation.Argument i call

/-- The call names a partial, or stands in arguments, at any depth. -/
def Template.Calls (T : Template) (call : Invocation) : Prop :=
  T.Mentions .name call ∨ ∃ role i, T.Mentions role i ∧ TransGen Invocation.Argument i call

/-- The calls of the symbol are those that the groups of the tag are. -/
structure Tag.Yields (t : Tag) (s : Symbol) : Prop where
  exists_group : ∀ call, s.Calls call → ∃ inner, t.Groups inner ∧ Invocation.parseCall inner = .ok call
  exists_call : ∀ inner, t.Groups inner → ∃ call, Invocation.parseCall inner = .ok call ∧ s.Calls call
  aliases : ∀ role i, s.Mentions role i → role = .value ∨ role = .arguments → i.aliases = []

section
variable {t : Tag} {s : Symbol} {i j call : Invocation} {name : PartialName}
  {close inner content : List Char}

theorem first?_of_firstToken {u : Token} (h : firstToken content = .ok u) :
    Token.first? content = .ok (some u) := by
  rw [firstToken] at h
  split at h <;> cases h
  assumption

/-- The name of a partial is computed exactly where it is written as a group. -/
theorem computed_iff {u : Token} (h : partialName u = .ok (close, name)) :
    name = .computed call ↔ ∃ inner, u.kind = .group inner ∧ Invocation.parseCall inner = .ok call := by
  obtain ⟨kind, value, key, tail⟩ := u
  cases key with
  | some key => cases h
  | none =>
    cases kind with
    | word =>
      cases h
      simp
    | blockParams => cases h
    | string =>
      cases value with
      | nil => cases h
      | cons quote s =>
        obtain ⟨v, -, h⟩ := bind_eq_ok h
        cases h
        simp
    | group inner =>
      obtain ⟨k, hk, h⟩ := bind_eq_ok h
      cases h
      simp [withinTag_eq_ok hk]

theorem exists_computed {u : Token} (h : partialName u = .ok (close, name))
    (hk : u.kind = .group inner) :
    ∃ call, Invocation.parseCall inner = .ok call ∧ name = .computed call := by
  have hc : ∃ call, Invocation.parseCall inner = .ok call := by
    obtain ⟨kind, value, key, tail⟩ := u
    obtain rfl : kind = .group inner := hk
    cases key with
    | some key => cases h
    | none =>
      obtain ⟨call, hc, -⟩ := bind_eq_ok h
      exact ⟨call, withinTag_eq_ok hc⟩
  obtain ⟨call, hc⟩ := hc
  exact ⟨call, hc, (computed_iff h).2 ⟨inner, hk, hc⟩⟩

theorem Tag.not_groups_of_blank (hc : t.content = []) : ¬ t.Groups inner := by
  rintro ⟨-, h⟩
  obtain ⟨b, ⟨ts, hts, u, hu, -⟩, -⟩ := TransGen.head'_iff.1 h
  rw [hc, Token.all, show Text.trim [] = [] from rfl, Token.allFrom_nil] at hts
  cases hts
  cases hu

namespace Tag.Yields

theorem of_silent (hg : ∀ inner, ¬ t.Groups inner) (hs : ∀ role i, ¬ s.Mentions role i) :
    t.Yields s where
  exists_group := by
    rintro call (h | ⟨role, i, h, -⟩)
    · exact absurd h (hs _ _)
    · exact absurd h (hs _ _)
  exists_call inner h := absurd h (hg inner)
  aliases role i h := absurd h (hs role i)

/-- A tag that holds one list of arguments. -/
theorem of_reads (role : Role) (hk : t.kind.HasArguments) (hr : Invocation.Reads t.content i j)
    (hs : ∀ r k, s.Mentions r k ↔ r = role ∧ k = i) (hn : role ≠ .name)
    (ha : role = .value ∨ role = .arguments → i.aliases = []) : t.Yields s where
  exists_group := by
    rintro call (h | ⟨r, k, h, hc⟩)
    · exact absurd ((hs _ _).1 h).1.symm hn
    · obtain ⟨rfl, rfl⟩ := (hs r k).1 h
      obtain ⟨inner, hg, hp⟩ := hr.nested_iff.1 hc
      exact ⟨inner, ⟨hk, hg⟩, hp⟩
  exists_call inner h := by
    obtain ⟨call, hp, hc⟩ := hr.exists_nested h.2
    exact ⟨call, hp, .inr ⟨role, i, (hs role i).2 ⟨rfl, rfl⟩, hc⟩⟩
  aliases r k h := by
    obtain ⟨rfl, rfl⟩ := (hs r k).1 h
    exact ha

/-- A partial tag: its name may be a group, and arguments follow it. -/
theorem of_partialTag (hk : t.kind.HasArguments) (hp : partialTag t.content = .ok (close, name, i))
    (hs : ∀ r k, s.Mentions r k ↔ (r = .arguments ∧ k = i) ∨ (r = .name ∧ name = .computed k)) :
    t.Yields s := by
  obtain ⟨u, hfirst, hname, ha, -, haliases⟩ := exists_of_partialTag hp
  have hu := first?_of_firstToken hfirst
  have hi := Invocation.Reads.of_parseArguments ha
  obtain ⟨us, hus, -⟩ := Invocation.parseArguments_eq_ok_iff.1 ha
  -- A group of the tag is the name itself, or stands among the arguments behind the name.
  have hgroup : ∀ b, Token.Group t.content b ↔ u.kind = .group b ∨ Token.Group u.tail b :=
    fun b => Token.group_iff_of_first? hu hus
  constructor
  · rintro call (h | ⟨r, k, h, hc⟩)
    · obtain ⟨⟨⟩, -⟩ | ⟨-, hcall⟩ := (hs _ _).1 h
      obtain ⟨inner, hkind, hparse⟩ := (computed_iff hname).1 hcall
      exact ⟨inner, ⟨hk, .single ((hgroup _).2 (.inl hkind))⟩, hparse⟩
    · obtain ⟨-, rfl⟩ | ⟨-, hcall⟩ := (hs _ _).1 h
      · obtain ⟨inner, hg, hparse⟩ := hi.nested_iff.1 hc
        obtain ⟨b, hb, hg⟩ := TransGen.head'_iff.1 hg
        exact ⟨inner, ⟨hk, .head' ((hgroup _).2 (.inr hb)) hg⟩, hparse⟩
      · obtain ⟨b, hkind, hb⟩ := (computed_iff hname).1 hcall
        obtain ⟨_, hr⟩ := Invocation.Reads.exists_of_parseCall hb
        obtain ⟨inner, hg, hparse⟩ := hr.nested_iff.1 hc
        exact ⟨inner, ⟨hk, .head ((hgroup _).2 (.inl hkind)) hg⟩, hparse⟩
  · rintro inner ⟨-, hg⟩
    obtain ⟨b, hb, hg⟩ := TransGen.head'_iff.1 hg
    rcases (hgroup _).1 hb with hkind | hb
    · obtain ⟨k, hparse, hcall⟩ := exists_computed hname hkind
      have hmention : s.Mentions .name k := (hs _ _).2 (.inr ⟨rfl, hcall⟩)
      rcases reflTransGen_iff_eq_or_transGen.1 hg with rfl | hg
      · exact ⟨k, hparse, .inl hmention⟩
      · obtain ⟨_, hr⟩ := Invocation.Reads.exists_of_parseCall hparse
        obtain ⟨call, hc, hnested⟩ := hr.exists_nested hg
        exact ⟨call, hc, .inr ⟨_, _, hmention, hnested⟩⟩
    · obtain ⟨call, hc, hnested⟩ := hi.exists_nested (.head' hb hg)
      exact ⟨call, hc, .inr ⟨_, _, (hs _ _).2 (.inl ⟨rfl, rfl⟩), hnested⟩⟩
  · intro r k h hr
    obtain ⟨rfl, rfl⟩ | ⟨rfl, -⟩ := (hs _ _).1 h
    · exact haliases
    · simp at hr

theorem of_symbol (h : t.symbol = .ok s) : t.Yields s := by
  cases hk : t.kind with
  | comment | quoted | closing =>
    rw [Tag.symbol, hk] at h
    cases h
    exact of_silent (by simp [Groups, hk, Kind.HasArguments]) (by simp)
  | definition =>
    rw [Tag.symbol, hk] at h
    obtain ⟨name, -, h⟩ := bind_eq_ok h
    cases h
    exact of_silent (by simp [Groups, hk, Kind.HasArguments]) (by simp)
  | escapedValue | rawValue =>
    rw [Tag.symbol, hk] at h
    obtain ⟨i, hi, h⟩ := bind_eq_ok h
    obtain ⟨_, hr⟩ := Invocation.Reads.exists_of_parse (withinTag_eq_ok hi)
    by_cases ha : i.aliases = []
    · simp only [ha, ne_eq, not_true, if_false] at h
      cases h
      exact of_reads .value (by simp [hk, Kind.HasArguments]) hr (by simp) (by simp) fun _ => ha
    · simp only [ha, ne_eq, not_false_eq_true, if_true] at h
      cases h
  | opening | inverse =>
    rw [Tag.symbol, hk] at h
    obtain ⟨name, -, h⟩ := bind_eq_ok h
    obtain ⟨i, hi, h⟩ := bind_eq_ok h
    obtain ⟨_, hr⟩ := Invocation.Reads.exists_of_parse (withinTag_eq_ok hi)
    cases h
    exact of_reads .block (by simp [hk, Kind.HasArguments]) hr (by simp) (by simp) (by simp)
  | alternative =>
    rw [Tag.symbol, hk] at h
    by_cases hc : t.content = []
    · simp only [elseSymbol, elseCondition, hc, if_true] at h
      cases h
      exact of_silent (fun _ => not_groups_of_blank hc) (by simp)
    · simp only [elseSymbol, elseCondition, hc, if_false] at h
      cases hi : withinTag (Invocation.parse t.content) with
      | error e =>
        rw [hi] at h
        cases h
      | ok i =>
        rw [hi] at h
        cases h
        obtain ⟨_, hr⟩ := Invocation.Reads.exists_of_parse (withinTag_eq_ok hi)
        exact of_reads .condition (by simp [hk, Kind.HasArguments]) hr (by simp [eq_comm]) (by simp) (by simp)
  | partialTag | partialBlock =>
    rw [Tag.symbol, hk] at h
    obtain ⟨⟨close, name, i⟩, hp, h⟩ := bind_eq_ok h
    cases h
    exact of_partialTag (by simp [hk, Kind.HasArguments]) hp (by simp)

end Tag.Yields

theorem Template.calls_iff {T : Template} {symbols : List Symbol}
    (h : ∀ role i, T.Mentions role i ↔ Symbol.AnyMentions role i symbols) :
    T.Calls call ↔ ∃ s ∈ symbols, s.Calls call := by
  simp only [Template.Calls, Symbol.Calls, h, Symbol.AnyMentions]
  constructor
  · rintro (⟨s, hs, hm⟩ | ⟨role, i, ⟨s, hs, hm⟩, hc⟩)
    · exact ⟨s, hs, .inl hm⟩
    · exact ⟨s, hs, .inr ⟨role, i, hm, hc⟩⟩
  · rintro ⟨s, hs, hm | ⟨role, i, hm, hc⟩⟩
    · exact .inl ⟨s, hs, hm⟩
    · exact .inr ⟨role, i, ⟨s, hs, hm⟩, hc⟩

theorem Template.calls_of_compile {d : Delimiters} {source : String} {T : Template}
    (h : Template.compile d source = .ok T) :
    T.Calls call ↔ ∃ t ∈ (Tag.scan d source.toList).tags, ∃ inner, t.Groups inner ∧
      Invocation.parseCall inner = .ok call := by
  obtain ⟨symbols, hsymbols, hm⟩ := Template.exists_symbols h
  rw [Template.calls_iff hm]
  constructor
  · rintro ⟨s, hs, hc⟩
    obtain ⟨t, ht, hts⟩ := exists_mem_of_forall₂ hsymbols.flip hs
    exact ⟨t, ht, (Tag.Yields.of_symbol hts).exists_group call hc⟩
  · rintro ⟨t, ht, inner, hg, hp⟩
    obtain ⟨s, hs, hts⟩ := exists_mem_of_forall₂ hsymbols ht
    obtain ⟨k, hk, hc⟩ := (Tag.Yields.of_symbol hts).exists_call inner hg
    obtain rfl : call = k := Except.ok.inj (hp.symm.trans hk)
    exact ⟨s, hs, hc⟩

theorem Template.exists_parseCall_of_compile {d : Delimiters} {source : String} {T : Template}
    (h : Template.compile d source = .ok T) (ht : t ∈ (Tag.scan d source.toList).tags)
    (hg : t.Groups inner) : ∃ call, Invocation.parseCall inner = .ok call := by
  obtain ⟨symbols, hsymbols, -⟩ := Template.exists_symbols h
  obtain ⟨s, -, hts⟩ := exists_mem_of_forall₂ hsymbols ht
  obtain ⟨call, hp, -⟩ := (Tag.Yields.of_symbol hts).exists_call inner hg
  exact ⟨call, hp⟩

/-- A value has no aliases, and neither have the arguments of a partial. The calls are what is
written in groups; such a call has aliases exactly where block parameters are written in its
group. -/
theorem Template.aliases_of_compile (d : Delimiters) (source : String) (T : Template)
    (h : Template.compile d source = .ok T) :
    (∀ i, T.Mentions .value i ∨ T.Mentions .arguments i → i.aliases = []) ∧
      (∀ call, T.Calls call ↔ ∃ t ∈ (Tag.scan d source.toList).tags, ∃ inner, t.Groups inner ∧
        Invocation.parseCall inner = .ok call) ∧
      (∀ t ∈ (Tag.scan d source.toList).tags, ∀ inner, t.Groups inner →
        ∃ call, Invocation.parseCall inner = .ok call ∧
          (call.aliases = [] ↔ ¬ Token.NamesParams inner)) := by
  refine ⟨?_, fun call => calls_of_compile h, ?_⟩
  · obtain ⟨symbols, hsymbols, hm⟩ := Template.exists_symbols h
    rintro i (hi | hi) <;> obtain ⟨s, hs, hi⟩ := (hm _ _).1 hi <;>
      obtain ⟨t, -, hts⟩ := exists_mem_of_forall₂ hsymbols.flip hs
    · exact (Tag.Yields.of_symbol hts).aliases _ _ hi (.inl rfl)
    · exact (Tag.Yields.of_symbol hts).aliases _ _ hi (.inr rfl)
  · intro t ht inner hg
    obtain ⟨call, hp⟩ := exists_parseCall_of_compile h ht hg
    exact ⟨call, hp, Invocation.aliases_parseCall hp⟩

theorem Template.aliases_of_compile_nested :
    ∃ T call, Template.compile .braces "\x7b\x7bf (g x)\x7d\x7d" = .ok T ∧ T.Calls call ∧
      call.aliases = [] := by
  let t : Tag := ⟨.escapedValue, [], "f (g x)".toList, [], "\x7b\x7bf (g x)\x7d\x7d".toList⟩
  let f : Token := ⟨.word, ['f'], none, "(g x)".toList⟩
  let g : Token := ⟨.group "g x".toList, "(g x)".toList, none, []⟩
  have hcompile : (Template.compile .braces "\x7b\x7bf (g x)\x7d\x7d").toOption.isSome := by
    decide +kernel
  have ht : t ∈ (Tag.scan .braces "\x7b\x7bf (g x)\x7d\x7d".toList).tags := by decide +kernel
  have hall : Token.all t.content = .ok [f, g] := by decide +kernel
  have hinner : Token.all "g x".toList =
      .ok [⟨.word, ['g'], none, ['x']⟩, ⟨.word, ['x'], none, []⟩] := by decide +kernel
  have hg : t.Groups "g x".toList :=
    ⟨by simp [t, Tag.Kind.HasArguments], .single ⟨_, hall, g, by simp, rfl⟩⟩
  obtain ⟨T, hT⟩ := Option.isSome_iff_exists.1 hcompile
  have hT := toOption_eq_some hT
  obtain ⟨-, hcalls, hgroups⟩ := Template.aliases_of_compile _ _ T hT
  obtain ⟨call, hp, ha⟩ := hgroups t ht _ hg
  refine ⟨T, call, hT, (hcalls call).2 ⟨t, ht, _, hg, hp⟩, ha.2 ?_⟩
  rintro ⟨us, hus, u, hu, hk⟩
  obtain rfl := Except.ok.inj (hinner.symm.trans hus)
  simp at hu
  obtain rfl | rfl := hu <;> cases hk

/-- A call inside arguments may have aliases. -/
theorem Template.call_with_aliases :
    ∃ T call, Template.compile .braces "\x7b\x7bf (g as |x|)\x7d\x7d" = .ok T ∧ T.Calls call ∧
      call.aliases ≠ [] := by
  let t : Tag :=
    ⟨.escapedValue, [], "f (g as |x|)".toList, [], "\x7b\x7bf (g as |x|)\x7d\x7d".toList⟩
  let f : Token := ⟨.word, ['f'], none, "(g as |x|)".toList⟩
  let g : Token := ⟨.group "g as |x|".toList, "(g as |x|)".toList, none, []⟩
  let names : Token := ⟨.blockParams, ['x'], none, []⟩
  have hcompile : (Template.compile .braces "\x7b\x7bf (g as |x|)\x7d\x7d").toOption.isSome := by
    decide +kernel
  have ht : t ∈ (Tag.scan .braces "\x7b\x7bf (g as |x|)\x7d\x7d".toList).tags := by decide +kernel
  have hall : Token.all t.content = .ok [f, g] := by decide +kernel
  have hinner : Token.all "g as |x|".toList = .ok [⟨.word, ['g'], none, "as |x|".toList⟩,
      ⟨.word, ['a', 's'], none, "|x|".toList⟩, names] := by
    decide +kernel
  have hg : t.Groups "g as |x|".toList :=
    ⟨by simp [t, Tag.Kind.HasArguments], .single ⟨_, hall, g, by simp, rfl⟩⟩
  obtain ⟨T, hT⟩ := Option.isSome_iff_exists.1 hcompile
  have hT := toOption_eq_some hT
  obtain ⟨call, hp⟩ := exists_parseCall_of_compile hT ht hg
  refine ⟨T, call, hT, (calls_of_compile hT).2 ⟨t, ht, _, hg, hp⟩, fun ha => ?_⟩
  exact (Invocation.aliases_parseCall hp).1 ha ⟨_, hinner, names, by simp [names], rfl⟩

end
end TextTemplate

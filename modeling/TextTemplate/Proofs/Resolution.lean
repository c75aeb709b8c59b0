import Mathlib.Data.List.Basic
import TextTemplate.Scope

/-! What a path means: the first of its sources that is defined, unless one of them knows the name
that the path begins with but nothing of what the path reads there. -/

namespace TextTemplate.Scope

/-- Where the value of a path may come from. -/
inductive Source
  | special
  | binding
  | context
  | extra

/-- The order in which the sources count. -/
def Source.rank : Source → Nat
  | special => 0
  | binding => 1
  | context => 2
  | extra => 3

theorem Source.rank_injective {j k : Source} (h : j.rank = k.rank) : j = k := by
  cases j <;> cases k <;> first | rfl | cases h

/-- What the nearest of the frames that has something has. -/
def Nearest {α : Type} (look : Frame → Option α) (fs : List Frame) (a : α) : Prop :=
  ∃ inner f outer, fs = inner ++ f :: outer ∧ look f = some a ∧ ∀ g ∈ inner, look g = none

/-- The value of an `@` name, seen from so many frames further out. -/
inductive IsSpecial (s : Scope) (depth : Nat) : String → Value → Prop
  | root {f : Frame} (h : s.frames.getLast? = some f) : IsSpecial s depth "root" f.context
  | iteration {name : String} {i : Iteration} {v : Value} (hn : name ≠ "root")
      (hi : Nearest Frame.iteration (s.frames.drop depth) i) (hv : i.special? name = some v) :
      IsSpecial s depth name v

/-- The value that a path starts from in a source, and the keys that it reads there. -/
inductive Base (s : Scope) (extra : Option Value) (p : Path) : Source → Value → List String → Prop
  | special {name : String} {rest : List String} {v : Value}
      (hp : p.segments = ("@" ++ name) :: rest) (h : s.IsSpecial p.depth name v) :
      Base s extra p .special v rest
  | binding {first : String} {rest : List String} {v : Value} (hs : p.strict = false)
      (hp : p.segments = first :: rest)
      (h : Nearest (fun f => f.bindings.get? first) (s.frames.drop p.depth) v) :
      Base s extra p .binding v rest
  | context {f : Frame} {fs : List Frame} (h : s.frames.drop p.depth = f :: fs) :
      Base s extra p .context f.context p.segments
  | extra {v : Value} (h : extra = some v) : Base s extra p .extra v p.segments

/-- The source defines the path, with this value. -/
def Gives (s : Scope) (extra : Option Value) (p : Path) (k : Source) (v : Value) : Prop :=
  ∃ base keys, s.Base extra p k base keys ∧ base.drill? keys = some v

/-- The value in the first source that defines the path. -/
def FirstDefined (s : Scope) (extra : Option Value) (p : Path) (v : Value) : Prop :=
  ∃ k, s.Gives extra p k v ∧ ∀ j : Source, j.rank < k.rank → ∀ w, ¬ s.Gives extra p j w

/-- The name that the path begins with belongs to the source: an `@` name is special, any other may
be bound. -/
inductive Owns (s : Scope) (p : Path) : Source → Prop
  | special {name : String} {rest : List String} (hp : p.segments = ("@" ++ name) :: rest) :
      Owns s p .special
  | binding {first : String} {rest : List String} {v : Value} (hs : p.strict = false)
      (hp : p.segments = first :: rest) (hn : ∀ name, first ≠ "@" ++ name)
      (h : Nearest (fun f => f.bindings.get? first) (s.frames.drop p.depth) v) : Owns s p .binding

/-- The source that owns the name does not define the path. -/
def Missed (s : Scope) (extra : Option Value) (p : Path) : Prop :=
  ∃ k, s.Owns p k ∧ ∀ v, ¬ s.Gives extra p k v

section
variable {s : Scope} {extra : Option Value} {p : Path} {k : Source} {first name : String}
  {rest : List String} {f : Frame} {fs : List Frame} {v : Value}

theorem nearest_iff {α : Type} {look : Frame → Option α} {a : α} :
    Nearest look fs a ↔ fs.findSome? look = some a := List.findSome?_eq_some_iff.symm

theorem specialName?_eq_some_iff : specialName? first = some name ↔ first = "@" ++ name := by
  rw [← String.toList_inj, String.toList_append, specialName?]
  split
  · rename_i cs h
    simp [h, ← String.toList_inj]
  · rename_i hne
    simp only [reduceCtorEq, false_iff]
    intro h
    exact hne _ h

theorem getLast?_frames : s.frames.getLast? = some s.root := by
  rw [root, frames, List.getLastD_eq_getLast?]
  simp [List.getLast?_cons]

theorem findSome?_leave? {α : Type} {depth : Nat} (look : Frame → Option α) :
    ((s.leave? depth).bind fun t => t.frames.findSome? look) =
      (s.frames.drop depth).findSome? look := by
  rw [leave?]
  cases s.frames.drop depth <;> rfl

theorem special?_of_ne_root {depth : Nat} (hn : name ≠ "root") :
    s.special? depth name =
      ((s.frames.drop depth).findSome? Frame.iteration).bind (·.special? name) := by
  rw [special?, if_neg hn, ← findSome?_leave?, Option.bind_assoc]
  rfl

theorem special?_eq_some_iff {depth : Nat} :
    s.special? depth name = some v ↔ s.IsSpecial depth name v := by
  by_cases hn : name = "root"
  · rw [special?, if_pos hn, hn]
    constructor
    · intro h
      cases h
      exact .root getLast?_frames
    · intro h
      cases h with
      | root h => rw [getLast?_frames.symm.trans h |> Option.some.inj]
      | iteration hn _ _ => exact absurd rfl hn
  · rw [special?_of_ne_root hn, Option.bind_eq_some_iff]
    constructor
    · rintro ⟨i, hi, hv⟩
      exact .iteration hn (nearest_iff.2 hi) hv
    · intro h
      cases h with
      | root _ => exact absurd rfl hn
      | iteration _ hi hv => exact ⟨_, nearest_iff.1 hi, hv⟩

/-- Where a source owns the name, no other source counts. -/
theorem Owns.firstDefined_iff (h : s.Owns p k) (hunique : ∀ j, s.Owns p j → j = k)
    (hbefore : ∀ j : Source, j.rank < k.rank → ∀ w, ¬ s.Gives extra p j w) :
    s.FirstDefined extra p v ∧ ¬ s.Missed extra p ↔ s.Gives extra p k v := by
  constructor
  · rintro ⟨⟨j, hj, hlower⟩, hm⟩
    obtain ⟨w, hw⟩ : ∃ w, s.Gives extra p k w := by
      by_contra hn
      exact hm ⟨k, h, fun w hw => hn ⟨w, hw⟩⟩
    rcases Nat.lt_trichotomy j.rank k.rank with hlt | heq | hlt
    · exact absurd hj (hbefore j hlt v)
    · exact Source.rank_injective heq ▸ hj
    · exact absurd hw (hlower k hlt w)
  · intro hv
    refine ⟨⟨k, hv, hbefore⟩, ?_⟩
    rintro ⟨j, hj, hn⟩
    exact hn v (hunique j hj ▸ hv)

/-- Where no source owns the name, the context counts before the extra data. -/
theorem firstDefined_iff_of_not_owns (hn : ∀ k, ¬ s.Owns p k)
    (hs : ∀ v, ¬ s.Gives extra p .special v) (hb : ∀ v, ¬ s.Gives extra p .binding v) :
    s.FirstDefined extra p v ∧ ¬ s.Missed extra p ↔
      s.Gives extra p .context v ∨
        (∀ w, ¬ s.Gives extra p .context w) ∧ s.Gives extra p .extra v := by
  constructor
  · rintro ⟨⟨k, hk, hlower⟩, -⟩
    cases k with
    | special => exact absurd hk (hs v)
    | binding => exact absurd hk (hb v)
    | context => exact .inl hk
    | extra => exact .inr ⟨hlower .context (by decide), hk⟩
  · intro h
    refine ⟨?_, fun ⟨k, hk, _⟩ => hn k hk⟩
    rcases h with hv | ⟨hc, hv⟩
    · refine ⟨.context, hv, ?_⟩
      intro j hj
      cases j with
      | special => exact hs
      | binding => exact hb
      | context | extra => simp [Source.rank] at hj
    · refine ⟨.extra, hv, ?_⟩
      intro j hj
      cases j with
      | special => exact hs
      | binding => exact hb
      | context => exact hc
      | extra => simp [Source.rank] at hj

theorem gives_context_iff (h : s.frames.drop p.depth = f :: fs) :
    s.Gives extra p .context v ↔ f.context.drill? p.segments = some v := by
  constructor
  · rintro ⟨_, _, hb, hv⟩
    cases hb with
    | context h' =>
      cases h.symm.trans h'
      exact hv
  · exact fun hv => ⟨_, _, .context h, hv⟩

theorem gives_extra_iff :
    s.Gives extra p .extra v ↔ extra.bind (·.drill? p.segments) = some v := by
  rw [Option.bind_eq_some_iff]
  constructor
  · rintro ⟨_, _, hb, hv⟩
    cases hb with
    | extra h => exact ⟨_, h, hv⟩
  · rintro ⟨w, hw, hv⟩
    exact ⟨_, _, .extra hw, hv⟩

theorem gives_special_iff (hp : p.segments = ("@" ++ name) :: rest) :
    s.Gives extra p .special v ↔ (s.special? p.depth name).bind (·.drill? rest) = some v := by
  rw [Option.bind_eq_some_iff]
  constructor
  · rintro ⟨_, _, hb, hv⟩
    cases hb with
    | special hp' h =>
      obtain ⟨hname, rfl⟩ := List.cons.inj (hp.symm.trans hp')
      have hname := specialName?_eq_some_iff.2 hname
      rw [specialName?_eq_some_iff.2 rfl] at hname
      cases hname
      exact ⟨_, special?_eq_some_iff.2 h, hv⟩
  · rintro ⟨w, hw, hv⟩
    exact ⟨_, _, .special hp (special?_eq_some_iff.1 hw), hv⟩

theorem gives_binding_iff (hs : p.strict = false) (hp : p.segments = first :: rest) :
    s.Gives extra p .binding v ↔
      ((s.frames.drop p.depth).findSome? fun f => f.bindings.get? first).bind (·.drill? rest) =
        some v := by
  rw [Option.bind_eq_some_iff]
  constructor
  · rintro ⟨_, _, hb, hv⟩
    cases hb with
    | binding _ hp' h =>
      obtain ⟨rfl, rfl⟩ := List.cons.inj (hp.symm.trans hp')
      exact ⟨_, nearest_iff.1 h, hv⟩
  · rintro ⟨w, hw, hv⟩
    exact ⟨_, _, .binding hs hp (nearest_iff.2 hw), hv⟩

/-- Where any source defines the path, one is the first. -/
theorem exists_firstDefined (h : s.Gives extra p k v) : ∃ w, s.FirstDefined extra p w := by
  induction hr : k.rank using Nat.strongRecOn generalizing k v with
  | _ n ih =>
    subst hr
    by_cases hlower : ∃ j : Source, j.rank < k.rank ∧ ∃ w, s.Gives extra p j w
    · obtain ⟨j, hj, w, hw⟩ := hlower
      exact ih j.rank hj hw rfl
    · refine ⟨v, k, h, ?_⟩
      intro j hj w hw
      exact hlower ⟨j, hj, w, hw⟩

theorem leave?_of_frames {depth : Nat} (h : s.frames.drop depth = f :: fs) :
    s.leave? depth = some ⟨f, fs⟩ := by
  rw [leave?, h]

theorem resolve?_special (h : s.frames.drop p.depth = f :: fs)
    (hp : p.segments = ("@" ++ name) :: rest) :
    s.resolve? extra p = (s.special? p.depth name).bind (·.drill? rest) := by
  simp only [resolve?, leave?_of_frames h, hp, specialName?_eq_some_iff.2 rfl, bind,
    Option.bind_some]

/-- A path without segments is about the context itself. -/
theorem resolve?_nil_iff (h : s.frames.drop p.depth = f :: fs) (hp : p.segments = []) :
    s.resolve? extra p = some v ↔ s.FirstDefined extra p v ∧ ¬ s.Missed extra p := by
  have hr : s.resolve? extra p = some f.context := by
    simp only [resolve?, leave?_of_frames h, hp, context, bind, Option.bind_some]
  have hn : ∀ k, ¬ s.Owns p k := by
    intro k hk
    cases hk with
    | special hp' => cases hp.symm.trans hp'
    | binding _ hp' => cases hp.symm.trans hp'
  have hs : ∀ v, ¬ s.Gives extra p .special v := by
    rintro v ⟨_, _, hb, -⟩
    cases hb with
    | special hp' => cases hp.symm.trans hp'
  have hb : ∀ v, ¬ s.Gives extra p .binding v := by
    rintro v ⟨_, _, hb, -⟩
    cases hb with
    | binding _ hp' => cases hp.symm.trans hp'
  have hc : ∀ v, s.Gives extra p .context v ↔ f.context = v := by
    intro v
    rw [gives_context_iff h, hp, Value.drill?, Option.some_inj]
  rw [firstDefined_iff_of_not_owns hn hs hb, hc, hr, Option.some_inj]
  constructor
  · exact .inl
  · rintro (hv | ⟨hnone, -⟩)
    · exact hv
    · exact absurd ((hc _).2 rfl) (hnone f.context)

theorem resolve?_special_iff (h : s.frames.drop p.depth = f :: fs)
    (hp : p.segments = ("@" ++ name) :: rest) :
    s.resolve? extra p = some v ↔ s.FirstDefined extra p v ∧ ¬ s.Missed extra p := by
  have hunique : ∀ j, s.Owns p j → j = .special := by
    intro j hj
    cases hj with
    | special _ => rfl
    | binding _ hp' hn =>
      obtain ⟨rfl, -⟩ := List.cons.inj (hp.symm.trans hp')
      exact absurd rfl (hn name)
  rw [(Owns.special hp).firstDefined_iff hunique (by simp [Source.rank]), gives_special_iff hp,
    resolve?_special h hp]

section
variable (hn : ∀ name, first ≠ "@" ++ name)
include hn

theorem specialName?_eq_none : specialName? first = none := by
  rw [Option.eq_none_iff_forall_ne_some]
  intro name hname
  exact hn name (specialName?_eq_some_iff.1 hname)

variable (hp : p.segments = first :: rest)
include hp

theorem not_gives_special (v : Value) : ¬ s.Gives extra p .special v := by
  rintro ⟨_, _, hb, -⟩
  cases hb with
  | special hp' => exact hn _ (List.cons.inj (hp.symm.trans hp')).1

theorem resolve?_bound {bound : Value} (hs : p.strict = false)
    (hb : (s.frames.drop p.depth).findSome? (·.bindings.get? first) = some bound) :
    s.resolve? extra p = bound.drill? rest := by
  cases h : s.frames.drop p.depth with
  | nil =>
    rw [h] at hb
    cases hb
  | cons f fs =>
    have hbound : binding? ⟨f, fs⟩ first = some bound := by rw [binding?, frames, ← h, hb]
    simp only [resolve?, leave?_of_frames h, hp, specialName?_eq_none hn, hs, hbound, bind,
      Option.bind_some, Bool.false_eq_true, if_false]

theorem resolve?_bound_iff {bound : Value} (hs : p.strict = false)
    (hb : (s.frames.drop p.depth).findSome? (·.bindings.get? first) = some bound) :
    s.resolve? extra p = some v ↔ s.FirstDefined extra p v ∧ ¬ s.Missed extra p := by
  have howns : s.Owns p .binding := .binding hs hp hn (nearest_iff.2 hb)
  have hunique : ∀ j, s.Owns p j → j = .binding := by
    intro j hj
    cases hj with
    | special hp' => exact absurd (List.cons.inj (hp.symm.trans hp')).1 (hn _)
    | binding _ _ _ _ => rfl
  have hbefore : ∀ j : Source, j.rank < Source.binding.rank → ∀ w, ¬ s.Gives extra p j w := by
    intro j hj
    cases j with
    | special => exact not_gives_special hn hp
    | binding | context | extra => simp [Source.rank] at hj
  rw [howns.firstDefined_iff hunique hbefore, gives_binding_iff hs hp, hb, Option.bind_some,
    resolve?_bound hn hp hs hb]

variable (h : s.frames.drop p.depth = f :: fs)
include h

theorem resolve?_unbound
    (hb : p.strict = false → (s.frames.drop p.depth).findSome? (·.bindings.get? first) = none) :
    s.resolve? extra p =
      (f.context.drill? p.segments).orElse fun _ => extra.bind (·.drill? p.segments) := by
  have hnone : (if p.strict then none else binding? ⟨f, fs⟩ first) = none := by
    split
    · rfl
    · rename_i hs
      rw [binding?, frames, ← h, hb (Bool.eq_false_iff.2 hs)]
  simp only [resolve?, leave?_of_frames h, hp, specialName?_eq_none hn, hnone, context, bind,
    Option.bind_some]

theorem resolve?_unbound_iff
    (hb : p.strict = false → (s.frames.drop p.depth).findSome? (·.bindings.get? first) = none) :
    s.resolve? extra p = some v ↔ s.FirstDefined extra p v ∧ ¬ s.Missed extra p := by
  have hnearest : ∀ {v first' rest'}, p.strict = false → p.segments = first' :: rest' →
      ¬ Nearest (·.bindings.get? first') (s.frames.drop p.depth) v := by
    intro v first' rest' hs hp' hv
    obtain ⟨rfl, -⟩ := List.cons.inj (hp.symm.trans hp')
    rw [nearest_iff, hb hs] at hv
    cases hv
  have howns : ∀ k, ¬ s.Owns p k := by
    intro k hk
    cases hk with
    | special hp' => exact hn _ (List.cons.inj (hp.symm.trans hp')).1
    | binding hs hp' _ hv => exact hnearest hs hp' hv
  have hgives : ∀ v, ¬ s.Gives extra p .binding v := by
    rintro v ⟨_, _, hb, -⟩
    cases hb with
    | binding hs hp' hv => exact hnearest hs hp' hv
  rw [firstDefined_iff_of_not_owns howns (not_gives_special hn hp) hgives, gives_extra_iff,
    resolve?_unbound hn hp h hb]
  simp only [gives_context_iff h]
  cases f.context.drill? p.segments <;> simp

end

/-- In a scope that is there, a path has the first value that is defined, unless the source that owns
its name misses it. -/
theorem resolve?_eq_some_iff (h : s.frames.drop p.depth = f :: fs) :
    s.resolve? extra p = some v ↔ s.FirstDefined extra p v ∧ ¬ s.Missed extra p := by
  cases hp : p.segments with
  | nil => exact resolve?_nil_iff h hp
  | cons first rest =>
    cases hname : specialName? first with
    | some name =>
      rw [specialName?_eq_some_iff.1 hname] at hp
      exact resolve?_special_iff h hp
    | none =>
      have hn : ∀ name, first ≠ "@" ++ name := by
        intro name he
        rw [specialName?_eq_some_iff.2 he] at hname
        cases hname
      cases hs : p.strict with
      | true => exact resolve?_unbound_iff hn hp h (by simp [hs])
      | false =>
        cases hb : (s.frames.drop p.depth).findSome? (·.bindings.get? first) with
        | some bound => exact resolve?_bound_iff hn hp hs hb
        | none => exact resolve?_unbound_iff hn hp h fun _ => hb

theorem resolve?_eq_none_of_length_le (h : s.frames.length ≤ p.depth) :
    s.resolve? extra p = none := by
  have hl : s.leave? p.depth = none := by rw [leave?, List.drop_eq_nil_of_le h]
  rw [resolve?, hl]
  rfl

end

/-- Beyond the outermost scope a path means nothing. Elsewhere it means the value of the first source
that defines it, except where a source owns the name that the path begins with and misses the path:
then no other source counts, and the path means nothing. -/
theorem resolve?_first_defined (s : Scope) (extra : Option Value) (p : Path) :
    (∀ v, s.resolve? extra p = some v ↔
      p.depth < s.frames.length ∧ s.FirstDefined extra p v ∧ ¬ s.Missed extra p) ∧
    (s.resolve? extra p = none ↔
      s.frames.length ≤ p.depth ∨ (∀ k v, ¬ s.Gives extra p k v) ∨ s.Missed extra p) := by
  cases hf : s.frames.drop p.depth with
  | nil =>
    have hlen := List.drop_eq_nil_iff.1 hf
    have hr : s.resolve? extra p = none := resolve?_eq_none_of_length_le hlen
    refine ⟨fun v => ?_, iff_of_true hr (.inl hlen)⟩
    rw [hr]
    refine iff_of_false nofun ?_
    rintro ⟨hlt, -⟩
    omega
  | cons f fs =>
    have hlt : p.depth < s.frames.length := by
      by_contra hle
      rw [List.drop_eq_nil_of_le (Nat.le_of_not_lt hle)] at hf
      cases hf
    have hsome : ∀ v, s.resolve? extra p = some v ↔ s.FirstDefined extra p v ∧ ¬ s.Missed extra p :=
      fun v => resolve?_eq_some_iff hf
    refine ⟨fun v => by rw [hsome, and_iff_right hlt], ?_⟩
    rw [Option.eq_none_iff_forall_ne_some]
    constructor
    · intro hnone
      by_cases hm : s.Missed extra p
      · exact .inr (.inr hm)
      · refine .inr (.inl fun k v hv => ?_)
        obtain ⟨w, hw⟩ := exists_firstDefined hv
        exact hnone w ((hsome w).2 ⟨hw, hm⟩)
    · intro h v hv
      obtain ⟨⟨k, hk, -⟩, hm⟩ := (hsome v).1 hv
      rcases h with hle | hnone | hmissed
      · omega
      · exact hnone k v hk
      · exact hm hmissed

/-- A name that is bound hides the context also where the bound value does not have what the path
reads. -/
theorem bound_name_hides_context :
    let s : Scope := ⟨⟨.object [("x", .object [("a", .bool true)])], [("x", .object [])], none⟩, []⟩
    let p : Path := ⟨["x", "a"], 0, false⟩
    p.depth < s.frames.length ∧ s.FirstDefined none p (.bool true) ∧ s.resolve? none p = none := by
  intro s p
  have hbound : ∀ v, ¬ s.Gives none p .binding v := by
    intro v
    rw [gives_binding_iff rfl rfl]
    nofun
  have hn : ∀ name, "x" ≠ "@" ++ name := by
    intro name he
    cases specialName?_eq_some_iff.2 he
  have hp : p.segments = "x" :: ["a"] := rfl
  refine ⟨Nat.one_pos, ⟨.context, (gives_context_iff rfl).2 rfl, ?_⟩, rfl⟩
  intro j hj
  cases j with
  | special => exact not_gives_special hn hp
  | binding => exact hbound
  | context | extra => simp [Source.rank] at hj

end TextTemplate.Scope

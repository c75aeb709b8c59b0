import TextTemplate.Proofs.Walk.Basic

/-! How many lists of nodes a walk opens inside one another, and the rules by which a bound on them
is put together. Blocks and partials go a level deeper; the body of a tag whose partial is missing
does not, so that bodies inside one another are counted on their own. -/

namespace TextTemplate

mutual

/-- The most lists inside one another. -/
def Event.height : Event → Nat
  | .list inner => tallest inner + 1
  | .aside inner => tallest inner
  | .stopped => 0

def tallest : List Event → Nat
  | [] => 0
  | e :: es => max e.height (tallest es)

end

section
variable {e : Event} {es fs : List Event}

@[simp] theorem tallest_append : tallest (es ++ fs) = max (tallest es) (tallest fs) := by
  induction es with
  | nil => simp [tallest]
  | cons e es ih => simp [tallest, ih, Nat.max_assoc]

@[simp] theorem tallest_singleton : tallest [e] = e.height := by simp [tallest]

end

/-- A partial tag of this name may find no partial in the engine. What templates define is not
looked at. -/
def PartialName.mayLack (e : Engine) : PartialName → Bool
  | .fixed name => name = partialBlockName || !e.hasPartial name
  | .computed _ => true

mutual

/-- The most bodies directly inside one another, from this node on, of tags that may find no
partial. -/
def Node.chain (e : Engine) : Node → Nat
  | .partialTag ⟨name, _, some body⟩ => if name.mayLack e then chainOf e body + 1 else 0
  | _ => 0

def chainOf (e : Engine) : List Node → Nat
  | [] => 0
  | n :: ns => max (n.chain e) (chainOf e ns)

end

mutual

/-- The longest chain in any list of the tree. -/
def Node.fallbacks (e : Engine) : Node → Nat
  | .text _ => 0
  | .value .. => 0
  | .block ⟨_, _, _, body, alternates⟩ => max (fallbacksOf e body) (fallbacksIn e alternates)
  | .partialTag ⟨_, _, none⟩ => 0
  | .partialTag ⟨name, _, some body⟩ =>
    max (if name.mayLack e then chainOf e body + 1 else 0) (fallbacksOf e body)

def fallbacksOf (e : Engine) : List Node → Nat
  | [] => 0
  | n :: ns => max (n.fallbacks e) (fallbacksOf e ns)

def fallbacksIn (e : Engine) : List Alternate → Nat
  | [] => 0
  | ⟨_, body⟩ :: rest => max (fallbacksOf e body) (fallbacksIn e rest)

end

mutual

/-- The longest chain in a template and in the partials that it defines. -/
def Template.fallbacks (e : Engine) : Template → Nat
  | ⟨nodes, partials⟩ => max (fallbacksOf e nodes) (fallbacksAmong e partials)

def fallbacksAmong (e : Engine) : List (String × Template) → Nat
  | [] => 0
  | (_, t) :: partials => max (t.fallbacks e) (fallbacksAmong e partials)

end

def Registered.fallbacks (e : Engine) : Registered → Nat
  | .template t => t.fallbacks e
  | .native _ => 0

/-- The longest chain in what a render of the template can come to: the template itself and every
registered one. -/
def Engine.fallbacks (e : Engine) (t : Template) : Nat :=
  e.partials.foldr (fun entry most => max (entry.2.fallbacks e) most) (t.fallbacks e)

section
variable {e : Engine} {name : String} {t u : Template} {r : Registered} {k : Nat}

theorem PartialName.mayLack_fixed (h : name = partialBlockName ∨ e.partials.get? name = none) :
    (PartialName.fixed name).mayLack e := by
  rw [PartialName.mayLack, Engine.hasPartial, Dict.contains]
  rcases h with h | h <;> simp [h]

mutual

theorem chain_le_fallbacks : ∀ n : Node, n.chain e ≤ n.fallbacks e
  | .text _ | .value .. | .block _ | .partialTag ⟨_, _, none⟩ => Nat.zero_le _
  | .partialTag ⟨_, _, some body⟩ => by
    rw [Node.chain, Node.fallbacks]
    exact Nat.le_max_left ..

theorem chainOf_le : ∀ ns : List Node, chainOf e ns ≤ fallbacksOf e ns
  | [] => Nat.le_refl 0
  | n :: ns => by
    have hn := chain_le_fallbacks n
    have hns := chainOf_le ns
    rw [chainOf, fallbacksOf]
    omega

end

theorem fallbacks_le_among {ps : List (String × Template)} (h : (name, t) ∈ ps) :
    t.fallbacks e ≤ fallbacksAmong e ps := by
  induction ps with
  | nil => cases h
  | cons p ps ih =>
    rw [fallbacksAmong]
    rcases List.mem_cons.1 h with rfl | h
    · exact Nat.le_max_left ..
    · exact Nat.le_trans (ih h) (Nat.le_max_right ..)

theorem Template.nodes_le (t : Template) : fallbacksOf e t.nodes ≤ t.fallbacks e := by
  cases t
  exact Nat.le_max_left ..

theorem Template.defined_le (h : (name, u) ∈ t.partials) : u.fallbacks e ≤ t.fallbacks e := by
  cases t
  exact Nat.le_trans (fallbacks_le_among h) (Nat.le_max_right ..)

namespace Engine

theorem rendered_le : t.fallbacks e ≤ e.fallbacks t := by
  rw [Engine.fallbacks]
  induction e.partials with
  | nil => exact Nat.le_refl _
  | cons entry registered ih => exact Nat.le_trans ih (Nat.le_max_right ..)

theorem registered_le (h : e.partials.get? name = some r) : r.fallbacks e ≤ e.fallbacks t := by
  rw [Engine.fallbacks]
  generalize e.partials = registered at h
  induction registered with
  | nil => cases h
  | cons entry registered ih =>
    obtain ⟨other, s⟩ := entry
    rw [Dict.get?_cons] at h
    by_cases hn : name = other
    · rw [if_pos hn] at h
      cases h
      exact Nat.le_max_left ..
    · rw [if_neg hn] at h
      exact Nat.le_trans (ih h) (Nat.le_max_right ..)

end Engine

/-- No template among these has a longer chain. -/
def Shallow (e : Engine) (k : Nat) (d : Dict Template) : Prop :=
  ∀ name t, d.get? name = some t → t.fallbacks e ≤ k

theorem Shallow.insertAll {d : Dict Template} (hd : Shallow e k d) (ht : t.fallbacks e ≤ k) :
    Shallow e k (d.insertAll t.partials) := by
  intro name u hu
  rcases Dict.mem_of_get?_insertAll hu with hmem | hget
  · exact Nat.le_trans (Template.defined_le hmem) ht
  · exact hd name u hget

/-- The walker is in this engine, and no chain in anything that it can come to is longer. -/
structure Tame (e : Engine) (k : Nat) (w : Walker) : Prop where
  engine_eq : w.setting.engine = e
  registered : ∀ name t, e.partials.get? name = some (.template t) → t.fallbacks e ≤ k
  defined : Shallow e k w.setting.defined
  pending : ∀ p, w.pending = some p → fallbacksOf e p.nodes ≤ k ∧ Shallow e k p.defined

namespace Tame
variable {w : Walker}

/-- Depth, log and account do not matter. -/
theorem anywhere (hw : Tame e k w) {depth : Nat} {log : List String} {events : List Event} :
    Tame e k { w with depth, log, events } :=
  ⟨hw.engine_eq, hw.registered, hw.defined, hw.pending⟩

theorem partial_le (hw : Tame e k w) (h : w.setting.partial? name = some (.template t)) :
    t.fallbacks e ≤ k := by
  rw [Setting.partial?] at h
  cases hd : w.setting.defined.get? name with
  | some u =>
    rw [hd] at h
    cases h
    exact hw.defined name t hd
  | none =>
    rw [hd, hw.engine_eq] at h
    exact hw.registered name t h

theorem get?_of_partial? (hw : Tame e k w) (h : w.setting.partial? name = none) :
    e.partials.get? name = none := by
  rw [Setting.partial?] at h
  cases hd : w.setting.defined.get? name with
  | some u =>
    rw [hd] at h
    cases h
  | none =>
    rw [hd, hw.engine_eq] at h
    exact h

end Tame
end

/-- In this engine, where no chain is longer than `k`, the walk keeps it so, and opens at most `h`
lists inside one another. -/
def Opens (e : Engine) (k h : Nat) {α : Type} (m : Walk α) : Prop :=
  ∀ w r w', Tame e k w → m w = some (r, w') →
    Tame e k w' ∧ ∃ es, w'.events = w.events ++ es ∧ tallest es ≤ h

namespace Walk
variable {e : Engine} {α β : Type} {k h h' : Nat} {m : Walk α}

theorem opens_mono (hm : Opens e k h m) (hh : h ≤ h') : Opens e k h' m := by
  intro w r w' hw hr
  obtain ⟨hw', es, hes, ht⟩ := hm w r w' hw hr
  exact ⟨hw', es, hes, Nat.le_trans ht hh⟩

/-- A step of the walker that opens nothing. -/
theorem opens_step {f : Walker → α × Walker}
    (hf : ∀ w, Tame e k w → Tame e k (f w).2 ∧ (f w).2.events = w.events) :
    Opens e k h (fun w => some (f w)) := by
  intro w r w' hw hr
  obtain ⟨hw', he⟩ := hf w hw
  rw [Option.some.inj hr] at hw' he
  exact ⟨hw', [], by rw [List.append_nil]; exact he, Nat.zero_le h⟩

theorem opens_pure (a : α) : Opens e k h (pure a : Walk α) :=
  opens_step (f := fun w => (a, w)) fun _ hw => ⟨hw, rfl⟩

theorem opens_bind {f : α → Walk β} (hm : Opens e k h m) (hf : ∀ a, Opens e k h (f a)) :
    Opens e k h (m >>= f) := by
  intro w r w' hw hr
  rw [bind_apply] at hr
  obtain ⟨⟨a, w₁⟩, h₁, h₂⟩ := Option.bind_eq_some_iff.1 hr
  obtain ⟨hw₁, es, hes, ht⟩ := hm w a w₁ hw h₁
  obtain ⟨hw', fs, hfs, ht'⟩ := hf a w₁ r w' hw₁ h₂
  refine ⟨hw', es ++ fs, ?_, ?_⟩
  · rw [hfs, hes, List.append_assoc]
  · rw [tallest_append]
    exact Nat.max_le.2 ⟨ht, ht'⟩

theorem opens_before {after : Walk Unit} (hm : Opens e k h m) (ha : Opens e k h after) :
    Opens e k h (do let r ← m; after; pure r) :=
  opens_bind hm fun r => opens_bind ha fun _ => opens_pure r

theorem opens_get {f : Walker → Walk α} (hf : ∀ w, Tame e k w → Opens e k h (f w)) :
    Opens e k h (get >>= f) := by
  intro w r w' hw hr
  exact hf w hw w r w' hw hr

theorem opens_modify {f : Walker → Walker}
    (hf : ∀ w, Tame e k w → Tame e k (f w) ∧ (f w).events = w.events) :
    Opens e k h (modify f : Walk Unit) :=
  opens_step (f := fun w => ((), f w)) hf

/-- Going into other scopes opens nothing. -/
theorem opens_change {f : Setting → Setting}
    (hf : ∀ s, (f s).engine = s.engine ∧ (f s).defined = s.defined) : Opens e k h (change f) := by
  refine opens_modify fun w hw => ⟨⟨?_, hw.registered, ?_, hw.pending⟩, rfl⟩
  · rw [← hw.engine_eq]
    exact (hf w.setting).1
  · rw [(hf w.setting).2]
    exact hw.defined

theorem pop_same (s : Setting) : s.pop.engine = s.engine ∧ s.pop.defined = s.defined := by
  rw [Setting.pop]
  cases s.scope.enclosing <;> exact ⟨rfl, rfl⟩

/-- What follows an evaluation may count on a value that it can give. -/
theorem opens_evalThen {x : Setting → Eval α} {f : Outcome α → Walk (Outcome β)}
    (he : ∀ err, f (.error err) = pure (.error err))
    (hf : ∀ a, (∃ s log log', x s log = .ok a log') → Opens e k h (f (.ok a))) :
    Opens e k h (eval x >>= f) := by
  intro w r w' hw hr
  rw [bind_apply, eval] at hr
  cases hx : x w.setting w.log with
  | ok a log =>
    rw [hx] at hr
    exact hf a ⟨_, _, _, hx⟩ { w with log } r w' hw.anywhere hr
  | error err log =>
    rw [hx] at hr
    have hr : f (.error err) { w with log } = some (r, w') := hr
    rw [he] at hr
    exact opens_pure _ { w with log } r w' hw.anywhere hr

theorem opens_eval (x : Setting → Eval α) : Opens e k h (eval x) := by
  have hx : Opens e k h (eval x >>= pure) := opens_evalThen (fun _ => rfl) fun a _ => opens_pure _
  rwa [bind_pure] at hx

theorem opens_note (message : String) : Opens e k h (note message) :=
  opens_modify fun _ hw => ⟨hw.anywhere, rfl⟩

theorem opens_ascend : Opens e k h ascend :=
  opens_modify fun _ hw => ⟨hw.anywhere, rfl⟩

theorem opens_descend (name : String) : Opens e k h (descend name) := by
  intro w r w' hw hr
  by_cases hd : w.setting.engine.options.maxDepth ≤ w.depth
  · rw [descend_of_le w name hd] at hr
    cases hr
    exact ⟨hw, [], (List.append_nil _).symm, Nat.zero_le h⟩
  · rw [descend_of_lt w name (Nat.lt_of_not_le hd)] at hr
    cases hr
    exact ⟨hw.anywhere, [], (List.append_nil _).symm, Nat.zero_le h⟩

/-- A failure ends the walk, and otherwise it goes on. -/
theorem opens_andThen {m : Walk (Outcome α)} {f : Outcome α → Walk (Outcome β)} (hm : Opens e k h m)
    (he : ∀ e, f (.error e) = pure (.error e)) (hf : ∀ a, Opens e k h (f (.ok a))) :
    Opens e k h (m >>= f) := by
  refine opens_bind hm fun r => ?_
  cases r with
  | ok a => exact hf a
  | error e =>
    rw [he e]
    exact opens_pure _

theorem filed_apply (event : List Event → Event) (m : Walk α) (w : Walker) :
    filed event m w = (m { w with events := [] }).map fun r =>
      (r.1, { r.2 with events := w.events ++ [event r.2.events] }) := by
  simp only [filed, bind_apply, record_apply, Option.bind_some]
  cases m { w with events := [] } <;> rfl

/-- A list of its own is one more than what is inside. -/
theorem opens_filed (hm : Opens e k h m) : Opens e k (h + 1) (filed .list m) := by
  intro w r w' hw hr
  rw [filed_apply] at hr
  obtain ⟨⟨a, w₁⟩, h₁, h₂⟩ := Option.map_eq_some_iff.1 hr
  cases h₂
  obtain ⟨hw₁, es, hes, ht⟩ := hm { w with events := [] } a w₁ hw.anywhere h₁
  refine ⟨hw₁.anywhere, [.list w₁.events], rfl, ?_⟩
  have hinner : w₁.events = es := hes
  rw [tallest_singleton, Event.height, hinner]
  exact Nat.succ_le_succ ht

end Walk
end TextTemplate

import TextTemplate.Proofs.Grammar.Compile
import TextTemplate.Proofs.Scanning.Seam

/-! Two sources one behind the other compile to the template of the first followed by that of the
second. -/

namespace TextTemplate

/-- What a source says: its texts and its tags in turn, with arguments that are in order. -/
inductive Spells (d : Delimiters) : List Char → List Symbol → Prop
  | rest {s : List Char} (h : Tag.first? d s = .ok none) : Spells d s [.text s]
  | tag {s : List Char} {t : Tag} {y : Symbol} {ys : List Symbol}
      (h : Tag.first? d s = .ok (some t)) (hy : t.symbol = .ok y) (next : Spells d t.after ys) :
      Spells d s (.text t.before :: y :: ys)

section
variable {d : Delimiters} {s b : List Char} {ys us : List Symbol}

theorem Spells.of_scan (s : List Char) {rest : List Char} {symbols : List Symbol}
    (hr : (Tag.scan d s).rest = .ok rest)
    (hs : (Tag.scan d s).tags.mapM Tag.symbol = .ok symbols) :
    Spells d s (Zipper.interleave (Tag.scan d s).tags symbols ++ [.text rest]) := by
  cases h : Tag.first? d s with
  | error e =>
    rw [Tag.scan_of_error h] at hr
    cases hr
  | ok found =>
    cases found with
    | none =>
      rw [Tag.scan_of_none h] at hr hs ⊢
      cases hr
      cases hs
      exact .rest h
    | some t =>
      rw [Tag.scan_of_some h] at hr hs ⊢
      rw [List.mapM_cons] at hs
      obtain ⟨y, hy, hs⟩ := Zipper.bind_eq_ok hs
      obtain ⟨ys, hys, hs⟩ := Zipper.bind_eq_ok hs
      cases hs
      exact .tag h hy (of_scan t.after hr hys)
termination_by s.length
decreasing_by exact Tag.length_after_lt h

theorem Spells.scan (h : Spells d s ys) :
    ∃ rest symbols, (Tag.scan d s).rest = .ok rest ∧
      (Tag.scan d s).tags.mapM Tag.symbol = .ok symbols ∧
      ys = Zipper.interleave (Tag.scan d s).tags symbols ++ [.text rest] := by
  induction h with
  | @rest s h =>
    rw [Tag.scan_of_none h]
    exact ⟨s, [], rfl, rfl, rfl⟩
  | @tag s t y ys h hy _ ih =>
    obtain ⟨rest, symbols, hr, hs, rfl⟩ := ih
    rw [Tag.scan_of_some h]
    refine ⟨rest, y :: symbols, hr, ?_, rfl⟩
    rw [List.mapM_cons, hy, hs]
    rfl

/-- A source compiles exactly when the grammar derives what it says. -/
theorem Template.compile_eq_ok_iff_spells (source : String) (T : Template) :
    Template.compile d source = .ok T ↔
      ∃ forest, Spells d source.toList (forestYield forest) ∧ T = Template.ofForest forest := by
  rw [Template.compile_eq_ok_iff]
  constructor
  · rintro ⟨rest, symbols, forest, hr, hs, hf, rfl⟩
    refine ⟨forest, ?_, rfl⟩
    rw [hf]
    exact .of_scan _ hr hs
  · rintro ⟨forest, h, rfl⟩
    obtain ⟨rest, symbols, hr, hs, hf⟩ := h.scan
    exact ⟨rest, symbols, forest, hr, hs, hf, rfl⟩

/-- The text that ends the first source and the one that begins the second become one; all else is
said as before. -/
theorem Spells.append (hd : d.Apart) (h : Spells d s ys) (hs : Joinable d s) :
    ∃ zs r, ys = zs ++ [.text r] ∧ ∀ b, '~' ∉ b → ∀ x us, Spells d b (.text x :: us) →
      Spells d (s ++ b) (zs ++ .text (r ++ x) :: us) := by
  induction h with
  | @rest s h =>
    have hn := Tag.first?_eq_none_iff.1 h
    refine ⟨[], s, rfl, ?_⟩
    intro b hb x us hu
    cases hu with
    | rest hnone =>
      have hn' := Tag.first?_eq_none_iff.1 hnone
      exact .rest (Tag.first?_eq_none_iff.2 (Tag.not_infix_append hs hn hn'))
    | tag ht hy next =>
      exact .tag (Tag.first?_append_of_not_infix hs hn hb ht) hy next
  | @tag s t y ys h hy _ ih =>
    obtain ⟨gap, gap', hf⟩ := Tag.first?_found hd.1 h
    have hafter : Joinable d t.after := by
      rw [hf.parts] at hs
      exact hs.of_append
    obtain ⟨zs, r, rfl, happend⟩ := ih hafter
    refine ⟨.text t.before :: y :: zs, r, rfl, ?_⟩
    intro b hb x us hu
    have hnext := happend b hb x us hu
    exact .tag (t := { t with after := t.after ++ b }) (Tag.first?_append hd hs h) hy hnext

theorem Spells.exists_cons (h : Spells d s ys) : ∃ x us, ys = .text x :: us := by
  cases h <;> exact ⟨_, _, rfl⟩

end

section forests
variable {ts us : List Tree} {ys : List Symbol} {r x : List Char}

theorem exists_concat_of_yield (h : forestYield ts = ys ++ [.text r]) :
    ∃ us, ts = us ++ [.text r] ∧ forestYield us = ys := by
  rcases List.eq_nil_or_concat ts with rfl | ⟨us, t, rfl⟩
  · simp [forestYield] at h
  · have hlast := congrArg List.getLast? h
    rw [List.concat_eq_append, forestYield_append] at h hlast
    cases t <;> simp [forestYield, Tree.yield, List.getLast?_append, List.getLast?_cons] at h hlast
    obtain ⟨hu, hr⟩ := h
    subst hr
    exact ⟨us, List.concat_eq_append, hu⟩

theorem exists_cons_of_yield (h : forestYield ts = .text x :: ys) :
    ∃ us, ts = .text x :: us ∧ forestYield us = ys := by
  cases ts with
  | nil => simp [forestYield] at h
  | cons t us =>
    cases t <;> simp [forestYield, Tree.yield] at h
    obtain ⟨rfl, hu⟩ := h
    exact ⟨us, rfl, hu⟩

end forests

/-- Nodes behind others. A text that ends the first and one that begins the second become one. -/
def appendNodes : List Node → List Node → List Node
  | [], ms => ms
  | [n], ms => consNode n ms
  | n :: n' :: ns, ms => n :: appendNodes (n' :: ns) ms

/-- One template behind another. -/
def Template.append (t u : Template) : Template :=
  ⟨appendNodes t.nodes u.nodes, t.partials ++ u.partials⟩

section nodes
variable {ts us : List Tree} {n : Node} {ns ms : List Node} {r x : List Char}

theorem consNode_text_consNode_text (s s' : String) (ms : List Node) :
    consNode (.text s) (consNode (.text s') ms) = consNode (.text (s ++ s')) ms := by
  rcases ms with _ | ⟨m, ms⟩
  · rfl
  · cases m <;> simp [consNode, String.append_assoc]

theorem appendNodes_consNode : appendNodes (consNode n ns) ms = consNode n (appendNodes ns ms) := by
  rcases ns with _ | ⟨n', ns⟩
  · cases n <;> rfl
  cases n with
  | text s =>
    cases n' with
    | text s' =>
      -- The two texts are one already, and what follows them decides the rest.
      rcases ns with _ | ⟨n'', ns⟩
      · exact (consNode_text_consNode_text s s' ms).symm
      · rfl
    | value i escaped => cases ns <;> rfl
    | block b => cases ns <;> rfl
    | partialTag p => cases ns <;> rfl
  | value i escaped => rfl
  | block b => rfl
  | partialTag p => rfl

theorem forestNodes_append :
    forestNodes (ts ++ us) = appendNodes (forestNodes ts) (forestNodes us) := by
  induction ts with
  | nil => rfl
  | cons t ts ih =>
    rw [List.cons_append, forestNodes, forestNodes, ih]
    cases t.node? with
    | none => rfl
    | some n => exact appendNodes_consNode.symm

theorem forestNodes_text_append :
    forestNodes (.text (r ++ x) :: ts) = forestNodes (.text r :: .text x :: ts) := by
  by_cases hr : r = []
  · simp [forestNodes, Tree.node?, consNode?, hr]
  · by_cases hx : x = []
    · simp [forestNodes, Tree.node?, consNode?, hx]
    · simp [forestNodes, Tree.node?, consNode?, hr, hx, consNode_text_consNode_text,
        String.ofList_append]

theorem Template.ofForest_append :
    Template.ofForest (ts ++ .text (r ++ x) :: us) =
      (Template.ofForest (ts ++ [.text r])).append (Template.ofForest (.text x :: us)) := by
  have hn : forestNodes (ts ++ .text (r ++ x) :: us) =
      appendNodes (forestNodes (ts ++ [.text r])) (forestNodes (.text x :: us)) := by
    rw [← forestNodes_append, List.append_assoc, forestNodes_append, forestNodes_append,
      forestNodes_text_append]
    rfl
  have hp : forestDefinitions (ts ++ .text (r ++ x) :: us) =
      forestDefinitions (ts ++ [.text r]) ++ forestDefinitions (.text x :: us) := by
    simp [forestDefinitions_append, forestDefinitions, Tree.definitions]
  rw [Template.append, Template.ofForest, hn, hp, definedPartials, List.map_append]
  rfl

end nodes

/-- Complete sources without tildes can be put one behind the other, where nothing at the end of the
first can become part of a tag that the second begins or ends. -/
theorem Template.compile_append {a b : String} {t u : Template}
    (ha : Template.compile .braces a = .ok t) (hb : Template.compile .braces b = .ok u)
    (hta : '~' ∉ a.toList) (htb : '~' ∉ b.toList)
    (hraw : ¬ ['\x7b', '\x7b', '\x7b'] <:+: a.toList)
    (hlong : ¬ ['\x7b', '\x7b', '!', '-', '-'] <:+: a.toList)
    (hlast : ∀ c ∈ a.toList.getLast?, c ≠ '\x7b' ∧ c ≠ '\\') :
    Template.compile .braces (a ++ b) = .ok (t.append u) := by
  have hs : Joinable .braces a.toList := by
    refine ⟨hta, ?_, ?_⟩
    · intro e he
      cases e with
      | plain => exact absurd rfl he
      | braces => exact hraw
      | dashes => exact hlong
    · intro c hc
      obtain ⟨hopen, hback⟩ := hlast c hc
      refine ⟨?_, hback⟩
      simpa [Delimiters.braces] using hopen
  obtain ⟨ts, hts, rfl⟩ := (compile_eq_ok_iff_spells a t).1 ha
  obtain ⟨us, hus, rfl⟩ := (compile_eq_ok_iff_spells b u).1 hb
  obtain ⟨ys, r, hy, happend⟩ := hts.append Delimiters.braces_apart hs
  obtain ⟨x, zs, hz⟩ := hus.exists_cons
  obtain ⟨ts, rfl, rfl⟩ := exists_concat_of_yield hy
  obtain ⟨us, rfl, rfl⟩ := exists_cons_of_yield hz
  refine (compile_eq_ok_iff_spells (a ++ b) _).2 ⟨ts ++ .text (r ++ x) :: us, ?_, ?_⟩
  · rw [hz] at hus
    have h := happend b.toList htb x _ hus
    rw [String.toList_append, forestYield_append]
    exact h
  · exact ofForest_append.symm

theorem Template.compile_append_seam :
    ∃ t u, Template.compile .braces "x\x7b\x7ba\x7d\x7d y" = .ok t ∧
      Template.compile .braces "z\x7b\x7b#if a\x7d\x7dw\x7b\x7b/if\x7d\x7d" = .ok u ∧
      Template.compile .braces
        ("x\x7b\x7ba\x7d\x7d y" ++ "z\x7b\x7b#if a\x7d\x7dw\x7b\x7b/if\x7d\x7d") =
          .ok (t.append u) ∧
      t.nodes.length = 3 ∧ u.nodes.length = 2 ∧ (t.append u).nodes.length = 4 := by
  have ha : (Template.compile .braces "x\x7b\x7ba\x7d\x7d y").toOption.map
      (·.nodes.length) = some 3 := by
    decide +kernel
  have hb : (Template.compile .braces "z\x7b\x7b#if a\x7d\x7dw\x7b\x7b/if\x7d\x7d").toOption.map
      (·.nodes.length) = some 2 := by
    decide +kernel
  have hc : (Template.compile .braces
      ("x\x7b\x7ba\x7d\x7d y" ++ "z\x7b\x7b#if a\x7d\x7dw\x7b\x7b/if\x7d\x7d")).toOption.map
        (·.nodes.length) = some 4 := by
    decide +kernel
  obtain ⟨t, ht, hn⟩ := Option.map_eq_some_iff.1 ha
  obtain ⟨u, hu, hm⟩ := Option.map_eq_some_iff.1 hb
  replace ht := Zipper.toOption_eq_some ht
  replace hu := Zipper.toOption_eq_some hu
  have hlast : ∀ c ∈ "x\x7b\x7ba\x7d\x7d y".toList.getLast?, c ≠ '\x7b' ∧ c ≠ '\\' := by
    rintro c ⟨⟩
    decide
  have h := Template.compile_append ht hu (by decide) (by decide)
    (by decide +kernel) (by decide +kernel) hlast
  rw [h] at hc
  exact ⟨t, u, ht, hu, h, hn, hm, Option.some.inj hc⟩

end TextTemplate

import TextTemplate.Proofs.Printing.Arguments

/-! Reading the arguments of a tag undoes writing them. -/

namespace TextTemplate

theorem Literal.written {l : Literal} (h : l.Printable) :
    Reference.Written l.print (.literal l) := by
  have hword : ∀ w : List Char, (∀ c ∈ w, Token.isKeyChar c) → w ≠ [] → w ≠ ['a', 's'] →
      Reference.ofWord w = .ok (.literal l) → Reference.Written w (.literal l) := by
    intro w hw hn has hof
    exact ⟨balanced_of_isKeyChar hw, .word, w, readAs_plain hn hw, has, fun _ _ => hof⟩
  cases l with
  | null => exact hword _ (forall_mem_of_all (by decide)) (by decide) (by decide) rfl
  | bool b =>
    cases b <;> exact hword _ (forall_mem_of_all (by decide)) (by decide) (by decide) rfl
  | number n =>
    cases n with
    | double x => exact h.elim
    | int n =>
      have hnum := Number.ofNumeral?_intText h
      have hne : ∀ w, Number.ofNumeral? w = none → Number.intText n ≠ w := by
        rintro w hw rfl
        rw [hw] at hnum
        cases hnum
      rw [Literal.print, Number.text, String.toList_ofList]
      apply hword _ (fun c => isKeyChar_of_mem_intText) (hne _ rfl) (hne _ rfl)
      rw [Reference.ofWord, if_neg (hne _ rfl), if_neg (hne _ rfl), if_neg (hne _ rfl), hnum]
  | string s =>
    refine ⟨Token.balanced_quoted _, .string, _, readAs_quoted _, by simp [quoted], ?_⟩
    intro key tail
    simp only [Token.reference, quoted, stringLiteral_escaped, Except.map, String.ofList_toList]

theorem Path.written {σ : PathStyle} {p : Path} (h : p.Printable) :
    Reference.Written (p.print σ) (.path p) := by
  refine ⟨balanced_print h, .word, _, readAs_print h, ?_, fun _ _ => ofWord_print h⟩
  obtain ⟨s, hs⟩ | ⟨s, hs⟩ | ⟨s, hs, -⟩ := print_cases σ p <;> rw [hs] <;> simp

theorem Token.readAs_group {s : List Char} (h : Token.Balanced s) :
    Token.ReadAs ('(' :: (s ++ [')'])) (.group s) ('(' :: (s ++ [')'])) where
  solid := .enclosed (by decide) (by decide)
  unkeyed r _ := splitKey_group _
  body k r _ := by
    have hclose := h.upToParen? (s := r)
    rw [List.cons_append, List.append_assoc, List.singleton_append, readBody_group, hclose]
    simp

theorem Reference.written_call {i : Invocation} {s : List Char} (hb : Token.Balanced s)
    (h : Invocation.parseCall s = .ok i) : Reference.Written ('(' :: (s ++ [')'])) (.call i) := by
  refine ⟨hb.group, .group s, _, Token.readAs_group hb, by simp, ?_⟩
  intro key tail
  simp only [Token.reference, h]
  rfl

theorem written_helperPieces (helper : Option String)
    (h : ∀ name, helper = some name → IsHelperName name) :
    List.Forall₂ Reference.Written (Invocation.helperPieces helper)
      (Invocation.helperParams helper) := by
  cases helper with
  | none => exact .nil
  | some name =>
    have hp : Path.Printable ⟨[name], 0, false⟩ := by
      intro segment hs
      rw [List.mem_singleton.1 hs]
      exact (h name rfl).bracketable
    have hw := Path.written (σ := ⟨'.', .inl rfl, .point⟩) hp
    exact .cons (by simpa [Path.print, Path.leadText, Path.leaveText, Path.strictText,
      Path.endText, Path.segmentsText] using hw) .nil

theorem promote?_helperParams {name : String} (h : IsHelperName name) (params : List Reference)
    (hash : List (String × Reference)) (names : List String) :
    Invocation.promote? ⟨none, Invocation.helperParams (some name) ++ params, hash, names⟩ =
      some ⟨some name, params, hash, names⟩ := by
  have hident : Reference.identifier? (.path ⟨[name], 0, false⟩) = some name := by
    simp [Reference.identifier?, Path.identifier?, h.head]
  rw [Invocation.helperParams, Invocation.promote?]
  simp [hident]

mutual

theorem Reference.written_print (σ : PathStyle) :
    ∀ r : Reference, r.Printable → Reference.Written (r.print σ) r
  | .literal l, h => by
    rw [Reference.print]
    rw [Reference.Printable] at h
    exact Literal.written h
  | .path p, h => by
    rw [Reference.print]
    rw [Reference.Printable] at h
    exact Path.written h
  | .call i, h => by
    rw [Reference.Printable] at h
    obtain ⟨hb, hi⟩ := Invocation.parseCall_print σ i h
    rw [Reference.print]
    exact Reference.written_call hb hi

theorem Invocation.parseCall_print (σ : PathStyle) :
    ∀ i : Invocation, i.PrintableCall →
      Token.Balanced (i.print σ) ∧ Invocation.parseCall (i.print σ) = .ok i
  | ⟨none, _, _, _⟩, h => h.elim
  | ⟨some _, _, _, _ :: _⟩, h => h.elim
  | ⟨some name, params, hash, []⟩, h => by
    rw [Invocation.PrintableCall] at h
    obtain ⟨hname, hparams, hhash⟩ := h
    have hh := written_helperPieces (some name) fun _ he => by
      cases he
      exact hname
    have hp := written_paramPieces σ params hparams
    have he := written_hashPieces σ hash hhash
    refine ⟨?_, ?_⟩
    · rw [Invocation.print]
      apply Token.balanced_spaced
      intro a ha
      simp only [Invocation.aliasPieces, List.append_nil, List.mem_append] at ha
      rcases ha with ha | ha | ha
      · exact forall_of_forall₂ (fun _ _ hw => hw.balanced) hh a ha
      · exact forall_of_forall₂ (fun _ _ hw => hw.balanced) hp a ha
      · exact forall_of_forall₂ (fun _ _ hw => hw.balanced) he a ha
    · have hnone : ∀ name ∈ ([] : List String), IsAlias name := by
        intro name hm
        cases hm
      have hargs := Invocation.parseArguments_print hh hp he hnone (.inl (by simp))
      rw [Invocation.parseCall_eq, hargs]
      simp only [Except.bind, promote?_helperParams hname]

theorem written_paramPieces (σ : PathStyle) :
    ∀ ps : List Reference, PrintableParams ps →
      List.Forall₂ Reference.Written (paramPieces σ ps) ps
  | [], _ => .nil
  | p :: ps, h => by
    rw [PrintableParams] at h
    rw [paramPieces]
    exact .cons (Reference.written_print σ p h.1) (written_paramPieces σ ps h.2)

theorem written_hashPieces (σ : PathStyle) :
    ∀ hash : List (String × Reference), PrintableHash hash →
      List.Forall₂ WrittenEntry (hashPieces σ hash) hash
  | [], _ => .nil
  | (key, r) :: rest, h => by
    rw [PrintableHash] at h
    obtain ⟨⟨hkey, hr⟩, hrest⟩ := h
    rw [hashPieces]
    exact .cons ⟨_, rfl, hkey, Reference.written_print σ r hr⟩ (written_hashPieces σ rest hrest)

end

theorem Invocation.parse_of_parseArguments {s : List Char} {i j : Invocation}
    (h : parseArguments s = .ok i) (hp : i.params ≠ [])
    (hmany : 1 < i.params.length + i.hash.length → (promote? i).getD i = j)
    (hone : ¬ 1 < i.params.length + i.hash.length → i = j) : parse s = .ok j := by
  rw [parse, h]
  simp only [bind, Except.bind, if_neg hp]
  split
  · exact congrArg Except.ok (hmany ‹_›)
  · exact congrArg Except.ok (hone ‹_›)

/-- Reading the arguments of a tag undoes writing them. -/
theorem Invocation.parse_print (σ : PathStyle) (i : Invocation) (h : i.Printable) :
    Invocation.parse (i.print σ) = .ok i := by
  obtain ⟨helper, params, hash, names⟩ := i
  have hh := written_helperPieces helper fun name he => (h.helper name he).1
  have hp := written_paramPieces σ params h.params
  have he := written_hashPieces σ hash h.hash
  cases helper with
  | none =>
    obtain ⟨p, ps, hps, hvalue⟩ := h.value rfl
    obtain rfl : params = p :: ps := hps
    have hargs := parseArguments_print hh hp he h.aliases (.inr (List.cons_ne_nil p ps))
    apply parse_of_parseArguments hargs (List.cons_ne_nil p ps)
    · intro hmany
      rcases hvalue with hvalue | ⟨rfl, hhash⟩
      · -- Whatever follows it, the first argument is no identifier.
        simp [helperParams, promote?, hvalue]
      · obtain rfl : hash = [] := hhash
        exact absurd hmany (by simp [helperParams])
    · intro _
      rfl
  | some name =>
    obtain ⟨hname, hmore⟩ := h.helper name rfl
    have hargs := parseArguments_print hh hp he h.aliases (.inl (Option.some_ne_none name))
    have hpromote := promote?_helperParams hname params hash names
    have hlength : 1 < (helperParams (some name) ++ params).length + hash.length := by
      simp only [helperParams, List.singleton_append, List.length_cons]
      rcases hmore with hmore | hmore
      · have hpos : 0 < params.length := List.length_pos_iff.2 hmore
        omega
      · have hpos : 0 < hash.length := List.length_pos_iff.2 hmore
        omega
    apply parse_of_parseArguments hargs (List.cons_ne_nil _ _)
    · intro _
      simp only [hpromote, Option.getD_some]
    · intro hone
      exact absurd hlength hone

theorem Invocation.parse_print_nested :
    ∃ i : Invocation, i.Printable ∧
      String.ofList (i.print ⟨'.', .inl rfl, .word⟩) =
        "[f] \"a)\\\"b\" ([g h] ../this/[x y].[]) k=-5 this=true as |u v|" ∧
      Invocation.parse (i.print ⟨'.', .inl rfl, .word⟩) = .ok i := by
  have hi : Invocation.Printable ⟨some "f", [.literal (.string "a)\"b"),
      .call ⟨some "g h", [.path ⟨["x y", ""], 1, true⟩], [], []⟩],
      [("k", .literal (.number (.int (-5)))), ("this", .literal (.bool true))], ["u", "v"]⟩ := by
    have hpath : Path.Printable ⟨["x y", ""], 1, true⟩ := by
      rw [Path.Printable]
      decide
    have hint : Literal.Printable (.number (.int (-5))) := by
      rw [Literal.Printable]
      decide
    refine ⟨?_, ?_, ?_, ?_, ?_⟩
    · rintro name ⟨⟩
      exact ⟨⟨by decide, by decide⟩, .inl (List.cons_ne_nil _ _)⟩
    · intro hnone
      cases hnone
    · exact ⟨trivial, ⟨⟨by decide, by decide⟩, ⟨hpath, trivial⟩, trivial⟩, trivial⟩
    · have hk : IsKey "k" := ⟨by decide, forall_mem_of_all (by decide)⟩
      have hthis : IsKey "this" := ⟨by decide, forall_mem_of_all (by decide)⟩
      exact ⟨⟨hk, hint⟩, ⟨hthis, trivial⟩, trivial⟩
    · intro name hname
      simp only [List.mem_cons, List.not_mem_nil, or_false] at hname
      rcases hname with rfl | rfl <;> exact ⟨by decide, forall_mem_of_all (by decide)⟩
  exact ⟨_, hi, by decide, Invocation.parse_print _ _ hi⟩

end TextTemplate

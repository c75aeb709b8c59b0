import Mathlib.Data.List.Forall2
import TextTemplate.Proofs.Escaping

/-! Escaping replaces each character once, and what the markup entities stand for can be read
back. -/

namespace TextTemplate.Entities

/-- What is written for a character: its last entry, or the character itself when it has none. -/
inductive Writes (e : Entities) (c : Char) : List Char → Prop
  | entry {before after : List (Char × String)} {s : String}
      (h : e.entries = before ++ (c, s) :: after) (hlast : ∀ entry ∈ after, entry.1 ≠ c) :
      Writes e c s.toList
  | itself (h : ∀ entry ∈ e.entries, entry.1 ≠ c) : Writes e c [c]

/-- The first entry whose replacement stands at the start of a text. -/
def entityAt? (e : Entities) (s : List Char) : Option (Char × String) :=
  e.entries.find? fun entry => entry.2.toList.isPrefixOf s

/-- Reads a text from left to right, and each entity as the character it was written for. -/
def unescapeFrom (e : Entities) : List Char → List Char
  | [] => []
  | c :: cs =>
    match e.entityAt? (c :: cs) with
    | some (d, entity) => d :: unescapeFrom e (cs.drop (entity.length - 1))
    | none => c :: unescapeFrom e cs
termination_by s => s.length
decreasing_by
  · rw [List.length_drop, List.length_cons]
    omega
  · exact Nat.lt_succ_self _

def unescape (e : Entities) (s : String) : String := String.ofList (e.unescapeFrom s.toList)

/-- Every entity begins with the sigil and holds no other one, the sigil is written as an entity
itself, and no entity is the beginning of another. -/
structure Readable (e : Entities) (sigil : Char) : Prop where
  escaped : ∃ entry ∈ e.entries, entry.1 = sigil
  begins : ∀ entry ∈ e.entries, ∃ w, entry.2.toList = sigil :: w ∧ sigil ∉ w
  apart : ∀ a ∈ e.entries, ∀ b ∈ e.entries, a.2.toList <+: b.2.toList → a = b

section
variable {e : Entities} {c sigil : Char} {s w r before after : List Char}

theorem get?_eq_some_iff {t : String} :
    e.get? c = some t ↔
      ∃ before after, e.entries = before ++ (c, t) :: after ∧ ∀ entry ∈ after, entry.1 ≠ c := by
  rw [get?, List.lookup_eq_some_iff]
  constructor
  · rintro ⟨after, before, h, hlast⟩
    refine ⟨before.reverse, after.reverse, ?_, ?_⟩
    · rw [← List.reverse_reverse e.entries, h]
      simp
    · intro entry hm he
      have hne := hlast entry (List.mem_reverse.1 hm)
      simp [he] at hne
  · rintro ⟨before, after, h, hlast⟩
    refine ⟨after.reverse, before.reverse, ?_, ?_⟩
    · rw [h]
      simp
    · intro entry hm
      have hne := hlast entry (List.mem_reverse.1 hm)
      simpa using hne.symm

theorem get?_eq_none_iff : e.get? c = none ↔ ∀ entry ∈ e.entries, entry.1 ≠ c := by
  rw [get?, List.lookup_eq_none_iff]
  simp only [List.mem_reverse, bne_iff_ne]
  exact forall₂_congr fun _ _ => ne_comm

theorem writes_iff : e.Writes c w ↔ w = e.escapeChar c := by
  rw [escapeChar]
  cases h : e.get? c with
  | some t =>
    obtain ⟨before, after, hentries, hlast⟩ := get?_eq_some_iff.1 h
    constructor
    · intro hw
      cases hw with
      | entry h' hlast' =>
        have ht := get?_eq_some_iff.2 ⟨_, _, h', hlast'⟩
        rw [h] at ht
        rw [Option.some.inj ht]
      | itself hn =>
        rw [get?_eq_none_iff.2 hn] at h
        cases h
    · rintro rfl
      exact .entry hentries hlast
  | none =>
    have hn := get?_eq_none_iff.1 h
    constructor
    · intro hw
      cases hw with
      | @entry before after t hentries _ =>
        refine absurd rfl (hn (c, t) ?_)
        rw [hentries]
        exact List.mem_append_right _ (List.mem_cons_self ..)
      | itself _ => rfl
    · rintro rfl
      exact .itself hn

theorem forall₂_writes_iff {pieces : List (List Char)} :
    List.Forall₂ e.Writes s pieces ↔ pieces = s.map e.escapeChar := by
  induction s generalizing pieces with
  | nil => simp
  | cons c s ih => cases pieces <;> simp [writes_iff, ih]

theorem escape_eq_iff {s t : String} :
    e.escape s = t ↔
      ∃ pieces, List.Forall₂ e.Writes s.toList pieces ∧ t.toList = pieces.flatten := by
  simp only [forall₂_writes_iff, exists_eq_left, ← List.flatMap_def]
  rw [escape, ← String.toList_inj, String.toList_ofList, eq_comm]

/-! Reading back -/

namespace Readable
variable (h : e.Readable sigil)
include h

theorem ne_nil {entry : Char × String} (hm : entry ∈ e.entries) : entry.2.toList ≠ [] := by
  obtain ⟨w, hw, -⟩ := h.begins entry hm
  rw [hw]
  exact List.cons_ne_nil sigil w

/-- A character that is written as it is does not look like an entity. -/
theorem ne_of_get?_eq_none (hc : e.get? c = none) : c ≠ sigil := by
  rintro rfl
  obtain ⟨entry, hm, he⟩ := h.escaped
  exact get?_eq_none_iff.1 hc entry hm he

theorem entityAt?_of_ne (hc : c ≠ sigil) : e.entityAt? (c :: r) = none := by
  rw [entityAt?, List.find?_eq_none]
  intro entry hm hp
  obtain ⟨w, hw, -⟩ := h.begins entry hm
  rw [hw, List.isPrefixOf_iff_prefix, List.cons_prefix_cons] at hp
  exact hc hp.1.symm

theorem entityAt?_append {entry : Char × String} (hm : entry ∈ e.entries) :
    e.entityAt? (entry.2.toList ++ r) = some entry := by
  have hfound : (e.entityAt? (entry.2.toList ++ r)).isSome := by
    rw [entityAt?, List.find?_isSome]
    exact ⟨entry, hm, List.isPrefixOf_iff_prefix.2 (List.prefix_append _ r)⟩
  obtain ⟨other, hother⟩ := Option.isSome_iff_exists.1 hfound
  rw [hother]
  rw [entityAt?] at hother
  have hmem : other ∈ e.entries := List.mem_of_find?_eq_some hother
  have hat := List.find?_some hother
  have hp : other.2.toList <+: entry.2.toList ++ r := List.isPrefixOf_iff_prefix.1 hat
  -- Of two entities at one place, one is the beginning of the other.
  rcases List.prefix_or_prefix_of_prefix hp (List.prefix_append _ r) with hle | hle
  · rw [h.apart other hmem entry hm hle]
  · rw [h.apart entry hm other hmem hle]

theorem unescapeFrom_escapeChar (c : Char) (r : List Char) :
    e.unescapeFrom (e.escapeChar c ++ r) = c :: e.unescapeFrom r := by
  rw [escapeChar]
  cases hc : e.get? c with
  | none =>
    have hat := h.entityAt?_of_ne (r := r) (h.ne_of_get?_eq_none hc)
    rw [List.singleton_append, unescapeFrom, hat]
  | some t =>
    have hm : (c, t) ∈ e.entries := mem_entries_of_get? hc
    have hat := h.entityAt?_append (r := r) hm
    obtain ⟨w, hw, -⟩ := h.begins (c, t) hm
    have hlen : t.length - 1 = w.length := by
      rw [← String.length_toList, hw, List.length_cons, Nat.add_sub_cancel]
    simp only [hw, List.cons_append] at hat ⊢
    rw [unescapeFrom, hat]
    simp only [hlen, List.drop_left]

theorem unescape_escape (s : String) : e.unescape (e.escape s) = s := by
  have hchars : ∀ cs : List Char, e.unescapeFrom (cs.flatMap e.escapeChar) = cs := by
    intro cs
    induction cs with
    | nil => rw [List.flatMap_nil, unescapeFrom]
    | cons c cs ih => rw [List.flatMap_cons, h.unescapeFrom_escapeChar, ih]
  rw [unescape, escape, String.toList_ofList, hchars, String.ofList_toList]

theorem escape_injective : Function.Injective e.escape :=
  Function.LeftInverse.injective h.unescape_escape

/-- A sigil within what is written for a character is the start of its entity. -/
theorem exists_entity_of_escapeChar (hc : e.escapeChar c = before ++ sigil :: after) :
    ∃ entry ∈ e.entries, entry.2.toList = sigil :: after := by
  rw [escapeChar] at hc
  cases hget : e.get? c with
  | none =>
    have hne := h.ne_of_get?_eq_none hget
    rw [hget] at hc
    have hmem : sigil ∈ [c] := by
      simp only [hc]
      exact List.mem_append_right _ (List.mem_cons_self ..)
    exact absurd (List.mem_singleton.1 hmem).symm hne
  | some t =>
    have hm : (c, t) ∈ e.entries := mem_entries_of_get? hget
    obtain ⟨w, hw, hnot⟩ := h.begins (c, t) hm
    simp only [hget] at hc
    cases before with
    | nil => exact ⟨(c, t), hm, hc⟩
    | cons d before =>
      rw [hw, List.cons_append] at hc
      refine absurd ?_ hnot
      rw [(List.cons.inj hc).2]
      exact List.mem_append_right _ (List.mem_cons_self ..)

/-- Every sigil in an escaped text begins an entity. -/
theorem exists_entity (hs : s.flatMap e.escapeChar = before ++ sigil :: after) :
    ∃ entry ∈ e.entries, entry.2.toList <+: sigil :: after := by
  induction s generalizing before with
  | nil => simp at hs
  | cons c s ih =>
    rw [List.flatMap_cons, List.append_eq_append_iff] at hs
    rcases hs with ⟨more, -, hrest⟩ | ⟨more, hpiece, hrest⟩
    · exact ih hrest
    · cases more with
      | nil => exact @ih [] hrest.symm
      | cons d more =>
        rw [List.cons_append] at hrest
        obtain ⟨rfl, rfl⟩ := List.cons.inj hrest
        obtain ⟨entry, hm, he⟩ := h.exists_entity_of_escapeChar hpiece
        exact ⟨entry, hm, s.flatMap e.escapeChar, by rw [he, List.cons_append]⟩

end Readable
end

theorem markup_readable : markup.Readable '&' where
  escaped := ⟨('&', "&amp;"), by simp [markup], rfl⟩
  begins := by simp [markup]
  apart := by decide +kernel

/-- A text is escaped character by character, each one by its last entry, and so is a text of two
parts. With the markup entities no character of markup is left, an ampersand only ever begins an
entity, and reading the entities from left to right gives the text back: no two texts are escaped
alike. -/
theorem escape_reversible (e : Entities) (s t : String) :
    (e.escape s = t ↔
      ∃ pieces, List.Forall₂ e.Writes s.toList pieces ∧ t.toList = pieces.flatten) ∧
    e.escape (s ++ t) = e.escape s ++ e.escape t ∧
    (∀ c ∈ marks, c ∉ (markup.escape s).toList) ∧
    (∀ before after, (markup.escape s).toList = before ++ '&' :: after →
      ∃ entry ∈ markup.entries, entry.2.toList <+: '&' :: after) ∧
    markup.unescape (markup.escape s) = s ∧
    (markup.escape s = markup.escape t ↔ s = t) := by
  refine ⟨escape_eq_iff, escape_append e s t, fun c hc => notMem_escape_markup hc s, ?_,
    markup_readable.unescape_escape s, markup_readable.escape_injective.eq_iff⟩
  intro before after hs
  rw [escape, String.toList_ofList] at hs
  exact markup_readable.exists_entity hs

/-- An entity in the text itself, beside a character that is written as this entity. -/
theorem escape_reversible_entity_like :
    let s := "&lt;<"
    markup.escape s = "&amp;lt;&lt;" ∧ markup.unescape "&amp;lt;&lt;" = s ∧
    ('<' ∈ marks ∧ '<' ∉ (markup.escape s).toList) ∧
    (markup.escape s).toList = "&amp;lt;".toList ++ '&' :: "lt;".toList ∧
    ∃ entry ∈ markup.entries, entry.2.toList <+: '&' :: "lt;".toList := by
  intro s
  have hs : markup.escape s = "&amp;lt;&lt;" := by decide +kernel
  have hmem : '<' ∈ marks := by decide
  have hsplit : (markup.escape s).toList = "&amp;lt;".toList ++ '&' :: "lt;".toList := by
    rw [hs]
    decide +kernel
  obtain ⟨-, -, hfree, hentity, hback, -⟩ := escape_reversible markup s ""
  rw [hs] at hback
  exact ⟨hs, hback, ⟨hmem, hfree '<' hmem⟩, hsplit, hentity _ _ hsplit⟩

end TextTemplate.Entities

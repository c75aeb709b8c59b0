import TextTemplate.Tag.Basic

/-! The tags of a source, one after the other. -/

namespace TextTemplate.Tag
variable {d : Delimiters} {s : List Char} {t : Tag}

/-- The first tag of a source, or none when no delimiter opens one. -/
def first? (d : Delimiters) (s : List Char) : Except ParseError (Option Tag) :=
  match Markup.find? d s with
  | some (before, true, m, after) =>
    .ok (some ⟨.quoted, before, m.text d, after, m.text d⟩)
  | some (before, false, m, after) =>
    match ofMarkup d m with
    | .ok (kind, content) =>
      .ok (some {
        kind, content
        before := if m.trimsBefore then Text.trimEnd before else before
        after := if m.trimsAfter then Text.trimStart after else after
        raw := m.text d })
    | .error e => .error (.tag e (m.text d))
  | none =>
    match Text.fromFirst? d.opening.toList s with
    | some rest => .error (.unclosedTag rest)
    | none => .ok none

theorem length_after_lt (h : first? d s = .ok (some t)) : t.after.length < s.length := by
  unfold first? at h
  split at h
  · cases h
    rename_i m _ hm
    have := m.length_text_pos d
    simp only [Markup.find?_eq_some hm, List.length_append]
    omega
  · rename_i before m after hm
    have hl := m.length_text_pos d
    have ha := Text.length_trimStart_le after
    split at h
    · cases h
      simp only [Markup.find?_eq_some hm, List.length_append]
      split <;> omega
    · cases h
  · split at h <;> cases h

/-- All tags of a source, and the text after the last one or the error that ends the scan. -/
structure Scan where
  tags : List Tag
  rest : Except ParseError (List Char)

def scan (d : Delimiters) (s : List Char) : Scan :=
  match _h : first? d s with
  | .error e => ⟨[], .error e⟩
  | .ok none => ⟨[], .ok s⟩
  | .ok (some t) =>
    let next := scan d t.after
    ⟨t :: next.tags, next.rest⟩
termination_by s.length
decreasing_by exact length_after_lt _h

end TextTemplate.Tag

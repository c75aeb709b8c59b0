import TextTemplate.Delimiters
import TextTemplate.Text.Search

/-! Tags as they are written: reading one at the start of a text, and finding the first one. -/

namespace TextTemplate

/-- What stands between a tag's delimiters and its inside. -/
inductive Enclosure
  | plain
  | braces
  | dashes
deriving DecidableEq

def Enclosure.opening : Enclosure → List Char
  | plain => []
  | braces => ['\x7b']
  | dashes => ['!', '-', '-']

def Enclosure.closing : Enclosure → List Char
  | plain => []
  | braces => ['\x7d']
  | dashes => ['-', '-']

/-- A tag as it is written. A trimming tag has a tilde at the delimiter on that side. -/
structure Markup where
  trimsBefore : Bool
  enclosure : Enclosure
  inside : List Char
  trimsAfter : Bool
deriving DecidableEq

namespace Markup
variable {d : Delimiters} {e : Enclosure} {b q : Bool} {s r w : List Char} {m : Markup}

def tilde (b : Bool) : List Char := if b then ['~'] else []

/-- The whole tag, delimiters included. -/
def text (d : Delimiters) (m : Markup) : List Char :=
  d.opening.toList ++ tilde m.trimsBefore ++ m.enclosure.opening ++ m.inside ++
    m.enclosure.closing ++ tilde m.trimsAfter ++ d.closing.toList

/-- The rest after the end of a tag, which may hold a tilde; a tilde is read first. -/
def afterEnd? (d : Delimiters) (e : Enclosure) (s : List Char) : Option (Bool × List Char) := do
  let s ← Text.after? e.closing s
  [true, false].findSome? fun b =>
    (Text.after? (tilde b ++ d.closing.toList) s).map fun r => (b, r)

/-- The tag of one enclosure that starts `s`; it ends as early as it can. -/
def readAs? (d : Delimiters) (b : Bool) (e : Enclosure) (s : List Char) :
    Option (Markup × List Char) := do
  let s ← Text.after? (d.opening.toList ++ tilde b ++ e.opening) s
  let (inside, b', r) ← Text.upTo (afterEnd? d e) s
  pure (⟨b, e, inside, b'⟩, r)

/-- The tag that starts `s`, with the rest. A tilde is read before the inside, and an enclosure
that is opened but not closed is part of a plain inside. -/
def read? (d : Delimiters) (s : List Char) : Option (Markup × List Char) :=
  [true, false].findSome? fun b =>
    [.dashes, .braces, .plain].findSome? fun e => readAs? d b e s

def backslash (q : Bool) : List Char := if q then ['\\'] else []

/-- The tag that starts `s`, or that a backslash at the start of `s` quotes. -/
def quotedRead? (d : Delimiters) (s : List Char) : Option (Bool × Markup × List Char) :=
  [true, false].findSome? fun q =>
    ((Text.after? (backslash q) s).bind (read? d)).map fun r => (q, r)

/-- The first tag of a text, between the text before it and the rest. -/
def find? (d : Delimiters) (s : List Char) : Option (List Char × Bool × Markup × List Char) :=
  Text.upTo (quotedRead? d) s

theorem afterEnd?_eq_some (h : afterEnd? d e s = some (b, r)) :
    s = e.closing ++ tilde b ++ d.closing.toList ++ r := by
  simp only [afterEnd?, bind, Option.bind_eq_some_iff] at h
  obtain ⟨t, ht, h⟩ := h
  obtain ⟨b', _, hb⟩ := List.exists_of_findSome?_eq_some h
  obtain ⟨r', hr, he⟩ := Option.map_eq_some_iff.1 hb
  cases he
  simp [Text.after?_eq_some_iff.1 ht, Text.after?_eq_some_iff.1 hr]

theorem readAs?_eq_some (h : readAs? d b e s = some (m, r)) : s = m.text d ++ r := by
  simp only [readAs?, bind, Option.bind_eq_some_iff] at h
  obtain ⟨t, ht, ⟨inside, b', u⟩, hu, he⟩ := h
  cases he
  obtain ⟨v, rfl, hv⟩ := Text.upTo_eq_some hu
  simp [text, Text.after?_eq_some_iff.1 ht, afterEnd?_eq_some hv]

theorem read?_eq_some (h : read? d s = some (m, r)) : s = m.text d ++ r := by
  obtain ⟨b, _, h⟩ := List.exists_of_findSome?_eq_some h
  obtain ⟨e, _, h⟩ := List.exists_of_findSome?_eq_some h
  exact readAs?_eq_some h

theorem quotedRead?_eq_some (h : quotedRead? d s = some (q, m, r)) :
    s = backslash q ++ m.text d ++ r := by
  obtain ⟨q', _, h⟩ := List.exists_of_findSome?_eq_some h
  obtain ⟨_, h, he⟩ := Option.map_eq_some_iff.1 h
  cases he
  obtain ⟨t, ht, h⟩ := Option.bind_eq_some_iff.1 h
  simp [Text.after?_eq_some_iff.1 ht, read?_eq_some h]

/-- Finding a tag loses nothing. -/
theorem find?_eq_some (h : find? d s = some (w, q, m, r)) :
    s = w ++ backslash q ++ m.text d ++ r := by
  obtain ⟨t, rfl, ht⟩ := Text.upTo_eq_some h
  simp [quotedRead?_eq_some ht]

theorem length_text_pos (d : Delimiters) (m : Markup) : 0 < (m.text d).length := by
  have : d.opening.toList ≠ [] := by simpa using d.opening_ne
  have := List.length_pos_iff.2 this
  simp only [text, List.length_append]
  omega

end Markup
end TextTemplate

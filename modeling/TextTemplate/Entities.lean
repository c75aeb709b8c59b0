/-! The characters that a template's output writes as entities. -/

namespace TextTemplate

/-- Characters and what is written for them; of two entries for a character the later counts. -/
structure Entities where
  entries : List (Char × String)
deriving DecidableEq

namespace Entities

/-- Replaces what has a meaning in markup or closes an attribute. -/
def markup : Entities := ⟨[
  ('&', "&amp;"),
  ('<', "&lt;"),
  ('>', "&gt;"),
  ('"', "&quot;"),
  ('\'', "&#39;"),
  ('/', "&#x2F;"),
  ('\x60', "&#x60;"),
  ('=', "&#x3D;")]⟩

instance : Inhabited Entities := ⟨markup⟩

def get? (e : Entities) (c : Char) : Option String := e.entries.reverse.lookup c

def escapeChar (e : Entities) (c : Char) : List Char :=
  match e.get? c with
  | some s => s.toList
  | none => [c]

/-- Each character is replaced once; what is written for it is not read again. -/
def escape (e : Entities) (s : String) : String := String.ofList (s.toList.flatMap e.escapeChar)

theorem escape_append (e : Entities) (s t : String) :
    e.escape (s ++ t) = e.escape s ++ e.escape t := by
  simp [escape]

end Entities
end TextTemplate

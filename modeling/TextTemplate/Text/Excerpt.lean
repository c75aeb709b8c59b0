/-! The longest piece at an end of a text that fits into a number of UTF-8 bytes. -/

namespace TextTemplate.Text

/-- The longest run of whole characters at the start of a text that takes at most `n` bytes. -/
def firstBytes : Nat → List Char → List Char
  | _, [] => []
  | n, c :: cs => if c.utf8Size ≤ n then c :: firstBytes (n - c.utf8Size) cs else []

/-- The longest run of whole characters at the end of a text that takes at most `n` bytes. -/
def lastBytes (n : Nat) (s : List Char) : List Char := (firstBytes n s.reverse).reverse

end TextTemplate.Text

import TextTemplate.ParseError
import TextTemplate.Tag.Markup
import TextTemplate.Text.Blank

/-! What a tag asks for, read off its markup. -/

namespace TextTemplate

inductive Tag.Kind
  | comment
  | escapedValue
  | rawValue
  | opening
  | inverse
  | closing
  | alternative
  | partialTag
  | partialBlock
  | definition
  | quoted
deriving DecidableEq

/-- A tag in its place. `before` and `after` are the texts around it, less the white space that
the tag trims; `content` is what it says without its sigil; `raw` is the whole tag. -/
structure Tag where
  kind : Tag.Kind
  before : List Char
  content : List Char
  after : List Char
  raw : List Char
deriving DecidableEq

namespace Tag

/-- The rest after a keyword that white space or the end of the text follows. -/
def afterKeyword? (keyword s : List Char) : Option (List Char) :=
  match Text.after? keyword s with
  | some [] => some []
  | some (c :: cs) => if Text.isBlank c then some (Text.trimStart (c :: cs)) else none
  | none => none

def named (kind : Kind) (content : List Char) : Except TagError (Kind × List Char) :=
  if content = [] then .error .emptyTag else .ok (kind, content)

/-- Kind and content of a tag with a trimmed plain inside: the first character is its sigil. -/
def ofInside (inside : List Char) : Except TagError (Kind × List Char) :=
  match inside with
  | [] => .error .emptyTag
  | '!' :: s => .ok (.comment, Text.trim s)
  | '/' :: s => named .closing (Text.trim s)
  | '>' :: s => named .partialTag (Text.trim s)
  | '&' :: s => named .rawValue (Text.trim s)
  | '^' :: s => .ok (if Text.trim s = [] then .alternative else .inverse, Text.trim s)
  | '#' :: s =>
    match Text.trimStart s with
    | '>' :: s => named .partialBlock (Text.trim s)
    | '*' :: s => named .definition (Text.trim s)
    | s => named .opening (Text.trimEnd s)
  | '=' :: _ => .error .delimiterChange
  | s =>
    match afterKeyword? ['e', 'l', 's', 'e'] s with
    | some rest => .ok (.alternative, rest)
    | none => .ok (.escapedValue, s)

def ofMarkup (d : Delimiters) (m : Markup) : Except TagError (Kind × List Char) :=
  match m.enclosure with
  | .dashes => .ok (.comment, Text.trim m.inside)
  | .braces => named .rawValue (Text.trim m.inside)
  | .plain =>
    if Text.contains d.opening.toList m.inside then .error .unclosedTag
    else ofInside (Text.trim m.inside)

end Tag
end TextTemplate

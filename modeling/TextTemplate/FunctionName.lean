import TextTemplate.Template.Builder
import TextTemplate.Text.Capital

/-! The function that registers an embedded template: its name, and the check of the template. -/

namespace TextTemplate.FunctionName

/-- The small form of a capital, in full where it has characters that a name can hold. -/
def small (c : Char) : List Char :=
  if c = '\u212a' then ['k']
  else if c = '\u0130' then ['i', '\u0307']
  else [c.toLower]

/-- Writes each capital small, behind an underscore unless it starts the name. -/
def snakeCase : List Char → List Char
  | [] => []
  | c :: cs =>
    (if Text.isCapital c then small c else [c]) ++
      cs.flatMap fun c => if Text.isCapital c then '_' :: small c else [c]

def isWordChar (c : Char) : Bool := c.isAlphanum || c = '_'

/-- Replaces each run of other characters by one underscore. -/
def replaceRuns : List Char → List Char
  | [] => []
  | c :: cs =>
    if isWordChar c then c :: replaceRuns cs
    else match cs with
      | d :: _ => if isWordChar d then '_' :: replaceRuns cs else replaceRuns cs
      | [] => ['_']

def trimUnderscores (s : List Char) : List Char :=
  ((s.dropWhile (· = '_')).reverse.dropWhile (· = '_')).reverse

/-- A name is not empty and does not start with a digit. -/
def guardStart (s : List Char) : List Char :=
  if s.head?.all Char.isDigit then '_' :: s else s

/-- The name for a template, such as `layouts_main_page` for `layouts/main-page`. -/
def ofTemplate (name : String) : String :=
  String.ofList (guardStart (trimUnderscores (replaceRuns (snakeCase name.toList))))

/-- An embedded template that does not compile. -/
structure Rejection where
  name : String
  cause : ParseError
deriving DecidableEq

def Rejection.message (r : Rejection) : String := "template " ++ r.name ++ ": " ++ r.cause.message

/-- The function of a template that compiles. -/
def ofSource (name source : String) : Except Rejection String :=
  match Template.compile .braces source with
  | .ok _ => .ok (ofTemplate name)
  | .error cause => .error { name, cause }

end TextTemplate.FunctionName

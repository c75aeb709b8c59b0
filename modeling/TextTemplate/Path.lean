import TextTemplate.ParseError
import TextTemplate.Text.Search

/-! Paths into the data: which scope they start from and which properties they read. -/

namespace TextTemplate

/-- `depth` counts the scopes to leave; a strict path reads the context and no binding.
A path without segments is the context itself. -/
structure Path where
  segments : List String
  depth : Nat
  strict : Bool
deriving DecidableEq

namespace Path

def isThis (p : Path) : Bool := p.segments.isEmpty

/-- The name of a plain path, which may be that of a helper. -/
def identifier? (p : Path) : Option String :=
  match p.segments with
  | [name] => if p.depth = 0 ∧ ¬p.strict ∧ name.toList.head? ≠ some '@' then some name else none
  | _ => none

/-- What is read of a segment so far. -/
inductive Segment
  | bare (text : List Char)
  | bracketed (text : List Char)
deriving DecidableEq

def Segment.finish? : Segment → Option (List Char)
  | bare [] => none
  | bare text => some text
  | bracketed text => some text

/-- The segments of `s`, between points or slashes. A segment in square brackets may hold any
characters but the closing bracket, and stands alone. Errors quote the whole text. -/
def segmentsFrom (whole : List Char) (current : Segment) (s : List Char) :
    Except ArgumentError (List (List Char)) :=
  match s with
  | [] =>
    match current.finish? with
    | some segment => .ok [segment]
    | none => .error (.invalidPath whole)
  | c :: cs =>
    if c = '[' then
      if current ≠ .bare [] then .error (.invalidPath whole)
      else
        match _h : cs.dropWhile (· ≠ ']') with
        | [] => .error (.unclosedPathBracket whole)
        | _ :: rest => segmentsFrom whole (.bracketed (cs.takeWhile (· ≠ ']'))) rest
    else if c = ']' then .error (.unclosedPathBracket whole)
    else if c = '.' ∨ c = '/' then
      match current.finish? with
      | some segment => (segmentsFrom whole (.bare []) cs).map (segment :: ·)
      | none => .error (.invalidPath whole)
    else
      match current with
      | .bare text => segmentsFrom whole (.bare (text ++ [c])) cs
      | .bracketed _ => .error (.invalidPath whole)
termination_by s.length
decreasing_by
  · have := (List.dropWhile_suffix (l := cs) (· ≠ ']')).length_le
    simp only [_h, List.length_cons] at this ⊢
    omega
  all_goals exact Nat.lt_succ_self _

def split (s : List Char) : Except ArgumentError (List (List Char)) := segmentsFrom s (.bare []) s

/-- Counts the steps to enclosing scopes at the start of a path. -/
def leave : List Char → Nat × List Char
  | ['.', '.'] => (1, [])
  | '.' :: '.' :: '/' :: s => ((leave s).1 + 1, (leave s).2)
  | s => (0, s)

/-- Takes one mark of a strict path off its start. -/
def dropStrict (s : List Char) : Bool × List Char :=
  let marks : List (List Char) := [['t', 'h', 'i', 's', '/'], ['t', 'h', 'i', 's', '.'], ['.', '/']]
  match marks.findSome? fun mark => Text.after? mark s with
  | some rest => (true, rest)
  | none => (false, s)

/-- The spellings of the context itself. -/
def isContext (s : List Char) : Bool := s = [] || s = ['.'] || s = ['t', 'h', 'i', 's']

def parse (s : List Char) : Except ArgumentError Path := do
  let (special, rest) := match s with
    | '@' :: rest => (true, rest)
    | _ => (false, s)
  let (depth, rest) := leave rest
  let (strict, rest) := dropStrict rest
  let segments ← if isContext rest then .ok [] else split rest
  let segments ← match special, segments with
    | false, segments => .ok segments
    | true, first :: others => .ok (('@' :: first) :: others)
    | true, [] => .error (.missingSpecialName s)
  pure ⟨segments.map String.ofList, depth, strict⟩

end Path
end TextTemplate

import TextTemplate.Invocation.Parser

/-! How arguments are written, and which arguments can be written so that they are read back. -/

namespace TextTemplate

/-- Texts with a space between each two. -/
def Text.spaced : List (List Char) → List Char
  | [] => []
  | a :: l => a ++ l.flatMap (' ' :: ·)

/-- How a path without segments ends. -/
inductive ContextMark
  | point
  | word
  | least

/-- How paths are written: what stands between two segments, and how the context is written. -/
structure PathStyle where
  separator : Char
  isSeparator : separator = '.' ∨ separator = '/'
  context : ContextMark

/-- The context itself behind what leads to it. Where something does, nothing else is needed. -/
def ContextMark.text (lead : List Char) : ContextMark → List Char
  | point => ['.']
  | word => ['t', 'h', 'i', 's']
  | least => if lead = [] then ['.'] else []

namespace Path

def leaveText (depth : Nat) : List Char := (List.replicate depth ['.', '.', '/']).flatten

def strictText (strict : Bool) : List Char :=
  if strict then ['t', 'h', 'i', 's', '/'] else []

def bracketed (segment : String) : List Char := '[' :: (segment.toList ++ [']'])

/-- The segments of a path, each in brackets. -/
def segmentsText (separator : Char) : List String → List Char
  | [] => []
  | segment :: segments => bracketed segment ++ segments.flatMap (separator :: bracketed ·)

/-- What stands before the segments. -/
def leadText (p : Path) : List Char := leaveText p.depth ++ strictText p.strict

def endText (σ : PathStyle) (lead : List Char) : List String → List Char
  | [] => σ.context.text lead
  | segments => segmentsText σ.separator segments

def print (σ : PathStyle) (p : Path) : List Char := p.leadText ++ endText σ p.leadText p.segments

end Path

/-- A quote and a backslash stand behind a backslash. -/
def escapeQuoted (c : Char) : List Char := if c = '"' ∨ c = '\\' then ['\\', c] else [c]

def quoted (s : List Char) : List Char := '"' :: (s.flatMap escapeQuoted ++ ['"'])

def Literal.print : Literal → List Char
  | null => ['n', 'u', 'l', 'l']
  | bool true => ['t', 'r', 'u', 'e']
  | bool false => ['f', 'a', 'l', 's', 'e']
  | number n => n.text.toList
  | string s => quoted s.toList

namespace Invocation

/-- The name of a helper is written as a segment. -/
def helperPieces : Option String → List (List Char)
  | none => []
  | some name => [Path.bracketed name]

def aliasPieces : List String → List (List Char)
  | [] => []
  | names => [['a', 's'], '|' :: (Text.spaced (names.map String.toList) ++ ['|'])]

end Invocation

mutual

def Reference.print (σ : PathStyle) : Reference → List Char
  | .literal l => l.print
  | .path p => p.print σ
  | .call i => '(' :: (i.print σ ++ [')'])

def Invocation.print (σ : PathStyle) : Invocation → List Char
  | ⟨helper, params, hash, aliases⟩ =>
    Text.spaced (Invocation.helperPieces helper ++
      (paramPieces σ params ++ (hashPieces σ hash ++ Invocation.aliasPieces aliases)))

def paramPieces (σ : PathStyle) : List Reference → List (List Char)
  | [] => []
  | p :: ps => p.print σ :: paramPieces σ ps

def hashPieces (σ : PathStyle) : List (String × Reference) → List (List Char)
  | [] => []
  | (key, r) :: rest => (key.toList ++ '=' :: r.print σ) :: hashPieces σ rest

end

/-- A name that brackets can hold. Parentheses and quotes would be taken for their own kind inside a
group. -/
def Bracketable (name : String) : Prop :=
  ∀ c ∈ name.toList, c ≠ ']' ∧ c ≠ '(' ∧ c ≠ ')' ∧ c ≠ '"' ∧ c ≠ '\''

instance (name : String) : Decidable (Bracketable name) := List.decidableBAll _ _

theorem Bracketable.not_mem_close {name : String} (h : Bracketable name) : ']' ∉ name.toList :=
  fun hm => (h _ hm).1 rfl

/-- What all characters of a text are can be told one by one. -/
theorem forall_mem_of_all {P : Char → Prop} [DecidablePred P] {s : List Char}
    (h : s.all (decide <| P ·)) : ∀ c ∈ s, P c := by
  intro c hc
  exact of_decide_eq_true (List.all_eq_true.1 h c hc)

/-- A name that a call can begin with. -/
structure IsHelperName (name : String) : Prop where
  bracketable : Bracketable name
  head : name.toList.head? ≠ some '@'

structure IsKey (key : String) : Prop where
  nonempty : key ≠ ""
  chars : ∀ c ∈ key.toList, Token.isKeyChar c

structure IsAlias (name : String) : Prop where
  nonempty : name ≠ ""
  chars : ∀ c ∈ name.toList, Text.isBlank c = false ∧ c ≠ '|'

/-- All but doubles and whole numbers of more than 64 bits. -/
def Literal.Printable : Literal → Prop
  | number (.int n) => Int64.minValue.toInt ≤ n ∧ n ≤ Int64.maxValue.toInt
  | number (.double _) => False
  | _ => True

def Path.Printable (p : Path) : Prop := ∀ name ∈ p.segments, Bracketable name

mutual

def Reference.Printable : Reference → Prop
  | .literal l => l.Printable
  | .path p => p.Printable
  | .call i => i.PrintableCall

/-- A group names its helper, and no aliases. -/
def Invocation.PrintableCall : Invocation → Prop
  | ⟨some name, params, hash, []⟩ =>
    IsHelperName name ∧ PrintableParams params ∧ PrintableHash hash
  | _ => False

def PrintableParams : List Reference → Prop
  | [] => True
  | p :: ps => p.Printable ∧ PrintableParams ps

def PrintableHash : List (String × Reference) → Prop
  | [] => True
  | (key, r) :: rest => (IsKey key ∧ r.Printable) ∧ PrintableHash rest

end

/-- The arguments of a tag as they are read: an identifier that others follow is the helper. -/
structure Invocation.Printable (i : Invocation) : Prop where
  helper : ∀ name, i.helper = some name → IsHelperName name ∧ (i.params ≠ [] ∨ i.hash ≠ [])
  value : i.helper = none → ∃ p ps, i.params = p :: ps ∧
    (p.identifier? = none ∨ (ps = [] ∧ i.hash = []))
  params : PrintableParams i.params
  hash : PrintableHash i.hash
  aliases : ∀ name ∈ i.aliases, IsAlias name

end TextTemplate

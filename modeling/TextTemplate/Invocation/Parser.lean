import TextTemplate.Invocation.Basic
import TextTemplate.Number.Numeral
import TextTemplate.Token

/-! Reading arguments: single references, whole argument lists, and calls in parentheses. -/

namespace TextTemplate

/-- Drops each backslash and keeps the character behind it. -/
def unescape : List Char → List Char
  | [] => []
  | ['\\'] => []
  | '\\' :: c :: s => c :: unescape s
  | c :: s => c :: unescape s

/-- The text of a literal after its opening quote; the closing quote must be its end. -/
def stringLiteral (quote : Char) (s : List Char) : Except ArgumentError (List Char) :=
  match Token.upToQuote? quote false s with
  | none => .error (.unterminatedString (quote :: s))
  | some (v, []) => .ok (unescape v.dropLast)
  | some _ => .error (.malformedString (quote :: s))

/-- A bare word: a constant, a numeral or a path. -/
def Reference.ofWord (s : List Char) : Except ArgumentError Reference :=
  if s = ['t', 'r', 'u', 'e'] then .ok (.literal (.bool true))
  else if s = ['f', 'a', 'l', 's', 'e'] then .ok (.literal (.bool false))
  else if s = ['n', 'u', 'l', 'l'] then .ok (.literal .null)
  else match Number.ofNumeral? s with
    | some n => .ok (.literal (.number n))
    | none => (Path.parse s).map .path

namespace Invocation
variable {n : Nat}

/-- Reads the inside of a group of fewer than `n` characters. -/
abbrev CallReader (n : Nat) :=
  (inner : List Char) → inner.length < n → Except ArgumentError Invocation

/-- The reference that one piece stands for. -/
def reference (readCall : CallReader n) (t : Token)
    (h : ∀ inner, t.kind = .group inner → inner.length < n) : Except ArgumentError Reference :=
  match hk : t.kind, t.value with
  | .group inner, _ => (readCall inner (h inner hk)).map .call
  | .blockParams, names => .error (.strayBlockParams names)
  | .string, quote :: s => (stringLiteral quote s).map fun v => .literal (.string (String.ofList v))
  | .string, [] => .error .emptyReference
  | .word, s => Reference.ofWord s

/-- Adds a reference under its key, or as a positional argument where no key came before. -/
def add (i : Invocation) (t : Token) (r : Reference) : Except ArgumentError Invocation :=
  match t.key with
  | some key => .ok { i with hash := i.hash ++ [(String.ofList key, r)] }
  | none =>
    if i.hash = [] then .ok { i with params := i.params ++ [r] }
    else .error (.positionalAfterHash t.value)

/-- Whether `t` is the word that announces block parameters right behind it. -/
def announcesAliases (t : Token) (next : Option Token) : Bool :=
  t.key = none && t.kind = .word && t.value = ['a', 's'] && next.any (·.kind = .blockParams)

/-- Goes through the pieces from left to right. Block parameters name the aliases where they are
announced, and nothing may follow them. -/
def collect (readCall : CallReader n) (announced : Bool) (i : Invocation) :
    (ts : List Token) → (∀ t ∈ ts, ∀ inner, t.kind = .group inner → inner.length < n) →
    Except ArgumentError Invocation
  | [], _ => .ok i
  | t :: ts, h =>
    have hs := fun u hu => h u (.tail _ hu)
    if i.aliases ≠ [] then .error (.afterBlockParams t.value)
    else if announced then
      match Text.words t.value with
      | [] => .error .emptyBlockParams
      | names => collect readCall false { i with aliases := names.map String.ofList } ts hs
    else if announcesAliases t ts.head? then collect readCall true i ts hs
    else do
      let r ← reference readCall t (h t (.head _))
      let i ← add i t r
      collect readCall false i ts hs

/-- Makes the first argument, an identifier, the name of the helper. -/
def promote? (i : Invocation) : Option Invocation :=
  match i.params with
  | [] => none
  | p :: ps => p.identifier?.map fun name => { i with helper := some name, params := ps }

/-- The inside of a group in parentheses, which always names a helper. -/
def parseCall (s : List Char) : Except ArgumentError Invocation :=
  match h : Token.all s with
  | .error e => .error e
  | .ok ts => do
    let i ← collect (n := s.length) (fun inner _ => parseCall inner) false .empty ts
      fun _ ht _ hk => Token.length_inner_lt_of_mem_all h ht hk
    match promote? i with
    | some call => .ok call
    | none => .error (.missingHelper s)
termination_by s.length

/-- A plain list of arguments. -/
def parseArguments (s : List Char) : Except ArgumentError Invocation :=
  match h : Token.all s with
  | .error e => .error e
  | .ok ts =>
    collect (fun inner _ => parseCall inner) false .empty ts
      fun _ ht _ hk => Token.length_inner_lt_of_mem_all h ht hk

/-- The content of a tag: a value, or a helper's name with its arguments. An identifier alone stays
a value. -/
def parse (s : List Char) : Except ArgumentError Invocation := do
  let i ← parseArguments s
  if i.params = [] then throw (.missingReference s)
  if 1 < i.params.length + i.hash.length then pure ((promote? i).getD i) else pure i

end Invocation

/-- The text of a group without its parentheses. -/
def groupInside? (s : List Char) : Option (List Char) :=
  match s with
  | '(' :: cs => if cs.getLast? = some ')' then some cs.dropLast else none
  | _ => none

/-- The text of a single argument, white space around it aside. -/
def Reference.parse (s : List Char) : Except ArgumentError Reference :=
  match Text.trim s with
  | [] => .error .emptyReference
  | c :: cs =>
    if Token.isQuote c then
      (stringLiteral c cs).map fun v => .literal (.string (String.ofList v))
    else if c = '(' then
      match groupInside? (c :: cs) with
      | some inner => (Invocation.parseCall inner).map .call
      | none => .error (.unclosedParentheses (c :: cs))
    else ofWord (c :: cs)

end TextTemplate

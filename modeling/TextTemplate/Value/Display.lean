import TextTemplate.Value.Basic

/-! Values as text: what a template shows, and compact JSON. -/

namespace TextTemplate.Value

/-- A character inside a JSON string. Control characters without a short form are written in hex. -/
def jsonChar (c : Char) : List Char :=
  match c with
  | '"' => ['\\', '"']
  | '\\' => ['\\', '\\']
  | '\x08' => ['\\', 'b']
  | '\x0c' => ['\\', 'f']
  | '\n' => ['\\', 'n']
  | '\r' => ['\\', 'r']
  | '\t' => ['\\', 't']
  | c =>
    if c.toNat < 0x20 then
      ['\\', 'u', '0', '0', Nat.digitChar (c.toNat / 16), Nat.digitChar (c.toNat % 16)]
    else [c]

def jsonString (s : String) : String := String.ofList ('"' :: s.toList.flatMap jsonChar ++ ['"'])

mutual

/-- JSON without spaces. -/
def json : Value → String
  | null => "null"
  | bool b => if b then "true" else "false"
  | number n => n.text
  | string s => jsonString s
  | array items => "[" ++ String.intercalate "," (jsonItems items) ++ "]"
  | object entries => "\x7b" ++ String.intercalate "," (jsonEntries entries) ++ "\x7d"

def jsonItems : List Value → List String
  | [] => []
  | v :: vs => json v :: jsonItems vs

def jsonEntries : Dict Value → List String
  | [] => []
  | (k, v) :: es => (jsonString k ++ ":" ++ json v) :: jsonEntries es

end

mutual

/-- What a template shows: strings as they are, nothing for `null`, the items of an array with
commas between them, and an object as JSON. -/
def display : Value → String
  | null => ""
  | bool b => if b then "true" else "false"
  | number n => n.display
  | string s => s
  | array items => String.intercalate "," (displayItems items)
  | object entries => json (object entries)

def displayItems : List Value → List String
  | [] => []
  | v :: vs => display v :: displayItems vs

end

end TextTemplate.Value

import TextTemplate.ParseError

/-! Why an engine cannot do what it is asked to. -/

namespace TextTemplate

inductive EngineError
  | parse (error : ParseError)
  | helper (name message : String)
  | nestingLimit (name : String) (limit : Nat)
  | unknownTemplate (name : String)
  | invalidDelimiters (opening closing : String)
deriving DecidableEq

def EngineError.message : EngineError → String
  | parse error => error.message
  | helper name message => "helper " ++ name ++ ": " ++ message
  | nestingLimit name limit => name ++ " exceeded the nesting limit of " ++ toString limit
  | unknownTemplate name => "no template registered as " ++ name
  | invalidDelimiters opening closing => "invalid delimiters " ++ opening ++ " " ++ closing

end TextTemplate

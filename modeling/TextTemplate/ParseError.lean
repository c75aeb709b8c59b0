import TextTemplate.Text.Excerpt

/-! Why a template cannot be built, and the wording of each reason. -/

namespace TextTemplate

/-- What is wrong with the arguments of a tag. -/
inductive ArgumentError
  | missingValue (key : List Char)
  | unmatchedParentheses (text : List Char)
  | unclosedParentheses (text : List Char)
  | unterminatedString (text : List Char)
  | malformedString (text : List Char)
  | unclosedWordBracket (text : List Char)
  | unclosedPathBracket (path : List Char)
  | invalidPath (path : List Char)
  | missingSpecialName (path : List Char)
  | emptyReference
  | missingReference (text : List Char)
  | missingHelper (text : List Char)
  | unclosedBlockParams (text : List Char)
  | emptyBlockParams
  | strayBlockParams (names : List Char)
  | afterBlockParams (value : List Char)
  | positionalAfterHash (value : List Char)
deriving DecidableEq

/-- What is wrong with one tag where it stands. -/
inductive TagError
  | emptyTag
  | unclosedTag
  | delimiterChange
  | argument (error : ArgumentError)
  | blockParamsOutsideBlock
  | missingName
  | missingPartialName
  | manyPartialContexts
  | partialBlockParams
  | unsupportedDecorator (name : List Char)
  | missingDefinitionName
  | elseOutsideBlock
  | elseAfterElse
  | unexpectedClose
  | mismatchedClose (closing opening : List Char)
deriving DecidableEq

inductive ParseError
  | emptyDelimiters
  | argument (error : ArgumentError)
  | tag (error : TagError) (raw : List Char)
  | unclosedTag (text : List Char)
  | unclosedBlock (raw : List Char)
deriving DecidableEq

/-- The end of a text as error messages quote it. -/
def excerptEnd (s : List Char) : String := String.ofList (Text.lastBytes 32 s)

/-- The start of a tag as error messages quote it. -/
def excerptStart (s : List Char) : String := String.ofList (Text.firstBytes 48 s)

def ArgumentError.message : ArgumentError → String
  | missingValue key => "expected value after " ++ String.ofList key ++ "="
  | unmatchedParentheses text => "unmatched brackets near " ++ excerptEnd text
  | unclosedParentheses text => "unmatched brackets in " ++ String.ofList text
  | unterminatedString text => "unterminated string near " ++ excerptEnd text
  | malformedString text => "malformed string literal " ++ String.ofList text
  | unclosedWordBracket text => "unbalanced brackets near " ++ excerptEnd text
  | unclosedPathBracket path => "unbalanced brackets in " ++ String.ofList path
  | invalidPath path => "invalid path " ++ String.ofList path
  | missingSpecialName path => "expected a name after @ in " ++ String.ofList path
  | emptyReference => "expected a reference"
  | missingReference text => "expected a reference in " ++ String.ofList text
  | missingHelper text => "expected a helper name in (" ++ String.ofList text ++ ")"
  | unclosedBlockParams text => "unclosed block parameters near " ++ excerptEnd text
  | emptyBlockParams => "expected a name between the pipes"
  | strayBlockParams names =>
    "block parameters |" ++ String.ofList names ++ "| must follow \x60as\x60"
  | afterBlockParams value => "unexpected " ++ String.ofList value ++ " after block parameters"
  | positionalAfterHash value =>
    "positional argument " ++ String.ofList value ++ " follows hash arguments"

def TagError.message : TagError → String
  | emptyTag => "empty tag"
  | unclosedTag => "unclosed tag"
  | delimiterChange =>
    "delimiter changing tags are not supported, configure the delimiters instead"
  | argument error => error.message
  | blockParamsOutsideBlock => "block parameters are only allowed on blocks"
  | missingName => "expected token"
  | missingPartialName => "expected partial name"
  | manyPartialContexts => "partials take at most one context argument"
  | partialBlockParams => "partials do not take block parameters"
  | unsupportedDecorator name => "unsupported decorator " ++ String.ofList name
  | missingDefinitionName => "inline expects a quoted partial name"
  | elseOutsideBlock => "else not expected here"
  | elseAfterElse => "else not expected after a final else"
  | unexpectedClose => "unexpected close tag"
  | mismatchedClose closing opening =>
    String.ofList closing ++ " does not close " ++ String.ofList opening

def ParseError.message : ParseError → String
  | emptyDelimiters => "delimiters must not be empty"
  | argument error => error.message
  | tag error raw => error.message ++ " near \"" ++ excerptStart raw ++ "\""
  | unclosedTag text => "unclosed tag near \"" ++ excerptEnd text ++ "\""
  | unclosedBlock raw => "unclosed block near " ++ excerptEnd raw

end TextTemplate

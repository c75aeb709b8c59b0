import TextTemplate.FunctionName
import TextTemplate.TodoList
import TextTemplate.Proofs.Arguments.Partition
import TextTemplate.Proofs.Arguments.Repetition
import TextTemplate.Proofs.BracketedPath
import TextTemplate.Proofs.Branching.ElseChain
import TextTemplate.Proofs.Branching.Negation
import TextTemplate.Proofs.Branching.Turns
import TextTemplate.Proofs.Escaping
import TextTemplate.Proofs.Excerpts
import TextTemplate.Proofs.FunctionName
import TextTemplate.Proofs.Grammar.BlockParams
import TextTemplate.Proofs.Grammar.Concatenation
import TextTemplate.Proofs.Grammar.NormalForm
import TextTemplate.Proofs.Grammar.Quotation
import TextTemplate.Proofs.Grammar.Reading
import TextTemplate.Proofs.Grouping
import TextTemplate.Proofs.Members
import TextTemplate.Proofs.Numbers.Literal
import TextTemplate.Proofs.PartialBody
import TextTemplate.Proofs.PathGrammar
import TextTemplate.Proofs.Printing.RoundTrip
import TextTemplate.Proofs.Registry.History
import TextTemplate.Proofs.Resolution
import TextTemplate.Proofs.Scanning.Unclosed
import TextTemplate.Proofs.ScopeStack
import TextTemplate.Proofs.Termination
import TextTemplate.Proofs.Unescaping
import TextTemplate.Proofs.Walk.LevelBound
import TextTemplate.Proofs.Walk.Restoration
import TextTemplate.Proofs.Watching.Hooks
import TextTemplate.Proofs.Watching.Inclusion

import DispatchLang.Main
import DispatchLang.Source.Lines
import DispatchLang.Proofs.Arena.Ancestry
import DispatchLang.Proofs.Arena.Subtyping
import DispatchLang.Proofs.Arena.Transitivity
import DispatchLang.Proofs.Eval.Agreement
import DispatchLang.Proofs.Eval.Caching
import DispatchLang.Proofs.Eval.Environments
import DispatchLang.Proofs.Eval.Payloads
import DispatchLang.Proofs.Eval.Scripts
import DispatchLang.Proofs.Method.Choice
import DispatchLang.Proofs.Method.Constrained
import DispatchLang.Proofs.Grammar.RoundTrip
import DispatchLang.Proofs.Grammar.Semicolon
import DispatchLang.Proofs.Grammar.Spans
import DispatchLang.Proofs.Grammar.Termination
import DispatchLang.Proofs.Typing.Histories
import DispatchLang.Proofs.Typing.CleanPrograms
import DispatchLang.Proofs.Eval.Obeying
import DispatchLang.Proofs.Eval.ObeyingBuiltins
import DispatchLang.Proofs.Eval.ObeyingForms
import DispatchLang.Proofs.Eval.Feeding
import DispatchLang.Proofs.Eval.ReadPrograms
import DispatchLang.Proofs.Typing.Targets
import DispatchLang.Proofs.Typing.Balance
import DispatchLang.Proofs.Value.Pictures
import DispatchLang.Proofs.Value.Rendering
import DispatchLang.Proofs.Eval.HeapValues
import DispatchLang.Proofs.Grammar.Copying
import DispatchLang.Proofs.Grammar.PatternReading
import DispatchLang.Proofs.Eval.Destructuring
import DispatchLang.Proofs.Number.Exact
import DispatchLang.Proofs.Scope.Writes
import DispatchLang.Proofs.Number.Floats
import DispatchLang.Proofs.Eval.FailedDeclarations
import DispatchLang.Proofs.Eval.Instantiation
import DispatchLang.Proofs.Eval.IntegerOrder
import DispatchLang.Proofs.Value.Matching
import DispatchLang.Proofs.Typing.PlainTypes
import DispatchLang.Proofs.Eval.Unambiguous
import DispatchLang.Proofs.Typing.SideTable
import DispatchLang.Proofs.Eval.ObjectMaps
import DispatchLang.Proofs.Typing.AcceptedConstructions
import DispatchLang.Proofs.Grammar.ReflowForms
import DispatchLang.Proofs.Text.Templates
import DispatchLang.Proofs.Grammar.Slices
import DispatchLang.Proofs.Typing.Joins
import DispatchLang.Proofs.Arena.Ground
import DispatchLang.Proofs.Number.Sizes
import DispatchLang.Proofs.Source.Positions
import DispatchLang.Proofs.Typing.StaticDispatch

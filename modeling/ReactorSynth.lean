import ReactorSynth.ClassEmitter
import ReactorSynth.Code
import ReactorSynth.Diagnostic
import ReactorSynth.Digest.Sha256
import ReactorSynth.Expansion
import ReactorSynth.Federate
import ReactorSynth.Forest
import ReactorSynth.GenError
import ReactorSynth.Generation
import ReactorSynth.InstanceTree
import ReactorSynth.InstanceTree.Arena
import ReactorSynth.InstanceTree.Elaborate
import ReactorSynth.Json
import ReactorSynth.Json.Decode
import ReactorSynth.Json.Print
import ReactorSynth.Json.Read
import ReactorSynth.Numeral
import ReactorSynth.Options
import ReactorSynth.Program
import ReactorSynth.Program.Decode
import ReactorSynth.Program.Encode
import ReactorSynth.Proofs.Arena
import ReactorSynth.Proofs.Ascents
import ReactorSynth.Proofs.BankMembers
import ReactorSynth.Proofs.BrokenReactions
import ReactorSynth.Proofs.Candidates
import ReactorSynth.Proofs.ClassSearch
import ReactorSynth.Proofs.ClassText
import ReactorSynth.Proofs.Decoding
import ReactorSynth.Proofs.Digests
import ReactorSynth.Proofs.Elaboration
import ReactorSynth.Proofs.Embedding
import ReactorSynth.Proofs.FederateIndependence
import ReactorSynth.Proofs.Federation
import ReactorSynth.Proofs.FirstFailure
import ReactorSynth.Proofs.FirstOfEach
import ReactorSynth.Proofs.FurtherReactors
import ReactorSynth.Proofs.HashEquations
import ReactorSynth.Proofs.Indentation
import ReactorSynth.Proofs.Interruption
import ReactorSynth.Proofs.JsonText
import ReactorSynth.Proofs.Layout
import ReactorSynth.Proofs.Numbering
import ReactorSynth.Proofs.Outcomes
import ReactorSynth.Proofs.ParameterChains
import ReactorSynth.Proofs.ProgramReaders
import ReactorSynth.Proofs.ProgramText
import ReactorSynth.Proofs.Pushes
import ReactorSynth.Proofs.ReorderedReactors
import ReactorSynth.Proofs.RevisedPrograms
import ReactorSynth.Proofs.Revisions
import ReactorSynth.Proofs.SharedWalks
import ReactorSynth.Proofs.SourceLines
import ReactorSynth.Proofs.Subtrees
import ReactorSynth.Proofs.TopLevel
import ReactorSynth.Proofs.Unfolding
import ReactorSynth.Proofs.Walk
import ReactorSynth.Proofs.Width
import ReactorSynth.PythonClass
import ReactorSynth.Reference
import ReactorSynth.Target
import ReactorSynth.Text.Blank
import ReactorSynth.Text.CaseTable
import ReactorSynth.Text.DecimalDigit
import ReactorSynth.Text.Dedent
import ReactorSynth.Text.Hexadecimal
import ReactorSynth.Text.Lines
import ReactorSynth.Text.Lowercase
import ReactorSynth.Time
import ReactorSynth.Typing
import ReactorSynth.Value
import ReactorSynth.Proofs.DeclaredWidths
import ReactorSynth.Proofs.Reindentation
import ReactorSynth.Proofs.FullNames
import ReactorSynth.Proofs.ReactionMethods
import ReactorSynth.Proofs.NumeralTexts
import ReactorSynth.Proofs.NumeralValues
import ReactorSynth.Proofs.LeadingPoints
import ReactorSynth.Proofs.RoundedZeros
import ReactorSynth.Proofs.LoneZeros
import ReactorSynth.Proofs.TimeTexts
import ReactorSynth.Proofs.BuilderRuns
import ReactorSynth.Proofs.CppInitializers
import ReactorSynth.Proofs.PortTexts

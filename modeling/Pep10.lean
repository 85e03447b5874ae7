import Pep10.Console
import Pep10.Main
import Pep10.Token.Stream
import Pep10.Proofs.Addresses
import Pep10.Proofs.MemoryImage
import Pep10.Proofs.RamPlacement
import Pep10.Proofs.SymbolValues
import Pep10.Proofs.Program.RomStart
import Pep10.Proofs.RomPlacement
import Pep10.Proofs.Program.Tracing
import Pep10.Proofs.Token.Argument
import Pep10.Proofs.Macro.Arguments
import Pep10.Proofs.CallBinding
import Pep10.Proofs.CallArguments
import Pep10.Proofs.Line.CallFree
import Pep10.Proofs.Program.CallFree
import Pep10.Proofs.Program.Inlining
import Pep10.Proofs.CallTermination
import Pep10.Proofs.LinkSuccess
import Pep10.Proofs.Inlining
import Pep10.Proofs.RoundTrip
import Pep10.Proofs.CodeLength
import Pep10.Proofs.CircularInclusion
import Pep10.Proofs.CallSites
import Pep10.Proofs.BurnLines
import Pep10.Proofs.SystemCalls
import Pep10.Proofs.UniformShift
import Pep10.Proofs.RunIsolation
import Pep10.Proofs.Program.CallRecords
import Pep10.Proofs.Line.Ending
import Pep10.Proofs.Program.AssemblyFailure
import Pep10.Proofs.Attribution
import Pep10.Proofs.TrailingText
import Pep10.Proofs.IncludeGraph
import Pep10.Proofs.StackTags
import Pep10.Proofs.ListingCode
import Pep10.Proofs.RepeatedLinking
import Pep10.Proofs.Digraph.ShortestPath
import Pep10.Proofs.DeclaredTypes
import Pep10.Proofs.CallSearch
import Pep10.Proofs.LineByLine
import Pep10.Proofs.Digraph.CyclicPart
import Pep10.Proofs.LosslessLexing
import Pep10.Proofs.QuotedConstants
import Pep10.Proofs.NumericConstants
import Pep10.Proofs.TokenConservation
import Pep10.Proofs.ObjectText
import Pep10.Proofs.SymbolHistory

import TapeC.Main
import TapeC.Program.Binary
import TapeC.Proofs.Nesting
import TapeC.Proofs.Store
import TapeC.Proofs.Structured
import TapeC.Proofs.Partners
import TapeC.Proofs.Simulation
import TapeC.Proofs.BigStep
import TapeC.Proofs.Refinement
import TapeC.Proofs.Rewriting
import TapeC.Proofs.PeepholeRules
import TapeC.Proofs.PeepholeSound
import TapeC.Proofs.CMeaning
import TapeC.Proofs.BinaryExact
import TapeC.Proofs.ReadBack
import TapeC.Proofs.UnitCode
import TapeC.Proofs.Covering
import TapeC.Proofs.Decompile
import TapeC.Proofs.Merging
import TapeC.Proofs.Reoptimize
import TapeC.Proofs.LoopShape
import TapeC.Proofs.History
import TapeC.Proofs.Indentation
import TapeC.Proofs.FailedCalls
import TapeC.Proofs.FileFrame
import TapeC.Proofs.NamedPaths
import TapeC.Proofs.ComparedInput
import TapeC.Proofs.JsonLexing
import TapeC.Proofs.JsonSpelling
import TapeC.Proofs.JsonReading
import TapeC.Proofs.JsonValues
import TapeC.Proofs.ProgramJson
import TapeC.Proofs.Balance
import TapeC.Proofs.LoopSpans
import TapeC.Proofs.RunSums
import TapeC.Proofs.IdiomRule
import TapeC.Proofs.NormalForm
import TapeC.Proofs.FuelThreshold
import TapeC.Proofs.LargerTape
import TapeC.Proofs.Settled
import TapeC.Proofs.Tallies
import TapeC.Proofs.InputRead
import TapeC.Proofs.LineWidth
import TapeC.Proofs.BraceLines
import TapeC.Proofs.SettingsOverlay
import TapeC.Proofs.Trimming
import TapeC.Proofs.PassLists
import TapeC.Proofs.SymbolCounts

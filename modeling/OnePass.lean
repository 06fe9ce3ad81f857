import OnePass.CType.Printer
import OnePass.Link.Rebase
import OnePass.Main
import OnePass.Token.NameTable
import OnePass.Proofs.AddressTruth
import OnePass.Proofs.ArchiveLoading
import OnePass.Proofs.Calls
import OnePass.Proofs.CommonBlock
import OnePass.Proofs.ConditionGrammar
import OnePass.Proofs.FrameSlots
import OnePass.Proofs.Includes
import OnePass.Proofs.LinkRepair
import OnePass.Proofs.LoadedLink
import OnePass.Proofs.ObjectExpansion
import OnePass.Proofs.ObjectRoundTrip
import OnePass.Proofs.OperandDecoding
import OnePass.Proofs.RecordLayout
import OnePass.Proofs.ScopeBlocks
import OnePass.Proofs.ScriptGrammar
import OnePass.Proofs.SectionStorage
import OnePass.Proofs.Stringizing
import OnePass.Proofs.SymbolLookup
import OnePass.Proofs.SymbolUnits
import OnePass.Proofs.TokenReplay
import OnePass.Proofs.Unevaluated
import OnePass.Proofs.WindowedText

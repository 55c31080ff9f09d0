import LengthDisasm.Cursor.Indexed
import LengthDisasm.Decode.ByTable
import LengthDisasm.Golden.Mismatch
import LengthDisasm.Golden.Run
import LengthDisasm.Instruction.Record
import LengthDisasm.Listing.Ring
import LengthDisasm.Main
import LengthDisasm.Symbols.Store
import LengthDisasm.Proofs.OpcodeTables
import LengthDisasm.Proofs.DecoderSteps
import LengthDisasm.Proofs.TableDecoding
import LengthDisasm.Proofs.Locality
import LengthDisasm.Proofs.Parse
import LengthDisasm.Proofs.Layout
import LengthDisasm.Proofs.SymbolOrder
import LengthDisasm.Proofs.ZeroRuns
import LengthDisasm.Proofs.Scan
import LengthDisasm.Proofs.Streaming
import LengthDisasm.Proofs.Boundary
import LengthDisasm.Proofs.Divergence
import LengthDisasm.Proofs.CutItems
import LengthDisasm.Proofs.BlockListing
import LengthDisasm.Proofs.Turns
import LengthDisasm.Proofs.RingLedger
import LengthDisasm.Proofs.RingOrder
import LengthDisasm.Proofs.RingBlocks
import LengthDisasm.Proofs.WalkItems
import LengthDisasm.Proofs.LongMode
import LengthDisasm.Proofs.WellFormed
import LengthDisasm.Proofs.PrefixExchange
import LengthDisasm.Proofs.Demand
import LengthDisasm.Proofs.WalkSteps
import LengthDisasm.Proofs.BlockSearch
import LengthDisasm.Proofs.Numerals
import LengthDisasm.Proofs.TextParts
import LengthDisasm.Proofs.GoldenLines
import LengthDisasm.Proofs.GoldenFiles
import LengthDisasm.Proofs.LostLabels
import LengthDisasm.Proofs.SettledWalk
import LengthDisasm.Proofs.ReportedPrefixes
import LengthDisasm.Proofs.Lock
import LengthDisasm.Proofs.LiteralWidths
import LengthDisasm.Proofs.RexBytes
import LengthDisasm.Proofs.OperandForms
import LengthDisasm.Proofs.Branches
import LengthDisasm.Proofs.CompactRecords
import LengthDisasm.Proofs.FlagNames
import LengthDisasm.Proofs.ReadableText
import LengthDisasm.Proofs.DecodedLines
import LengthDisasm.Proofs.Summaries
import LengthDisasm.Proofs.AddressRanges
import LengthDisasm.Proofs.ExclusivePrefixes
import LengthDisasm.Proofs.StreamProgress
import LengthDisasm.Proofs.SymbolHistory
import LengthDisasm.Proofs.Literals
import LengthDisasm.Proofs.GoldenImages
import LengthDisasm.Proofs.PlainLines
import LengthDisasm.Proofs.Spacing
import LengthDisasm.Proofs.GoldenRuns
import LengthDisasm.Bits.Spelling
import LengthDisasm.Proofs.BitFields
import LengthDisasm.Proofs.BitSpelling
import LengthDisasm.Proofs.SymbolSearches
import LengthDisasm.Proofs.CursorReads

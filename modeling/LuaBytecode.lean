import LuaBytecode.Chunk.Count
import LuaBytecode.Chunk.Grammar
import LuaBytecode.Chunk.Label
import LuaBytecode.Chunk.Size
import LuaBytecode.Diagnostic
import LuaBytecode.Instruction.Reference
import LuaBytecode.Main
import LuaBytecode.Proofs.Reading.Prefix
import LuaBytecode.Proofs.Reading.Language
import LuaBytecode.Proofs.Chunk.Language
import LuaBytecode.Proofs.Chunk.Prefix
import LuaBytecode.Proofs.Prototype.Walk
import LuaBytecode.Proofs.Chunk.Canonical
import LuaBytecode.Proofs.Chunk.RoundTrip
import LuaBytecode.Proofs.Chunk.Truncation
import LuaBytecode.Proofs.Chunk.Depth
import LuaBytecode.Proofs.Instruction.Packing
import LuaBytecode.Proofs.Instruction.Layout
import LuaBytecode.Proofs.Prototype.Line
import LuaBytecode.Proofs.Chunk.Layout
import LuaBytecode.Proofs.Reading.Passing
import LuaBytecode.Proofs.Reading.Shift
import LuaBytecode.Proofs.Chunk.Cost
import LuaBytecode.Proofs.Chunk.Inheritance
import LuaBytecode.Proofs.Chunk.Diagnosis
import LuaBytecode.Proofs.Listing.Lines
import LuaBytecode.Proofs.Varint.Exact
import LuaBytecode.Proofs.Varint.Forms
import LuaBytecode.Command.Account
import LuaBytecode.Command.Verdict
import LuaBytecode.Proofs.Listing.Blocks
import LuaBytecode.Proofs.Command.Checking
import LuaBytecode.Proofs.Command.Agreement
import LuaBytecode.Proofs.Front
import LuaBytecode.Proofs.Prototype.LineSum
import LuaBytecode.Proofs.Prototype.Ways
import LuaBytecode.Proofs.Listing.Composition
import LuaBytecode.Proofs.Instruction.Display
import LuaBytecode.Proofs.Text.Literal
import LuaBytecode.Proofs.Text.Pieces
import LuaBytecode.Proofs.Text.Quoted
import LuaBytecode.Number.General
import LuaBytecode.Session
import LuaBytecode.Proofs.Reading.Session
import LuaBytecode.Proofs.Listing.Notes
import LuaBytecode.Proofs.Number.Rounding
import LuaBytecode.Proofs.Number.General
import LuaBytecode.Proofs.Constant.Float
import LuaBytecode.Prologue.Values
import LuaBytecode.Proofs.Prototype.LocalName
import LuaBytecode.Proofs.Chunk.Stream
import LuaBytecode.Proofs.Prologue
import LuaBytecode.Proofs.Listing.Splitting
import LuaBytecode.Command.Choice
import LuaBytecode.Proofs.Text.Strict
import LuaBytecode.Proofs.Command.Site
import LuaBytecode.Proofs.Command.Settings

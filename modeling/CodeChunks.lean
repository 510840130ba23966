import CodeChunks.Chunk.Basic
import CodeChunks.Chunk.Pipeline
import CodeChunks.Chunk.Split
import CodeChunks.CommandLine.Arguments
import CodeChunks.CommandLine.Command
import CodeChunks.Files.Binary
import CodeChunks.Files.Folder
import CodeChunks.Files.Path
import CodeChunks.Grammar.Flatten
import CodeChunks.Grammar.Pack
import CodeChunks.Indexing.Process
import CodeChunks.Json.Entries
import CodeChunks.Json.Number
import CodeChunks.Json.Read
import CodeChunks.Json.Token
import CodeChunks.Json.Value
import CodeChunks.Json.Write
import CodeChunks.Language.Builtin
import CodeChunks.Language.Config
import CodeChunks.Language.Registry
import CodeChunks.Lists
import CodeChunks.Main
import CodeChunks.Number.Arithmetic
import CodeChunks.Number.Binary64
import CodeChunks.Number.Numeral
import CodeChunks.Parser.Session
import CodeChunks.Proofs.Assoc
import CodeChunks.Proofs.Chunk.Anchoring
import CodeChunks.Proofs.Chunk.Answers
import CodeChunks.Proofs.Chunk.Coverage
import CodeChunks.Proofs.Chunk.Cuts
import CodeChunks.Proofs.Chunk.Enclosure
import CodeChunks.Proofs.Chunk.Isolation
import CodeChunks.Proofs.Chunk.Origins
import CodeChunks.Proofs.Chunk.Paging
import CodeChunks.Proofs.Chunk.Pipeline
import CodeChunks.Proofs.Chunk.Provenance
import CodeChunks.Proofs.Chunk.Recursion
import CodeChunks.Proofs.Chunk.Regrouping
import CodeChunks.Proofs.Chunk.Sizes
import CodeChunks.Proofs.Chunk.Substitution
import CodeChunks.Proofs.Chunk.Unwinding
import CodeChunks.Proofs.Chunk.WholeLines
import CodeChunks.Proofs.Files.Samples
import CodeChunks.Proofs.Grammar.Flattening
import CodeChunks.Proofs.Grammar.Places
import CodeChunks.Proofs.Indexing.Accounts
import CodeChunks.Proofs.Indexing.Entries
import CodeChunks.Proofs.Indexing.Stored
import CodeChunks.Proofs.Json.Documents
import CodeChunks.Proofs.Json.Lexing
import CodeChunks.Proofs.Json.Numbers
import CodeChunks.Proofs.Json.Strings
import CodeChunks.Proofs.Language.Tables
import CodeChunks.Proofs.Number.Logarithms
import CodeChunks.Proofs.Number.Nearest
import CodeChunks.Proofs.Number.Order
import CodeChunks.Proofs.Number.Packing
import CodeChunks.Proofs.Number.Rounding
import CodeChunks.Proofs.Parser.Decisions
import CodeChunks.Proofs.Parser.Outlines
import CodeChunks.Proofs.Parser.Parses
import CodeChunks.Proofs.Parser.Runs
import CodeChunks.Proofs.Parser.Slots
import CodeChunks.Proofs.Steps
import CodeChunks.Proofs.Store.Breakdowns
import CodeChunks.Proofs.Store.History
import CodeChunks.Proofs.Store.Holdings
import CodeChunks.Proofs.Store.Integrity
import CodeChunks.Proofs.Store.Journal
import CodeChunks.Proofs.Store.Ledgers
import CodeChunks.Proofs.Store.Lookups
import CodeChunks.Proofs.Store.Persisting
import CodeChunks.Proofs.Store.Stages
import CodeChunks.Proofs.Store.Survivors
import CodeChunks.Proofs.Store.Terms
import CodeChunks.Proofs.Store.Tokens
import CodeChunks.Proofs.Store.Undoing
import CodeChunks.Proofs.Store.Upgrades
import CodeChunks.Proofs.Store.Upkeep
import CodeChunks.Proofs.Text.Alignment
import CodeChunks.Proofs.Text.Beginnings
import CodeChunks.Proofs.Text.Bytes
import CodeChunks.Proofs.Text.FencePairs
import CodeChunks.Proofs.Text.Fences
import CodeChunks.Proofs.Text.Lines
import CodeChunks.Proofs.Text.Lowering
import CodeChunks.Proofs.Text.Parts
import CodeChunks.Proofs.Text.Slices
import CodeChunks.Proofs.Text.Tiles
import CodeChunks.Proofs.Text.Utf8
import CodeChunks.Proofs.Tree.Anchors
import CodeChunks.Proofs.Tree.Forest
import CodeChunks.Proofs.Tree.Points
import CodeChunks.Proofs.Tree.Walks
import CodeChunks.Proofs.Vector.Norms
import CodeChunks.Proofs.Vector.Ranks
import CodeChunks.Proofs.Vector.Searches
import CodeChunks.Proofs.Vector.Shelf
import CodeChunks.Proofs.Vector.Writes
import CodeChunks.Store.Adapter
import CodeChunks.Store.Address
import CodeChunks.Store.Connection
import CodeChunks.Store.Digest
import CodeChunks.Store.Lexicon
import CodeChunks.Store.Migration
import CodeChunks.Store.Schema
import CodeChunks.Text.Basic
import CodeChunks.Text.CaseTable
import CodeChunks.Text.Cut
import CodeChunks.Text.LineIndex
import CodeChunks.Text.Lower
import CodeChunks.Text.Numeral
import CodeChunks.Text.PrintTable
import CodeChunks.Text.Printed
import CodeChunks.Text.Utf8
import CodeChunks.Text.WordTable
import CodeChunks.Tree.Basic
import CodeChunks.Tree.Draft
import CodeChunks.Vector.Search
import CodeChunks.Vector.Store


import CircuitCache.Backing
import CircuitCache.Binary64
import CircuitCache.Binary64.Decimal
import CircuitCache.Binary64.Shortest
import CircuitCache.CacheError
import CircuitCache.Chunk
import CircuitCache.Chunk.Json
import CircuitCache.Chunk.Patch
import CircuitCache.CircuitError
import CircuitCache.CommandLine
import CircuitCache.CommandLine.Arguments
import CircuitCache.Config
import CircuitCache.Config.Document
import CircuitCache.Config.Environment
import CircuitCache.Failure
import CircuitCache.FileTree
import CircuitCache.Instant
import CircuitCache.Instant.Reader
import CircuitCache.Job
import CircuitCache.Json
import CircuitCache.Json.Number
import CircuitCache.Json.Printer
import CircuitCache.Json.Reader
import CircuitCache.Key
import CircuitCache.Main
import CircuitCache.Mapping
import CircuitCache.OsError
import CircuitCache.Partition
import CircuitCache.Program
import CircuitCache.Program.Builder
import CircuitCache.Proofs.Addresses
import CircuitCache.Proofs.Backed
import CircuitCache.Proofs.Caching
import CircuitCache.Proofs.Capacity
import CircuitCache.Proofs.Checked
import CircuitCache.Proofs.Commuting
import CircuitCache.Proofs.Contents
import CircuitCache.Proofs.Coverage
import CircuitCache.Proofs.Damage
import CircuitCache.Proofs.Declarations
import CircuitCache.Proofs.Diagnosis
import CircuitCache.Proofs.Digits
import CircuitCache.Proofs.Edits
import CircuitCache.Proofs.Failures
import CircuitCache.Proofs.Faults
import CircuitCache.Proofs.Hits
import CircuitCache.Proofs.Integrity
import CircuitCache.Proofs.JsonText
import CircuitCache.Proofs.KeyBytes
import CircuitCache.Proofs.Lasting
import CircuitCache.Proofs.Lending
import CircuitCache.Proofs.Listings
import CircuitCache.Proofs.Matching
import CircuitCache.Proofs.Modes
import CircuitCache.Proofs.Nesting
import CircuitCache.Proofs.Numerals
import CircuitCache.Proofs.Operands
import CircuitCache.Proofs.Outlines
import CircuitCache.Proofs.Outside
import CircuitCache.Proofs.Overwriting
import CircuitCache.Proofs.Pairing
import CircuitCache.Proofs.Patching
import CircuitCache.Proofs.Pieces
import CircuitCache.Proofs.Places
import CircuitCache.Proofs.Products
import CircuitCache.Proofs.Queues
import CircuitCache.Proofs.Restarts
import CircuitCache.Proofs.Rounding
import CircuitCache.Proofs.Settled
import CircuitCache.Proofs.SignatureText
import CircuitCache.Proofs.Slots
import CircuitCache.Proofs.Sound
import CircuitCache.Proofs.Steps
import CircuitCache.Proofs.Stored
import CircuitCache.Proofs.Suggestions
import CircuitCache.Proofs.Tally
import CircuitCache.Proofs.Timestamps
import CircuitCache.Proofs.Transparency
import CircuitCache.Routine
import CircuitCache.Sha1
import CircuitCache.Signature
import CircuitCache.Snapshot
import CircuitCache.Snapshot.Listing
import CircuitCache.Stats
import CircuitCache.Store
import CircuitCache.Store.Describe
import CircuitCache.Store.Run
import CircuitCache.Tag
import CircuitCache.Text.Blank
import CircuitCache.Text.Column
import CircuitCache.Text.EditDistance
import CircuitCache.Text.Hex
import CircuitCache.Text.Hidden
import CircuitCache.Text.Natural
import CircuitCache.Text.Quoted
import CircuitCache.Text.Utf8
import CircuitCache.Yaml.BlockScalar
import CircuitCache.Yaml.Cursor
import CircuitCache.Yaml.Document
import CircuitCache.Yaml.Node
import CircuitCache.Yaml.Scalar
import CircuitCache.Yaml.Tag
import CircuitCache.Yaml.Token
import CircuitCache.Yaml.Token.Lexer

import Abacus.Bytecode.Artifact
import Abacus.Bytecode.Chunk
import Abacus.Bytecode.CodeBytes
import Abacus.Bytecode.Listing
import Abacus.Bytecode.Opcode
import Abacus.Bytecode.Value
import Abacus.Cause
import Abacus.Cbor.Item
import Abacus.Cbor.Reader
import Abacus.Cbor.Writer
import Abacus.CommandLine.Flag
import Abacus.CommandLine.Integer
import Abacus.CommandLine.Invocation
import Abacus.Compiler.Compile
import Abacus.Compiler.Error
import Abacus.Compiler.Parser
import Abacus.Config
import Abacus.Disk
import Abacus.Document.Analysis
import Abacus.Document.Position
import Abacus.FileSystem
import Abacus.Input
import Abacus.Interpreter.Command
import Abacus.Interpreter.Session
import Abacus.Json.Reader
import Abacus.Json.Shape
import Abacus.Json.Value
import Abacus.Json.Writer
import Abacus.LanguageServer.ClientCapabilities
import Abacus.LanguageServer.Frame
import Abacus.LanguageServer.Hover
import Abacus.LanguageServer.Incoming
import Abacus.LanguageServer.Message
import Abacus.LanguageServer.Request
import Abacus.LanguageServer.Server
import Abacus.LanguageServer.Worker
import Abacus.Log
import Abacus.Machine.Basic
import Abacus.Machine.Error
import Abacus.Machine.Run
import Abacus.Main
import Abacus.Number.Binary64
import Abacus.Number.Decimal
import Abacus.Number.Printed
import Abacus.Number.Radix
import Abacus.Number.SmallFloat
import Abacus.Number.Word
import Abacus.Path
import Abacus.Proofs.ArtifactRoundTrip
import Abacus.Proofs.CborRoundTrip
import Abacus.Proofs.CodeBytes
import Abacus.Proofs.Compilation
import Abacus.Proofs.Descent
import Abacus.Proofs.Emission
import Abacus.Proofs.Execution
import Abacus.Proofs.Grammar
import Abacus.Proofs.Interpretation
import Abacus.Proofs.Layout
import Abacus.Proofs.LexicalGrammar
import Abacus.Proofs.Narrowing
import Abacus.Proofs.ParserDescent
import Abacus.Proofs.ParserRuns
import Abacus.Proofs.TokenStream
import Abacus.Proofs.Validity
import Abacus.Sink
import Abacus.Text.Base64
import Abacus.Text.Blank
import Abacus.Text.Bytes
import Abacus.Text.Caseless
import Abacus.Text.Printable
import Abacus.Text.Quoted
import Abacus.Text.Utf8
import Abacus.Token.Basic
import Abacus.Token.Kind
import Abacus.Token.Scanner
import Abacus.Toml.Document
import Abacus.Toml.Quoted
import Abacus.Toml.Scalar
import Abacus.Toml.Table
import Abacus.Tool.ArtifactPath
import Abacus.Tool.Consulted
import Abacus.Tool.Run
import Abacus.Tool.Source
import Abacus.Yaml.Scalar
import Abacus.Yaml.TokenList
import Abacus.Proofs.TokenSpans
import Abacus.Proofs.Runs
import Abacus.Proofs.History
import Abacus.Proofs.PathNames
import Abacus.Proofs.WrittenFiles
import Abacus.Proofs.CompiledArtifacts
import Abacus.Proofs.ArtifactAgreement
import Abacus.Proofs.InputLines
import Abacus.Proofs.Transcripts
import Abacus.Proofs.Positions
import Abacus.Proofs.Blame
import Abacus.Proofs.Diagnostics
import Abacus.Proofs.CborLimits
import Abacus.Proofs.DecodedArtifacts
import Abacus.Proofs.ExitStatuses
import Abacus.Proofs.WorkerJobs
import Abacus.Proofs.Delivery
import Abacus.Proofs.WorkerQueue
import Abacus.Proofs.OpenDocuments
import Abacus.Proofs.Desk
import Abacus.Proofs.CodeUnits
import Abacus.Proofs.FirstErrors
import Abacus.Proofs.BuildEffects
import Abacus.Proofs.HoverRanges
import Abacus.Proofs.LineBreaks
import Abacus.Proofs.PlacelessParsing
import Abacus.Proofs.Spacing
import Abacus.Proofs.Listings
import Abacus.Proofs.Rounding
import Abacus.Proofs.Literals
import Abacus.Proofs.PrintedDecimals
import Abacus.Proofs.ReadBack
import Abacus.Proofs.Completions
import Abacus.Proofs.Places
import Abacus.Proofs.Settings
import Abacus.Proofs.ConfigSearch
import Abacus.Proofs.ChunkCalls
import Abacus.Proofs.ParserCalls

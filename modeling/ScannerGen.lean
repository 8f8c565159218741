import ScannerGen.Tables.Build
import ScannerGen.Tables.Dump
import ScannerGen.Token.Settle
import ScannerGen.Rules.Text
import ScannerGen.Rules.Document
import ScannerGen.Scan
import ScannerGen.Emit
import ScannerGen.Files.Store
import ScannerGen.Hooks.TokenIdFile
import ScannerGen.Generate
import ScannerGen.CommandLine.Generator
import ScannerGen.CommandLine.TableTool
import ScannerGen.Main
import ScannerGen.Proofs.Scan.Lexemes
import ScannerGen.Proofs.Pattern.Inlining
import ScannerGen.Proofs.Automaton.Order
import ScannerGen.Proofs.Tables.Warnings
import ScannerGen.Proofs.Json.Checked
import ScannerGen.Proofs.Json.Written
import ScannerGen.Proofs.Tables.Dump
import ScannerGen.Proofs.Rules.Document
import ScannerGen.Proofs.Rules.Origins
import ScannerGen.Proofs.Rules.Spelling
import ScannerGen.Proofs.Generate
import ScannerGen.Proofs.Emit.TokenCodes
import ScannerGen.Proofs.Emit.Arrays
import ScannerGen.Proofs.Tables.Minimal
import ScannerGen.Proofs.Scan.CatchAll
import ScannerGen.Proofs.Scan.Checked
import ScannerGen.Proofs.CommandLine.Outputs
import ScannerGen.Proofs.Tables.Invariant
import ScannerGen.Proofs.Pattern.Rendering
import ScannerGen.Proofs.Pattern.Circles
import ScannerGen.Proofs.Tables.Predicates
import ScannerGen.Proofs.Automaton.StateCount
import ScannerGen.Proofs.Automaton.SizeLimit
import ScannerGen.Proofs.Token.Counter
import ScannerGen.Proofs.Rules.Lines
import ScannerGen.Proofs.Options.Invariant
import ScannerGen.Proofs.Options.History
import ScannerGen.Proofs.Rules.OptionNames
import ScannerGen.Proofs.Options.FieldTypes
import ScannerGen.Proofs.Emit.Interface
import ScannerGen.Proofs.Emit.FieldMacros
import ScannerGen.Proofs.Scan.Restart
import ScannerGen.Proofs.Hooks.Sessions
import ScannerGen.Proofs.Emit.Write
import ScannerGen.Proofs.Tables.Shadows
import ScannerGen.Proofs.Scan.Report
import ScannerGen.Proofs.Tables.Columns
import ScannerGen.Proofs.Hooks.Contents
import ScannerGen.Proofs.Emit.Banner

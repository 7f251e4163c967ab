import OpTree.Text.Blank
import OpTree.Text.Quoted
import OpTree.Text.Size
import OpTree.Text.Utf8
import OpTree.Number.Layout
import OpTree.IR.Build
import OpTree.IR.Path
import OpTree.IR.Save
import OpTree.IR.Load
import OpTree.Print.Flags
import OpTree.Print.Paint
import OpTree.Print.Indent
import OpTree.Print.Names
import OpTree.Print.Users
import OpTree.Print.AttributeText
import OpTree.Print.Lines
import OpTree.Print.Dump
import OpTree.Analysis.Id
import OpTree.Analysis.Counts
import OpTree.Analysis.Symbols
import OpTree.Analysis.Fingerprint
import OpTree.World.Basic
import OpTree.Pass.Manager
import OpTree.Pipeline.Registry
import OpTree.Main
import OpTree.Proofs.Tree
import OpTree.Proofs.Paths
import OpTree.Proofs.Turns
import OpTree.Proofs.CacheHistory
import OpTree.Proofs.Content
import OpTree.Proofs.NeverStale
import OpTree.Proofs.Renaming
import OpTree.Proofs.PipelineText
import OpTree.Proofs.PipelineGrammar
import OpTree.Proofs.Joining
import OpTree.Proofs.Cuts
import OpTree.Proofs.DumpSettings
import OpTree.Proofs.Numerals
import OpTree.Proofs.JsonText
import OpTree.Proofs.Reading
import OpTree.Proofs.Parts
import OpTree.Proofs.QuickReading
import OpTree.Proofs.SaveLoad
import OpTree.Proofs.Loaded
import OpTree.Proofs.Resave
import OpTree.Proofs.Legible
import OpTree.Proofs.TypeText
import OpTree.Proofs.AttributeText
import OpTree.Proofs.Clean
import OpTree.Proofs.LineText
import OpTree.Proofs.ProgramText
import OpTree.Proofs.Controls
import OpTree.Proofs.Literals
import OpTree.Proofs.LineEnds
import OpTree.Proofs.Stages
import OpTree.Proofs.Streams
import OpTree.Proofs.DumpFiles
import OpTree.Proofs.DumpRequests
import OpTree.Proofs.Unprinted
import OpTree.Proofs.Locations
import OpTree.Proofs.Fingerprints
import OpTree.Proofs.Numbering
import OpTree.Proofs.Populating
import OpTree.Proofs.Registering
import OpTree.Proofs.UserLists
import OpTree.Proofs.LineFrames
import OpTree.Proofs.BlockCounts
import OpTree.Proofs.Census
import OpTree.Proofs.Definers
import OpTree.Proofs.Hidden
import OpTree.Proofs.Layout
import OpTree.Proofs.Elision
import OpTree.Proofs.Colours
import OpTree.Proofs.Printing
import OpTree.Proofs.Strokes
import OpTree.Proofs.Equality
import OpTree.Proofs.Editing

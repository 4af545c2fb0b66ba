import ClassSchema.Catalog
import ClassSchema.Command.Help
import ClassSchema.Command.Invocation
import ClassSchema.Command.Run
import ClassSchema.Command.Words
import ClassSchema.Files.Path
import ClassSchema.Files.Tree
import ClassSchema.Java.Declaration
import ClassSchema.Java.Grammar
import ClassSchema.Java.Lexer
import ClassSchema.Java.Outline
import ClassSchema.Java.Reading
import ClassSchema.Java.Recognizer
import ClassSchema.Java.Registry
import ClassSchema.Java.Resolution
import ClassSchema.Java.Source
import ClassSchema.Java.Token
import ClassSchema.Json.Basic
import ClassSchema.Json.Described
import ClassSchema.Json.Parser
import ClassSchema.Json.Printer
import ClassSchema.Main
import ClassSchema.Model.Basic
import ClassSchema.Model.Document
import ClassSchema.Model.Entries
import ClassSchema.Model.Kind
import ClassSchema.Number.Binary64
import ClassSchema.Number.Shortest
import ClassSchema.OrderedMap
import ClassSchema.Proofs.Java.Alike
import ClassSchema.Proofs.Java.BareItems
import ClassSchema.Proofs.Java.Brackets
import ClassSchema.Proofs.Java.Folding
import ClassSchema.Proofs.Java.Headers
import ClassSchema.Proofs.Java.Lexing
import ClassSchema.Proofs.Java.MemberKinds
import ClassSchema.Proofs.Java.MemberRules
import ClassSchema.Proofs.Java.Members
import ClassSchema.Proofs.Java.Recognition
import ClassSchema.Proofs.Java.Replacement
import ClassSchema.Proofs.Java.SkippedCode
import ClassSchema.Proofs.Java.Spelling
import ClassSchema.Proofs.Schema.Expansion
import ClassSchema.Proofs.Schema.Reachability
import ClassSchema.Proofs.Schema.Recursive
import ClassSchema.Publish.Conversion
import ClassSchema.Publish.Documents
import ClassSchema.Publish.Failure
import ClassSchema.Publish.Workspace
import ClassSchema.Schema.Basic
import ClassSchema.Schema.Comment
import ClassSchema.Schema.Compile
import ClassSchema.Text.Blank
import ClassSchema.Text.CharSet
import ClassSchema.Text.CodePoint
import ClassSchema.Text.Decoding
import ClassSchema.Text.Dotted
import ClassSchema.Text.Encoding
import ClassSchema.Text.Hex
import ClassSchema.Text.Place
import ClassSchema.Text.Printable
import ClassSchema.Text.Quoted
import ClassSchema.Text.Separated
import ClassSchema.Text.Word
import ClassSchema.Proofs.Java.Rendering
import ClassSchema.Proofs.Java.RenderedRules
import ClassSchema.Proofs.Java.RoundTrip
import ClassSchema.Proofs.Java.Lexicon
import ClassSchema.Proofs.Java.Viability
import ClassSchema.Proofs.Schema.Mentions
import ClassSchema.Proofs.Java.RenumberedRegistry
import ClassSchema.Proofs.Java.SourceOrder
import ClassSchema.Proofs.Schema.Renumbering
import ClassSchema.Proofs.Java.Ambiguity
import ClassSchema.Proofs.Model.Encoding
import ClassSchema.Proofs.Schema.Work
import ClassSchema.Proofs.Publish.DistinctFiles
import ClassSchema.Proofs.Java.Lookup
import ClassSchema.Proofs.Model.Reading
import ClassSchema.Proofs.Publish.Sources
import ClassSchema.Proofs.Schema.Forms
import ClassSchema.Proofs.Java.Layout
import ClassSchema.Proofs.Java.SplitDeclarators
import ClassSchema.Proofs.Java.Undeclared
import ClassSchema.Proofs.Java.DocComments
import ClassSchema.Proofs.Schema.CommentText
import ClassSchema.Proofs.Java.WholeWords
import ClassSchema.Proofs.Java.OpaqueLiterals
import ClassSchema.Proofs.Model.Refusals
import ClassSchema.Proofs.Model.ReferenceTargets
import ClassSchema.Proofs.Java.DottedNames
import ClassSchema.Proofs.Java.TypeParameters
import ClassSchema.Proofs.Java.SingleImports
import ClassSchema.Proofs.Schema.UnreachableKeys
import ClassSchema.Proofs.Java.SkippedStatics
import ClassSchema.Proofs.Java.LexemeEnds
import ClassSchema.Proofs.Java.InsertedWhite
import ClassSchema.Proofs.Java.WhiteSpace
import ClassSchema.Proofs.Java.FirstComment
import ClassSchema.Proofs.Java.JoinedMembers
import ClassSchema.Proofs.Schema.Kinds
import ClassSchema.Proofs.Text.Utf8
import ClassSchema.Proofs.Json.QuotedText
import ClassSchema.Proofs.Json.Values
import ClassSchema.Proofs.Json.Numbers
import ClassSchema.Proofs.Json.Indented
import ClassSchema.Proofs.Json.ReadValues
import ClassSchema.Proofs.Schema.StoredValues
import ClassSchema.Proofs.Publish.ReadBack
import ClassSchema.Proofs.Publish.Frames
import ClassSchema.Proofs.Publish.Leavings
import ClassSchema.Proofs.Command.Announced
import ClassSchema.Proofs.Command.ModelLines
import ClassSchema.Proofs.Command.StandardInput
import ClassSchema.Proofs.Command.CleanUp
import ClassSchema.Proofs.Java.ClosedComments

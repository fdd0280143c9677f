import ClassLang.Source.Ty
import ClassLang.Source.Signature
import ClassLang.Source.Operator
import ClassLang.Source.Expr
import ClassLang.Source.Stmt
import ClassLang.Source.Program
import ClassLang.Source.Builtin
import ClassLang.Diagnostic.Basic
import ClassLang.Diagnostic.Log
import ClassLang.Diagnostic.Pass
import ClassLang.Scope
import ClassLang.Hierarchy.Basic
import ClassLang.Hierarchy.Compatible
import ClassLang.Hierarchy.Build
import ClassLang.Hierarchy.Members
import ClassLang.Hierarchy.Entry
import ClassLang.Typing.Fault
import ClassLang.Typing.Site
import ClassLang.Typing.Expr
import ClassLang.Typing.Stmt
import ClassLang.Typing.Program
import ClassLang.Analysis
import ClassLang.Code.Decimal
import ClassLang.Code.Token
import ClassLang.Code.Scan
import ClassLang.Code.Operand
import ClassLang.Code.BlockId
import ClassLang.Code.Operation
import ClassLang.Code.Instruction
import ClassLang.Code.Printer
import ClassLang.Code.Reader
import ClassLang.Graph.Block
import ClassLang.Graph.Error
import ClassLang.Graph.Basic
import ClassLang.Graph.WellFormed
import ClassLang.Graph.Order
import ClassLang.Graph.Stream
import ClassLang.Proofs.Graph.Traversal
import ClassLang.Proofs.Graph.Coherence
import ClassLang.Proofs.Graph.Representation
import ClassLang.Proofs.Graph.Emission
import ClassLang.Proofs.Code.Lexing
import ClassLang.Proofs.Code.Scanning
import ClassLang.Proofs.Code.RoundTrip
import ClassLang.Proofs.Diagnostic.Reporting
import ClassLang.Proofs.Hierarchy.Links
import ClassLang.Proofs.Hierarchy.Building
import ClassLang.Proofs.Typing.Rules
import ClassLang.Proofs.Typing.Sites
import ClassLang.Proofs.Typing.Expressions
import ClassLang.Proofs.Typing.Statements
import ClassLang.Proofs.Hierarchy.Collecting
import ClassLang.Proofs.Typing.Programs
import ClassLang.Proofs.Graph.Preorder
import ClassLang.Proofs.Hierarchy.Rooted
import ClassLang.Proofs.Diagnostic.Yielding
import ClassLang.Proofs.Hierarchy.Reordering
import ClassLang.Proofs.Hierarchy.Tables
import ClassLang.Proofs.DeclarationOrder
import ClassLang.Proofs.Diagnostic.Pairing
import ClassLang.Proofs.Source.Annotation
import ClassLang.Proofs.Typing.Tracing
import ClassLang.Proofs.ErrorLimit
import ClassLang.Proofs.Overriding
import ClassLang.Proofs.Typing.Validity
import ClassLang.Proofs.Typing.Annotating
import ClassLang.Proofs.AnnotatedTypes
import ClassLang.Proofs.Hierarchy.Compatibility
import ClassLang.Proofs.Hierarchy.Lookup
import ClassLang.Proofs.Source.Filling
import ClassLang.Proofs.Rechecking
import ClassLang.Proofs.Code.Spelling
import ClassLang.Proofs.Code.Grammar
import ClassLang.Proofs.Code.Legality
import ClassLang.Proofs.Sessions
import ClassLang.Proofs.Typing.Blurring
import ClassLang.Proofs.Typing.Sentinel
import ClassLang.Proofs.Diagnostic.Confining
import ClassLang.Proofs.Typing.Positions
import ClassLang.Proofs.Hierarchy.Positions
import ClassLang.Proofs.Positions
import ClassLang.Proofs.Graph.Structure
import ClassLang.Proofs.Graph.Refusals
import ClassLang.Proofs.Hierarchy.Descendants
import ClassLang.Proofs.Typing.Frames
import ClassLang.Proofs.Typing.Breaks
import ClassLang.Proofs.Diagnostic.Ordering
import ClassLang.Proofs.Code.Classification
import ClassLang.Proofs.Graph.Cancelling
import ClassLang.Proofs.Typing.Completion
import ClassLang.Proofs.Rejections
import ClassLang.Proofs.Code.LongestMatch
import ClassLang.Proofs.Code.Tiling
import ClassLang.Proofs.Scoping

import ExprTyping.Table
import ExprTyping.Ty.Basic
import ExprTyping.Ty.Text
import ExprTyping.Ty.Generality
import ExprTyping.Ty.WellKnown
import ExprTyping.Bindings.Basic
import ExprTyping.Bindings.Assign
import ExprTyping.Text.Utf8
import ExprTyping.Text.Octal
import ExprTyping.Text.Dotted
import ExprTyping.Text.Blank
import ExprTyping.Text.Visible
import ExprTyping.Text.Quoted
import ExprTyping.Decimal.Double
import ExprTyping.Decimal.Shortest
import ExprTyping.Decimal.Layout
import ExprTyping.Value
import ExprTyping.Decl
import ExprTyping.Scopes
import ExprTyping.Container
import ExprTyping.Provider.Basic
import ExprTyping.Provider.Catalog
import ExprTyping.Source
import ExprTyping.Diagnostic
import ExprTyping.Expr.Basic
import ExprTyping.Expr.Builder
import ExprTyping.Expr.Draft
import ExprTyping.Expr.Text
import ExprTyping.Env.Basic
import ExprTyping.Env.Add
import ExprTyping.Env.Session
import ExprTyping.Standard
import ExprTyping.Checker.Reference
import ExprTyping.Checker.Resolution
import ExprTyping.Checker.State
import ExprTyping.Checker.Rules
import ExprTyping.Checker.Text
import ExprTyping.Descriptor.Numbers
import ExprTyping.Descriptor.Setting
import ExprTyping.Descriptor.File
import ExprTyping.Descriptor.Names
import ExprTyping.Descriptor.Literal
import ExprTyping.Descriptor.Sound
import ExprTyping.Descriptor.Pool.Basic
import ExprTyping.Descriptor.Pool.Options
import ExprTyping.Descriptor.Pool.Load
import ExprTyping.Descriptor.WellKnownFiles
import ExprTyping.Descriptor.Wire
import ExprTyping.Descriptor.Schema
import ExprTyping.Descriptor.Decode
import ExprTyping.Proofs.Acyclic
import ExprTyping.Proofs.Substitution
import ExprTyping.Proofs.SubstitutedTypes
import ExprTyping.Proofs.Shapes
import ExprTyping.Proofs.Rewriting
import ExprTyping.Proofs.Depth
import ExprTyping.Proofs.Termination
import ExprTyping.Proofs.Unifier
import ExprTyping.Proofs.Run
import ExprTyping.Proofs.Growth
import ExprTyping.Proofs.TypeInvariant
import ExprTyping.Proofs.Preservation
import ExprTyping.Proofs.CheckedTypes
import ExprTyping.Proofs.AnnotatedOnce
import ExprTyping.Proofs.RuleInduction
import ExprTyping.Proofs.CheckedTree
import ExprTyping.Proofs.Idempotence
import ExprTyping.Proofs.Parameters
import ExprTyping.Proofs.Renaming
import ExprTyping.Proofs.Instantiation
import ExprTyping.Proofs.ContextFree
import ExprTyping.Proofs.RunParts
import ExprTyping.Proofs.ThreadedScopes
import ExprTyping.Proofs.LexicalScope
import ExprTyping.Proofs.FreshVariables
import ExprTyping.Proofs.Mirroring
import ExprTyping.Proofs.DisabledOverloads
import ExprTyping.Proofs.NeutralAssignment
import ExprTyping.Proofs.Wildcards
import ExprTyping.Proofs.Confinement
import ExprTyping.Proofs.LoopBodies
import ExprTyping.Proofs.StandardEnv
import ExprTyping.Proofs.MacroSteps
import ExprTyping.Proofs.ListMacros
import ExprTyping.Proofs.BuiltEnvironments
import ExprTyping.Proofs.AddedDeclarations
import ExprTyping.Proofs.CompatibleDeclarations
import ExprTyping.Proofs.LiteralPolicies
import ExprTyping.Proofs.NormalTypes
import ExprTyping.Proofs.DistinctIds
import ExprTyping.Proofs.Fitting
import ExprTyping.Proofs.Generality
import ExprTyping.Proofs.AssignmentRules
import ExprTyping.Proofs.JustifiedAssignment
import ExprTyping.Proofs.CheckedNodes
import ExprTyping.Proofs.LiteralElements
import ExprTyping.Proofs.ReportedTypes
import ExprTyping.Proofs.PrintedTree
import ExprTyping.Proofs.SourcePositions
import ExprTyping.Proofs.DottedNames
import ExprTyping.Proofs.Candidates
import ExprTyping.Proofs.Abbreviations
import ExprTyping.Proofs.Footprint
import ExprTyping.Proofs.EscapedBytes

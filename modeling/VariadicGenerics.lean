import VariadicGenerics.Span
import VariadicGenerics.Depth
import VariadicGenerics.TypeExpr
import VariadicGenerics.Substitution
import VariadicGenerics.Failure
import VariadicGenerics.Message
import VariadicGenerics.Diagnostic
import VariadicGenerics.Options
import VariadicGenerics.OptionsText
import VariadicGenerics.LogFormat
import VariadicGenerics.Variables
import VariadicGenerics.Text
import VariadicGenerics.Build
import VariadicGenerics.Construct
import VariadicGenerics.Occurrence
import VariadicGenerics.Instantiate
import VariadicGenerics.Rebuilder
import VariadicGenerics.Assignable
import VariadicGenerics.Resolver
import VariadicGenerics.Environment
import VariadicGenerics.Binder
import VariadicGenerics.Pass
import VariadicGenerics.Arguments
import VariadicGenerics.Definitions
import VariadicGenerics.Generic
import VariadicGenerics.Call
import VariadicGenerics.Annotation
import VariadicGenerics.Checker
import VariadicGenerics.Batch
import VariadicGenerics.Sharded
import VariadicGenerics.StringTable
import VariadicGenerics.TypeTable
import VariadicGenerics.Dialogue
import VariadicGenerics.Numbered.Construct
import VariadicGenerics.Numbered.Occurrence
import VariadicGenerics.Numbered.Instantiate
import VariadicGenerics.Numbered.Assignable
import VariadicGenerics.Numbered.Binder
import VariadicGenerics.Numbered.Text
import VariadicGenerics.Numbered.Checker
import VariadicGenerics.Numbered.Batch
import VariadicGenerics.Proofs.Parts
import VariadicGenerics.Proofs.Occurrences
import VariadicGenerics.Proofs.WellFormed
import VariadicGenerics.Proofs.Normalization
import VariadicGenerics.Proofs.ListInvariants
import VariadicGenerics.Proofs.Replacement
import VariadicGenerics.Proofs.SuitedValues
import VariadicGenerics.Proofs.Recording
import VariadicGenerics.Proofs.Matching
import VariadicGenerics.Proofs.UnionMembers
import VariadicGenerics.Proofs.Inversion
import VariadicGenerics.Proofs.AssignabilityRules
import VariadicGenerics.Proofs.AssignabilityStability
import VariadicGenerics.Proofs.InferenceSoundness
import VariadicGenerics.Proofs.EnvironmentChanges
import VariadicGenerics.Proofs.AssignabilityDepth
import VariadicGenerics.Proofs.Fitting
import VariadicGenerics.Proofs.ClosedMatching
import VariadicGenerics.Proofs.BindingRuns
import VariadicGenerics.Proofs.RegularTypes
import VariadicGenerics.Proofs.InstantiationFailures
import VariadicGenerics.Proofs.ValueOrigins
import VariadicGenerics.Proofs.Composition
import VariadicGenerics.Proofs.Splicing
import VariadicGenerics.Proofs.PrecisionLoss
import VariadicGenerics.Proofs.InstantiationSuccess
import VariadicGenerics.Proofs.Renaming
import VariadicGenerics.Proofs.RenamedMatching
import VariadicGenerics.Proofs.Calls
import VariadicGenerics.Proofs.RenamedCalls
import VariadicGenerics.Proofs.Replay
import VariadicGenerics.Proofs.ErrorArguments
import VariadicGenerics.Proofs.DeclarationRuns
import VariadicGenerics.Proofs.OverloadReports
import VariadicGenerics.Proofs.UnpackSpellings
import VariadicGenerics.Proofs.ShardedTables
import VariadicGenerics.Proofs.TypeTables
import VariadicGenerics.Proofs.Dialogues
import VariadicGenerics.Proofs.NumberedConstruction
import VariadicGenerics.Proofs.NumberedReading
import VariadicGenerics.Proofs.NumberedInstantiation
import VariadicGenerics.Proofs.NumberedEnvironments
import VariadicGenerics.Proofs.NumberedBinding
import VariadicGenerics.Proofs.NumberedReports
import VariadicGenerics.Proofs.NumberedCalls
import VariadicGenerics.Proofs.NumberedSites
import VariadicGenerics.Proofs.InternedSites
import VariadicGenerics.Proofs.SharedBatches
import VariadicGenerics.Proofs.DeclaredUses
import VariadicGenerics.Proofs.InterningRuns
import VariadicGenerics.Proofs.Rollback
import VariadicGenerics.Proofs.ArgumentSplits
import VariadicGenerics.Proofs.UnlimitedAssignability
import VariadicGenerics.Proofs.AssignabilityTransitivity
import VariadicGenerics.Proofs.ReplacedParts
import VariadicGenerics.Proofs.AssignabilityReplacement
import VariadicGenerics.Proofs.AliasArguments
import VariadicGenerics.Proofs.AliasVariables
import VariadicGenerics.Proofs.MatchingOrder
import VariadicGenerics.Proofs.FailedUnions
import VariadicGenerics.Proofs.EllipsisCallables
import VariadicGenerics.Proofs.SubstitutedVariables
import VariadicGenerics.Proofs.UnlimitedInstantiation
import VariadicGenerics.Proofs.AssignabilityRelation
import VariadicGenerics.Proofs.ResolverRuns
import VariadicGenerics.Proofs.BlamedPositions
import VariadicGenerics.Proofs.BlamedArguments
import VariadicGenerics.Proofs.BlamedSites
import VariadicGenerics.Proofs.Flattening
import VariadicGenerics.Proofs.NestedUnions
import VariadicGenerics.Proofs.NumberRange
import VariadicGenerics.Proofs.StringTables
import VariadicGenerics.Proofs.FilledTemplates
import VariadicGenerics.Proofs.SharedOccurrences
import VariadicGenerics.Proofs.RebuilderRuns
import VariadicGenerics.Proofs.PassRuns

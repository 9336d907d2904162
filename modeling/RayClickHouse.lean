import RayClickHouse.ThreeValued
import RayClickHouse.Planning
import RayClickHouse.FilterSegments
import RayClickHouse.Schema
import RayClickHouse.ReadProjection
import RayClickHouse.Predicates
import RayClickHouse.Fragments
import RayClickHouse.Sql
import RayClickHouse.SelectText
import RayClickHouse.SelectShape
import RayClickHouse.QueryText
import RayClickHouse.Parens
import RayClickHouse.Enclosure
import RayClickHouse.BindingProtocol
import RayClickHouse.PercentFormat
import RayClickHouse.NativeScan
import RayClickHouse.ParameterValues
import RayClickHouse.BindingNames
import RayClickHouse.Datasource
import RayClickHouse.Selection
import RayClickHouse.Coverage
import RayClickHouse.ShardCoverage
import RayClickHouse.StaticTables
import RayClickHouse.StaticReads
import RayClickHouse.WriteAccounting
import RayClickHouse.LocalSettings
import RayClickHouse.TableManagement
import RayClickHouse.Declarations
import RayClickHouse.TypeScan
import RayClickHouse.TypeRoundTrip
import RayClickHouse.Compatibility
import RayClickHouse.TypePrefix
import RayClickHouse.Unwrapping
import RayClickHouse.Determination
import RayClickHouse.CompatibleReading
import RayClickHouse.DeterminedTypes
import RayClickHouse.Acceptance
import RayClickHouse.AcceptedDeclarations
import RayClickHouse.StatementStructure
import RayClickHouse.CreatedTarget
import RayClickHouse.OverwriteStart
import RayClickHouse.ProjectionReading
import RayClickHouse.NullPositions
import RayClickHouse.PromotionHistory
import RayClickHouse.CloneFamily
import RayClickHouse.PartitionGroups
import RayClickHouse.SliceRuns
import RayClickHouse.LiteralValues
import RayClickHouse.SharedBudget
import RayClickHouse.Connectives
import RayClickHouse.ConnectiveReading
import RayClickHouse.PredicateTokens
import RayClickHouse.PredicateColumns
import RayClickHouse.PredicateGrammar
import RayClickHouse.ComparisonReading
import RayClickHouse.ComparisonRefusals
import RayClickHouse.TokenSpelling
import RayClickHouse.PredicateTerminals
import RayClickHouse.PredicateExactness
import RayClickHouse.EngineScan
import RayClickHouse.EngineText
import RayClickHouse.EngineSearch
import RayClickHouse.EngineArguments
import RayClickHouse.EngineTarget
import RayClickHouse.InsertOutcomes
import RayClickHouse.RangePlans
import RayClickHouse.CandidateFiles
import RayClickHouse.TypeTrees
import RayClickHouse.TypeRefusals
import RayClickHouse.ArgumentScan
import RayClickHouse.TupleFields
import RayClickHouse.TransportParts
import RayClickHouse.TransportReading
import RayClickHouse.TransportUnique
import RayClickHouse.TransportElements
import RayClickHouse.TransportOutline
import RayClickHouse.TransportAgreement
import RayClickHouse.TransportCompatible
import RayClickHouse.DeclarationKey
import RayClickHouse.DeclarationTokens
import RayClickHouse.DeclarationBreaks
import RayClickHouse.KeySpacing
import RayClickHouse.ResolvedTopology
import RayClickHouse.FaithfulReads
import RayClickHouse.QueryCode
import RayClickHouse.ParameterLexemes
import RayClickHouse.ClauseGate
import RayClickHouse.LexemeForms
import RayClickHouse.QueryGate
import RayClickHouse.SafeMessages
import RayClickHouse.ReadDiagnostics
import RayClickHouse.ConnectiveFrames
import RayClickHouse.TokenMatches
import RayClickHouse.TokenStreams
import RayClickHouse.PredicatePieces
import RayClickHouse.Replacement
import RayClickHouse.DeclaredScalars
import RayClickHouse.PredicateMeaning
import RayClickHouse.CompiledReading
import RayClickHouse.PushedCondition
import RayClickHouse.PushedFamily
import RayClickHouse.Worklist
import RayClickHouse.SecretStrings
import RayClickHouse.DeliveredRows
import RayClickHouse.ServedScans
import RayClickHouse.WrappedQuery
import RayClickHouse.QueryHeads
import RayClickHouse.QueryReads
import RayClickHouse.QueryRuns
import RayClickHouse.PredicateContext
import RayClickHouse.WriteJobs
import RayClickHouse.WriteLifecycle
import RayClickHouse.PercentConversions
import RayClickHouse.NativeSegments

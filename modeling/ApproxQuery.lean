import ApproxQuery.Config.Basic
import ApproxQuery.Config.Document
import ApproxQuery.Document.Basic
import ApproxQuery.Document.Printer
import ApproxQuery.Document.Reader
import ApproxQuery.Estimate.Ensemble
import ApproxQuery.Estimate.Error
import ApproxQuery.Estimate.Formula
import ApproxQuery.Estimate.Memo
import ApproxQuery.Estimate.Model
import ApproxQuery.Estimate.QueryFormula
import ApproxQuery.Estimate.Term
import ApproxQuery.Estimate.TermHash
import ApproxQuery.Name
import ApproxQuery.Number.Binary64
import ApproxQuery.Number.Layout
import ApproxQuery.Number.Reader
import ApproxQuery.Number.Scalar
import ApproxQuery.Number.Shortest
import ApproxQuery.Prepare.Basic
import ApproxQuery.Prepare.Compression
import ApproxQuery.Prepare.EncodedTable
import ApproxQuery.Prepare.Encoding
import ApproxQuery.Prepare.Error
import ApproxQuery.Prepare.Frame
import ApproxQuery.Prepare.Metadata
import ApproxQuery.Prepare.Multipliers
import ApproxQuery.Prepare.RawTable
import ApproxQuery.Proofs.Document.Parts
import ApproxQuery.Proofs.Document.RoundTrip
import ApproxQuery.Proofs.Estimate.Aggregates
import ApproxQuery.Proofs.Estimate.Cardinality
import ApproxQuery.Proofs.Estimate.CompiledColumns
import ApproxQuery.Proofs.Estimate.CompiledFactors
import ApproxQuery.Proofs.Estimate.CompiledTerm
import ApproxQuery.Proofs.Estimate.Coverage
import ApproxQuery.Proofs.Estimate.Evaluation
import ApproxQuery.Proofs.Estimate.FanOutWalk
import ApproxQuery.Proofs.Estimate.Groups
import ApproxQuery.Proofs.Estimate.KnownTerms
import ApproxQuery.Proofs.Estimate.MemoClash
import ApproxQuery.Proofs.Estimate.MemoRefinement
import ApproxQuery.Proofs.Estimate.MemoSoundness
import ApproxQuery.Proofs.Estimate.Normalizers
import ApproxQuery.Proofs.Estimate.RestatedTerms
import ApproxQuery.Proofs.Estimate.SampleModel
import ApproxQuery.Proofs.Estimate.SharedMemo
import ApproxQuery.Proofs.Estimate.TermConditions
import ApproxQuery.Proofs.Estimate.TermMatching
import ApproxQuery.Proofs.Number.Counts
import ApproxQuery.Proofs.Number.Exact
import ApproxQuery.Proofs.Number.Integers
import ApproxQuery.Proofs.Number.Machine
import ApproxQuery.Proofs.Number.Numeral
import ApproxQuery.Proofs.Number.PlainText
import ApproxQuery.Proofs.Number.Rounding
import ApproxQuery.Proofs.Number.Shortest
import ApproxQuery.Proofs.Outcome
import ApproxQuery.Proofs.Prepare.Ancestors
import ApproxQuery.Proofs.Prepare.ColumnFates
import ApproxQuery.Proofs.Prepare.Columns
import ApproxQuery.Proofs.Prepare.CompleteData
import ApproxQuery.Proofs.Prepare.Compression
import ApproxQuery.Proofs.Prepare.Decoding
import ApproxQuery.Proofs.Prepare.FiniteNumbers
import ApproxQuery.Proofs.Prepare.MetadataValues
import ApproxQuery.Proofs.Prepare.Reconstruction
import ApproxQuery.Proofs.Prepare.ReferenceCounts
import ApproxQuery.Proofs.Prepare.Sentinel
import ApproxQuery.Proofs.Prepare.Stored
import ApproxQuery.Proofs.Prepare.StoredRows
import ApproxQuery.Proofs.Prepare.Violations
import ApproxQuery.Proofs.Query.Building
import ApproxQuery.Proofs.Query.Built
import ApproxQuery.Proofs.Query.Condition
import ApproxQuery.Proofs.Query.ConditionText
import ApproxQuery.Proofs.Query.EqualConditions
import ApproxQuery.Proofs.Query.InnerJoin
import ApproxQuery.Proofs.Query.JoinStatement
import ApproxQuery.Proofs.Query.Joinability
import ApproxQuery.Proofs.Query.Membership
import ApproxQuery.Proofs.Random.Indices
import ApproxQuery.Proofs.Sample.Alignment
import ApproxQuery.Proofs.Sample.Attributes
import ApproxQuery.Proofs.Sample.Blocks
import ApproxQuery.Proofs.Sample.Cells
import ApproxQuery.Proofs.Sample.Complete
import ApproxQuery.Proofs.Sample.CompleteSample
import ApproxQuery.Proofs.Sample.DefinedColumns
import ApproxQuery.Proofs.Sample.FanOut
import ApproxQuery.Proofs.Sample.FanOutWeights
import ApproxQuery.Proofs.Sample.Fibres
import ApproxQuery.Proofs.Sample.Independence
import ApproxQuery.Proofs.Sample.JoinFailure
import ApproxQuery.Proofs.Sample.JoinKeys
import ApproxQuery.Proofs.Sample.KeyColumns
import ApproxQuery.Proofs.Sample.NullMarkers
import ApproxQuery.Proofs.Sample.OuterJoin
import ApproxQuery.Proofs.Sample.Partners
import ApproxQuery.Proofs.Sample.Parts
import ApproxQuery.Proofs.Sample.Population
import ApproxQuery.Proofs.Sample.Weights
import ApproxQuery.Proofs.Schema.Assembly
import ApproxQuery.Proofs.Schema.Built
import ApproxQuery.Proofs.Schema.Chain
import ApproxQuery.Proofs.Schema.ColumnNames
import ApproxQuery.Proofs.Schema.Connected
import ApproxQuery.Proofs.Schema.Indexed
import ApproxQuery.Proofs.Schema.Spanning
import ApproxQuery.Proofs.Schema.Tree
import ApproxQuery.Proofs.Store.AllOrNothing
import ApproxQuery.Proofs.Store.MetadataFile
import ApproxQuery.Proofs.Store.Reopen
import ApproxQuery.Proofs.Store.TableFile
import ApproxQuery.Proofs.Text.Blank
import ApproxQuery.Proofs.Value.Equality
import ApproxQuery.Proofs.Value.Hashing
import ApproxQuery.Proofs.Value.LiteralText
import ApproxQuery.Query.Basic
import ApproxQuery.Query.Building
import ApproxQuery.Query.Condition
import ApproxQuery.Query.ConditionReader
import ApproxQuery.Query.Error
import ApproxQuery.Query.GroundTruth
import ApproxQuery.Query.Statement
import ApproxQuery.Random.ChaCha
import ApproxQuery.Random.Draw
import ApproxQuery.Random.Generator
import ApproxQuery.Random.SplitMix
import ApproxQuery.Sample.Block
import ApproxQuery.Sample.Cache
import ApproxQuery.Sample.Error
import ApproxQuery.Sample.Expansion
import ApproxQuery.Sample.Request
import ApproxQuery.Sample.Rounding
import ApproxQuery.Sample.Sampler
import ApproxQuery.Sample.Task
import ApproxQuery.Schema.Basic
import ApproxQuery.Schema.Error
import ApproxQuery.Schema.Indexed
import ApproxQuery.Schema.JoinPath
import ApproxQuery.Schema.Relationship
import ApproxQuery.Schema.Table
import ApproxQuery.Sorted.Map
import ApproxQuery.Sorted.Set
import ApproxQuery.Store.Basic
import ApproxQuery.Store.Error
import ApproxQuery.Store.Location
import ApproxQuery.Store.MetadataFile
import ApproxQuery.Store.TableFile
import ApproxQuery.Text.Alphanumeric
import ApproxQuery.Text.Blank
import ApproxQuery.Text.Quoted
import ApproxQuery.Text.Range
import ApproxQuery.Text.Unprintable
import ApproxQuery.Value.Basic
import ApproxQuery.Value.Literal

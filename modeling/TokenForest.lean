import TokenForest.Main
import TokenForest.Proofs.Forest.Meaning
import TokenForest.Proofs.Forest.Idempotence
import TokenForest.Proofs.Assembly.Tokens
import TokenForest.Proofs.Batch.Accounts
import TokenForest.Proofs.Binary64.SixPlaces
import TokenForest.Proofs.Forest.Equivalence
import TokenForest.Proofs.Assembly.Blocks
import TokenForest.Proofs.Forest.Census
import TokenForest.Proofs.Assembly.Matching
import TokenForest.Proofs.Evaluation.Keeps
import TokenForest.Proofs.MemoTable
import TokenForest.Proofs.Batch.Confidences
import TokenForest.Proofs.Confidence.Scoring
import TokenForest.Proofs.Evaluation.Runs
import TokenForest.Proofs.Survey.Answers
import TokenForest.Proofs.Survey.Deadlines
import TokenForest.Proofs.Binary64.ZeroSign
import TokenForest.Proofs.Outcomes
import TokenForest.Proofs.Evaluation.Truth
import TokenForest.Proofs.Resolution.Outcome
import TokenForest.Proofs.Survey.Outcome
import TokenForest.Proofs.Survey.UnitOrder
import TokenForest.Proofs.Session
import TokenForest.Proofs.Survey.Tightening
import TokenForest.Proofs.Erasure
import TokenForest.Proofs.Resolution.Alike
import TokenForest.Proofs.Survey.Locality
import TokenForest.Proofs.Grid.Interleaving
import TokenForest.Proofs.Assembly.Erased
import TokenForest.Proofs.Batch.Erased
import TokenForest.Proofs.Batch.Interleaving
import TokenForest.Proofs.Batch.Failures
import TokenForest.Proofs.Assembly.SourceOrder
import TokenForest.Proofs.Batch.Unstaged
import TokenForest.Proofs.Assembly.Intents
import TokenForest.Proofs.Batch.IntentThresholds
import TokenForest.Proofs.Batch.Shapes
import TokenForest.Proofs.Confidence.Settled
import TokenForest.Proofs.Evaluation.Credible
import TokenForest.Proofs.Resolution.Trials
import TokenForest.Proofs.Survey.Grounds
import TokenForest.Proofs.Survey.Consistent
import TokenForest.Proofs.Resolution.Optimal
import TokenForest.Proofs.Resolution.Candidates
import TokenForest.Proofs.Resolution.Amended
import TokenForest.Proofs.Survey.Applied
import TokenForest.Proofs.Forest.Losses
import TokenForest.Proofs.Forest.RootOrder
import TokenForest.Proofs.Binary64.Infinite
import TokenForest.Proofs.Forest.Tolerances
import TokenForest.Proofs.Grid.WellPlaced
import TokenForest.Grid.Index
import TokenForest.Proofs.Grid.Index
import TokenForest.Proofs.Assembly.Aggregates
import TokenForest.Proofs.Assembly.Closers
import TokenForest.Proofs.Assembly.Growth
import TokenForest.Proofs.Position
import TokenForest.Proofs.Assembly.Proceeding
import TokenForest.Proofs.Assembly.Nesting
import TokenForest.Proofs.Assembly.Groups
import TokenForest.Proofs.Assembly.Names
import TokenForest.Proofs.Assembly.NodeIds
import TokenForest.Proofs.Binary64.RelativeError
import TokenForest.Proofs.Binary64.CompensatedSum
import TokenForest.Proofs.Config.Weights
import TokenForest.Proofs.Binary64.Products
import TokenForest.Proofs.Binary64.Monotone
import TokenForest.Proofs.Confidence.Blend
import TokenForest.Proofs.Config.Effective
import TokenForest.Proofs.Confidence.Combined
import TokenForest.Proofs.Resolution.Rescored
import TokenForest.Proofs.Resolution.Raised
import TokenForest.Proofs.Survey.Raised
import TokenForest.Proofs.Binary64.PairwiseSum
import TokenForest.Proofs.Binary64.Mean
import TokenForest.Proofs.Survey.Averages
import TokenForest.Proofs.Survey.Suspect
import TokenForest.Proofs.Survey.Balance
import TokenForest.Proofs.MemoTable.History
import TokenForest.Proofs.Config.RoundTrip
import TokenForest.Proofs.Config.Rearranged
import TokenForest.Proofs.Json.Reader
import TokenForest.Proofs.Record
import TokenForest.Proofs.TokenFile
import TokenForest.Forest.Stack
import TokenForest.Proofs.Forest.Stack
import TokenForest.Proofs.Forest.Cover
import TokenForest.Proofs.Batch.RunText
import TokenForest.Proofs.Text
import TokenForest.Proofs.Binary64.ShortestDecimal
import TokenForest.Proofs.Numeral
import TokenForest.Proofs.Json.Numbers
import TokenForest.Proofs.Json.Strings
import TokenForest.Proofs.Json.FlatObjects
import TokenForest.Proofs.Json.Lines
import TokenForest.Proofs.TokenFile.RoundTrip

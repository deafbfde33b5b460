import Shardwise.Calendar
import Shardwise.Code
import Shardwise.Context
import Shardwise.Datum.Json
import Shardwise.Datum.Shape
import Shardwise.Document
import Shardwise.Instant.Text
import Shardwise.Settings.File
import Shardwise.ShardKey
import Shardwise.ShardRecord
import Shardwise.Shards.Coder
import Shardwise.Shards.Counter
import Shardwise.Shards.Group
import Shardwise.Shards.Serial
import Shardwise.Store.Transact
import Shardwise.Text.Quoted
import Shardwise.Value.Number
import Shardwise.Proofs.Session.Readings
import Shardwise.Proofs.Shards.Coder
import Shardwise.Proofs.Shards.Counter.Periods
import Shardwise.Proofs.Shards.Transactions
import Shardwise.Proofs.Store.Sums
import Shardwise.Proofs.Shards.Batch
import Shardwise.Proofs.Shards.Counter.Additions
import Shardwise.Proofs.Shards.Counter.Collisions
import Shardwise.Proofs.Shards.Pairs
import Shardwise.Proofs.Session.Alone
import Shardwise.Proofs.Shards.Removals
import Shardwise.Proofs.Shards.Counter.Single
import Shardwise.Proofs.Shards.Counter.Survival
import Shardwise.Proofs.Shards.Counter.Details
import Shardwise.Proofs.Isolation.Sites
import Shardwise.Proofs.Isolation.Within
import Shardwise.Proofs.Isolation.Handles
import Shardwise.Proofs.Isolation.Agree
import Shardwise.Proofs.Isolation.Runs
import Shardwise.Proofs.Store.Replay
import Shardwise.Proofs.Store.Retries
import Shardwise.Proofs.Shards.Provenance
import Shardwise.Proofs.Code.Bijection
import Shardwise.Proofs.Context
import Shardwise.Proofs.Store.Refusals
import Shardwise.Proofs.Shards.Errands
import Shardwise.Proofs.Store.Failures
import Shardwise.Proofs.Shards.Located
import Shardwise.Proofs.Shards.Closing
import Shardwise.Proofs.Store.Balance
import Shardwise.Proofs.Store.Lineage
import Shardwise.Proofs.Store.Outcome
import Shardwise.Proofs.Value.Words
import Shardwise.Proofs.Store.WordSums
import Shardwise.Proofs.Value.Floats
import Shardwise.Proofs.Shards.Lanes
import Shardwise.Proofs.Shards.Rounds
import Shardwise.Proofs.Shards.Counter.Ranges
import Shardwise.Proofs.Value.Overflow
import Shardwise.Proofs.Store.Readable
import Shardwise.Proofs.Level.Floor
import Shardwise.Proofs.Context.Grove
import Shardwise.Proofs.Store.Lifecycle
import Shardwise.Proofs.Store.Commuting

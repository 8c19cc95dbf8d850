import IdempotentTransformer.Library.Transition
import IdempotentTransformer.Library.Program
import IdempotentTransformer.Schema
import IdempotentTransformer.Storage
import IdempotentTransformer.Repositories
import IdempotentTransformer.Services
import IdempotentTransformer.Isolated
import IdempotentTransformer.Server
import IdempotentTransformer.Checkpoints
import IdempotentTransformer.Library.Pool
import IdempotentTransformer.Interleaving
import IdempotentTransformer.Discipline
import IdempotentTransformer.Leases
import IdempotentTransformer.Durability
import IdempotentTransformer.Fencing
import IdempotentTransformer.Client.Adapter
import IdempotentTransformer.Client.Execute
import IdempotentTransformer.Library.Tenancy
import IdempotentTransformer.Network
import IdempotentTransformer.Ownership
import IdempotentTransformer.Workers
import IdempotentTransformer.Guard
import IdempotentTransformer.Completion
import IdempotentTransformer.Cleanup
import IdempotentTransformer.Library.Confinement
import IdempotentTransformer.Separation
import IdempotentTransformer.Tokens
import IdempotentTransformer.Keys
import IdempotentTransformer.Orphans
import IdempotentTransformer.Client.Execution
import IdempotentTransformer.Returns
import IdempotentTransformer.Compensation
import IdempotentTransformer.Attempts
import IdempotentTransformer.Recovery
import IdempotentTransformer.Client.Conduct
import IdempotentTransformer.Client.Failure
import IdempotentTransformer.Client.Rollback
import IdempotentTransformer.Transport
import IdempotentTransformer.Visibility
import IdempotentTransformer.Acknowledgement
import IdempotentTransformer.Lag
import IdempotentTransformer.Window
import IdempotentTransformer.Client.Decorator
import IdempotentTransformer.Client.MessagePack
import IdempotentTransformer.Serialization
import IdempotentTransformer.Overlap
import IdempotentTransformer.Expiry
import IdempotentTransformer.Retention
import IdempotentTransformer.Library.Progress
import IdempotentTransformer.Liveness
import IdempotentTransformer.Serializability
import IdempotentTransformer.Lifecycle
import IdempotentTransformer.Effects
import IdempotentTransformer.Refusals
import IdempotentTransformer.Polling
import IdempotentTransformer.Library.Words
import IdempotentTransformer.Nodes
import IdempotentTransformer.Resumption

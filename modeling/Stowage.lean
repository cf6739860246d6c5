import Stowage.Message
import Stowage.Marker
import Stowage.Record
import Stowage.Backend.Local
import Stowage.Backend.Remote
import Stowage.Backend.Selection
import Stowage.Chunk.Host
import Stowage.Cli.Command
import Stowage.Cli.Outcome
import Stowage.Disk.Basic
import Stowage.Http.Wire
import Stowage.Main
import Stowage.World
import Stowage.Proofs.Backend.Local
import Stowage.Proofs.Backend.Remote
import Stowage.Proofs.Backend.Contract
import Stowage.Proofs.Backend.Resolvable
import Stowage.Proofs.Sharing.Pool
import Stowage.Proofs.Chunk.Transcript
import Stowage.Proofs.Chunk.Declared
import Stowage.Proofs.Chunk.Boundary
import Stowage.Proofs.Chunk.Interruption
import Stowage.Proofs.Chunk.Ownership
import Stowage.Proofs.Chunk.Deadline
import Stowage.Proofs.Chunk.BodyLimit
import Stowage.Proofs.Sharing.Traffic
import Stowage.Proofs.Chunk.Route
import Stowage.Proofs.Message.Resolution
import Stowage.Proofs.Message.Offloading
import Stowage.Proofs.Records.Conduct
import Stowage.Proofs.Records.Atomic
import Stowage.Proofs.Chunk.Acceptance
import Stowage.Proofs.Chunk.Plan
import Stowage.Proofs.Chunk.Retry
import Stowage.Proofs.Backend.Decision
import Stowage.Proofs.Chunk.Bounds
import Stowage.Proofs.Message.Probe
import Stowage.Proofs.Message.Readable
import Stowage.Proofs.Message.Untouched
import Stowage.Proofs.Marker
import Stowage.Proofs.Records.Paths
import Stowage.Proofs.Backend.Idempotent
import Stowage.Proofs.Backend.FollowRecord
import Stowage.Proofs.Backend.Placement
import Stowage.Proofs.Records.Detection
import Stowage.Proofs.Ident.Decoding
import Stowage.Proofs.Records.Head

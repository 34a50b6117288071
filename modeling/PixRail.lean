import PixRail.Go.Strings
import PixRail.Go.Values
import PixRail.Go.Segments
import PixRail.Interleave.World
import PixRail.Rail.Model
import PixRail.Events.Events
import PixRail.Store.Memory
import PixRail.Store.Writes
import PixRail.Switcher.Sample
import PixRail.Lifecycle.Log
import PixRail.Lifecycle.Sound
import PixRail.Lease.Fenced
import PixRail.Submission.Fencing
import PixRail.Settlement.Once
import PixRail.Idempotency.Ledger
import PixRail.Idempotency.Once
import PixRail.Idempotency.Fingerprint
import PixRail.Interleave.Purge
import PixRail.Ratelimit.Limiter
import PixRail.Tenancy.Part
import PixRail.Tenancy.Noninterference
import PixRail.Outbox.Records
import PixRail.Outbox.Delivery
import PixRail.Outbox.Order
import PixRail.Postgres.Schema
import PixRail.Postgres.Store
import PixRail.Postgres.Agreement
import PixRail.Postgres.Outbox
import PixRail.Submission.Identifiers
import PixRail.Codec.Cbor
import PixRail.Switcher.Atomic
import PixRail.Codec.MsgPack
import PixRail.Codec.ProtoWire
import PixRail.Keyed.Run
import PixRail.Ratelimit.TokenBucket
import PixRail.Ratelimit.SlidingWindow
import PixRail.Ratelimit.LeakyBucket
import PixRail.Ratelimit.FixedWindow
import PixRail.Messaging.Backoff
import PixRail.Config.APIKeys
import PixRail.Api.Auth
import PixRail.Codec.Safety
import PixRail.Codec.PrefixFree
import PixRail.Codec.Merge
import PixRail.Codec.Profiles
import PixRail.Ratelimit.TokenWrap
import PixRail.Interleave.Rely
import PixRail.Postgres.Migrations
import PixRail.Postgres.MigrationSafety
import PixRail.Go.Numbers
import PixRail.Api.Callbacks
import PixRail.Api.Authority
import PixRail.Codec.Varint
import PixRail.Lifecycle.Clock
import PixRail.Submission.Queue
import PixRail.Interleave.Solo
import PixRail.Submission.Batch
import PixRail.Dict.Resolver
import PixRail.Fraud.Policy
import PixRail.Interleave.Layer
import PixRail.Lifecycle.Audit
import PixRail.Api.Consistency
import PixRail.Api.Accounting
import PixRail.Api.Failures
import PixRail.Ratelimit.Enforced
import PixRail.Interleave.Simulate
import PixRail.Postgres.Switch
import PixRail.Postgres.Refinement
import PixRail.Outbox.Identity

import ReplicatedStore.Address
import ReplicatedStore.Backend.Basic
import ReplicatedStore.Backend.Directory
import ReplicatedStore.Backend.Memory
import ReplicatedStore.Backend.Objects
import ReplicatedStore.Backend.Properties
import ReplicatedStore.Backend.Remote
import ReplicatedStore.Backend.Request
import ReplicatedStore.Backend.Script
import ReplicatedStore.Backend.Settings
import ReplicatedStore.Bytes
import ReplicatedStore.Cache.Basic
import ReplicatedStore.Cache.Policy
import ReplicatedStore.Cache.Validation
import ReplicatedStore.Cache.Watched
import ReplicatedStore.Cipher.Aes
import ReplicatedStore.Cipher.Envelope
import ReplicatedStore.Cipher.Gcm
import ReplicatedStore.CommandLine.Basic
import ReplicatedStore.CommandLine.Form
import ReplicatedStore.CommandLine.Help
import ReplicatedStore.CommandLine.Reach
import ReplicatedStore.CommandLine.Run
import ReplicatedStore.Deflate.Alphabet
import ReplicatedStore.Deflate.Bits
import ReplicatedStore.Deflate.Block
import ReplicatedStore.Deflate.PrefixCode
import ReplicatedStore.Deflate.Token
import ReplicatedStore.Digest.Crc32
import ReplicatedStore.Digest.Sha256
import ReplicatedStore.Disk.Basic
import ReplicatedStore.Disk.Change
import ReplicatedStore.Disk.Path
import ReplicatedStore.Document
import ReplicatedStore.Duration
import ReplicatedStore.Gzip
import ReplicatedStore.Http
import ReplicatedStore.Main
import ReplicatedStore.Pipeline.Chain
import ReplicatedStore.Pipeline.Codec
import ReplicatedStore.Pipeline.EncodingError
import ReplicatedStore.Pipeline.Step
import ReplicatedStore.Pipeline.Stream
import ReplicatedStore.Quoted
import ReplicatedStore.Session.Basic
import ReplicatedStore.Session.Event
import ReplicatedStore.Session.FanOut
import ReplicatedStore.Session.ReadOrder
import ReplicatedStore.Session.Run
import ReplicatedStore.Session.Setup
import ReplicatedStore.Session.Walk
import ReplicatedStore.Settings.Basic
import ReplicatedStore.Settings.Check
import ReplicatedStore.Settings.Loading
import ReplicatedStore.Settings.Placeholder
import ReplicatedStore.Settings.Reading
import ReplicatedStore.StoreError
import ReplicatedStore.Text
import ReplicatedStore.Text.LowerCase
import ReplicatedStore.Url.Basic
import ReplicatedStore.Url.Host
import ReplicatedStore.Url.Percent
import ReplicatedStore.Url.Reading
import ReplicatedStore.Yaml.Cursor
import ReplicatedStore.Yaml.Literal
import ReplicatedStore.Yaml.Node
import ReplicatedStore.Yaml.Reading
import ReplicatedStore.Yaml.Scalar
import ReplicatedStore.Yaml.Token
import ReplicatedStore.Proofs.Backend.Answering
import ReplicatedStore.Proofs.Backend.Effects
import ReplicatedStore.Proofs.Backend.Files
import ReplicatedStore.Proofs.Backend.Frame
import ReplicatedStore.Proofs.Backend.Kept
import ReplicatedStore.Proofs.Backend.Landing
import ReplicatedStore.Proofs.Backend.Likeness
import ReplicatedStore.Proofs.Backend.PlainMap
import ReplicatedStore.Proofs.Backend.Steady
import ReplicatedStore.Proofs.Cache.Contents
import ReplicatedStore.Proofs.Cache.Entries
import ReplicatedStore.Proofs.Cache.History
import ReplicatedStore.Proofs.Cache.Safety
import ReplicatedStore.Proofs.Cache.Unseen
import ReplicatedStore.Proofs.Compression.RoundTrip
import ReplicatedStore.Proofs.Compression.Tokens
import ReplicatedStore.Proofs.Pipeline.Lossless
import ReplicatedStore.Proofs.Pipeline.RoundTrip
import ReplicatedStore.Proofs.Session.Apart
import ReplicatedStore.Proofs.Session.Arriving
import ReplicatedStore.Proofs.Session.Attending
import ReplicatedStore.Proofs.Session.Consulting
import ReplicatedStore.Proofs.Session.FanReport
import ReplicatedStore.Proofs.Session.Joining
import ReplicatedStore.Proofs.Session.Mindful
import ReplicatedStore.Proofs.Session.Moves
import ReplicatedStore.Proofs.Session.Placement
import ReplicatedStore.Proofs.Session.ReadServing
import ReplicatedStore.Proofs.Session.Reads
import ReplicatedStore.Proofs.Session.Refinement
import ReplicatedStore.Proofs.Session.Resting
import ReplicatedStore.Proofs.Session.Returning
import ReplicatedStore.Proofs.Session.Seeking
import ReplicatedStore.Proofs.Session.Sequence
import ReplicatedStore.Proofs.Session.Spreading
import ReplicatedStore.Proofs.Session.Staleness
import ReplicatedStore.Proofs.Session.Superseding
import ReplicatedStore.Proofs.Session.Taking
import ReplicatedStore.Proofs.Session.Tally
import ReplicatedStore.Proofs.Session.Trail
import ReplicatedStore.Proofs.Session.Transparency
import ReplicatedStore.Proofs.Session.Trying
import ReplicatedStore.Proofs.Session.Turns
import ReplicatedStore.Proofs.Session.WriteServing
import ReplicatedStore.Proofs.Session.Written
import ReplicatedStore.Proofs.Backend.Telling
import ReplicatedStore.Proofs.Session.Fetching
import ReplicatedStore.Proofs.Session.Convergence
import ReplicatedStore.Proofs.Session.Rotation
import ReplicatedStore.Proofs.Session.TakingTurns
import ReplicatedStore.Proofs.Session.Filling
import ReplicatedStore.Proofs.Session.Provenance
import ReplicatedStore.Proofs.Backend.Copying
import ReplicatedStore.Proofs.Session.LateReads
import ReplicatedStore.Proofs.Cache.Lifecycle
import ReplicatedStore.Proofs.Cache.Recency
import ReplicatedStore.Proofs.Session.Bookkeeping
import ReplicatedStore.Proofs.Backend.Spans
import ReplicatedStore.Proofs.Session.OnClock
import ReplicatedStore.Proofs.Session.Untimed
import ReplicatedStore.Proofs.Session.Pacing
import ReplicatedStore.Proofs.Session.Awaiting
import ReplicatedStore.Proofs.Session.WalkTimes
import ReplicatedStore.Proofs.Session.FanTimes
import ReplicatedStore.Proofs.Session.Deadlines
import ReplicatedStore.Proofs.Pipeline.Releases
import ReplicatedStore.Proofs.Pipeline.Opening
import ReplicatedStore.Proofs.Compression.Lookahead
import ReplicatedStore.Proofs.Compression.Members
import ReplicatedStore.Proofs.Settings.Keys
import ReplicatedStore.Proofs.Cache.Passes
import ReplicatedStore.Proofs.Settings.Rules
import ReplicatedStore.Proofs.Settings.Usable
import ReplicatedStore.Proofs.Url.Segments
import ReplicatedStore.Proofs.Backend.ObjectUrls
import ReplicatedStore.Proofs.Session.Probing
import ReplicatedStore.Proofs.Session.Checking
import ReplicatedStore.Proofs.Settings.Scanning
import ReplicatedStore.Proofs.Backend.Confined
import ReplicatedStore.Proofs.Backend.Rejected
import ReplicatedStore.Proofs.Backend.Directories
import ReplicatedStore.Proofs.Backend.Interchange
import ReplicatedStore.Proofs.Backend.Rekeyed
import ReplicatedStore.Proofs.Session.Rekeyed
import ReplicatedStore.Proofs.Session.Outside
import ReplicatedStore.Proofs.Settings.Rekeyed

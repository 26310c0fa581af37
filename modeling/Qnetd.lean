import Qnetd.Server.Calls
import Qnetd.Lib.History
import Qnetd.Server.Effects
import Qnetd.Server.Plumbing
import Qnetd.Server.Moves
import Qnetd.Server.Turns
import Qnetd.Invariant.Table
import Qnetd.Host.Client
import Qnetd.Invariant.Identity
import Qnetd.Invariant.Decision
import Qnetd.Invariant.Cluster
import Qnetd.Invariant.Round
import Qnetd.Invariant.Standing
import Qnetd.Invariant.Acks
import Qnetd.Invariant.Current
import Qnetd.Invariant.Isolation
import Qnetd.Invariant.Reading
import Qnetd.Invariant.Delivery
import Qnetd.Invariant.Rejection
import Qnetd.Wire.Parse
import Qnetd.Wire.RoundTrip
import Qnetd.Lib.Scan
import Qnetd.Invariant.Selection
import Qnetd.Invariant.Ranking
import Qnetd.Invariant.Replies
import Qnetd.Invariant.Lifetime
import Qnetd.Component.Loop
import Qnetd.Component.Slots
import Qnetd.Invariant.Deadlines
import Qnetd.Lib.Outbox
import Qnetd.Component.Clock
import Qnetd.Component.Transmit
import Qnetd.Invariant.Holders
import Qnetd.Invariant.Handover
import Qnetd.Invariant.Message
import Qnetd.Invariant.Completion
import Qnetd.Invariant.Twins
import Qnetd.Lib.Unwinding
import Qnetd.Invariant.Interference
import Qnetd.Invariant.Numbering
import Qnetd.Component.Refine
import Qnetd.Component.Publish
import Qnetd.Component.Uptime
import Qnetd.Invariant.Outgoing
import Qnetd.Component.Readback
import Qnetd.Invariant.Handshake
import Qnetd.Invariant.Renewal
import Qnetd.Invariant.Incoming
import Qnetd.Invariant.Exclusion

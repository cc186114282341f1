import Ensemble.Cluster.Run
import Ensemble.Main
import Ensemble.Membership.Knocking
import Ensemble.Membership.Run
import Ensemble.Peer.Json
import Ensemble.Settings.Json
import Ensemble.Text.Hex
import Ensemble.Proofs.Address.RoundTrip
import Ensemble.Proofs.Message.RoundTrip
import Ensemble.Proofs.Address.Length
import Ensemble.Proofs.Message.Size
import Ensemble.Proofs.Message.Buffer
import Ensemble.Proofs.Message.Extension
import Ensemble.Proofs.Message.Exact
import Ensemble.Proofs.Message.Spelling
import Ensemble.Proofs.Transport.Limit
import Ensemble.Proofs.Membership.Registry
import Ensemble.Proofs.Membership.Service
import Ensemble.Proofs.Membership.Broadcast
import Ensemble.Proofs.Membership.Ids
import Ensemble.Proofs.Membership.Coordinator
import Ensemble.Proofs.Membership.Tokens
import Ensemble.Proofs.Membership.Supervision
import Ensemble.Proofs.Playback.Queue
import Ensemble.Proofs.Group.Basic
import Ensemble.Proofs.Group.Member
import Ensemble.Proofs.Group.Repair
import Ensemble.Proofs.Group.Deliveries
import Ensemble.Proofs.Group.Deed
import Ensemble.Proofs.Group.Unison
import Ensemble.Proofs.Message.Parcel
import Ensemble.Proofs.Membership.Entries
import Ensemble.Proofs.Cluster.Agreement
import Ensemble.Proofs.Membership.Rounds
import Ensemble.Proofs.Membership.Renewal
import Ensemble.Proofs.Membership.Responsive
import Ensemble.Proofs.Node.Registration
import Ensemble.Proofs.Membership.Handshake
import Ensemble.Proofs.Node.Reachable
import Ensemble.Proofs.Node.StatusTransfer
import Ensemble.Proofs.Peer.Key
import Ensemble.Proofs.Group.Leader
import Ensemble.Proofs.Membership.Directory
import Ensemble.Proofs.Playback.Rest
import Ensemble.Proofs.Playback.Trail
import Ensemble.Proofs.Playback.Order
import Ensemble.Proofs.Playback.Seconds
import Ensemble.Proofs.Playback.Schedule
import Ensemble.Proofs.Node.Hint
import Ensemble.Proofs.Membership.Senders
import Ensemble.Proofs.Node.Echo
import Ensemble.Proofs.Playback.Loop
import Ensemble.Proofs.Playback.Wakes
import Ensemble.Proofs.Membership.Silence
import Ensemble.Proofs.Node.AllOrNothing
import Ensemble.Proofs.Node.Effects
import Ensemble.Proofs.Transport.Replies
import Ensemble.Proofs.Transport.Places
import Ensemble.Proofs.Membership.Sweeper
import Ensemble.Proofs.Settings.Runnable
import Ensemble.Proofs.Console.Grammar
import Ensemble.Proofs.Json.RoundTrip
import Ensemble.Proofs.Membership.Draws
import Ensemble.Proofs.Peer.Json
import Ensemble.Proofs.Playback.Elapsed

import UConnect.Foundation.Run
import UConnect.Foundation.Bytes
import UConnect.Foundation.Stream
import UConnect.Foundation.SwapList
import UConnect.Foundation.EpochChannel
import UConnect.Foundation.TieBreak
import UConnect.Foundation.FieldIndex
import UConnect.Foundation.Spacing
import UConnect.Foundation.Serial
import UConnect.Wire.Types
import UConnect.Wire.Buffer
import UConnect.Wire.Messages
import UConnect.Wire.Candidates
import UConnect.Wire.Frames
import UConnect.Crypto.Primitives
import UConnect.Crypto.Noise
import UConnect.Crypto.Handshake
import UConnect.Session.ReplayWindow
import UConnect.Session.Session
import UConnect.Session.Channel
import UConnect.Session.KeySchedule
import UConnect.Session.PacketKeys
import UConnect.Session.FarJumps
import UConnect.Session.PathChanges
import UConnect.Session.TcpSession
import UConnect.Session.TcpChunking
import UConnect.Session.TcpEvents
import UConnect.Session.TcpHandshake
import UConnect.Session.TcpRecords
import UConnect.Session.TcpLink
import UConnect.Session.DatagramKeys
import UConnect.Server.Registry
import UConnect.Server.RegistryView
import UConnect.Server.RegistryIndex
import UConnect.Server.RelayOwnership
import UConnect.Node.Payloads
import UConnect.Node.Peer
import UConnect.Node.DrivePeer
import UConnect.Node.Introductions
import UConnect.Node.Datagrams
import UConnect.Node.ChannelKeys
import UConnect.Node.PeerFrame
import UConnect.Node.DriveFrame
import UConnect.Node.Reports
import UConnect.Node.Book
import UConnect.Node.AttemptTrace
import UConnect.Node.Attempts
import UConnect.Node.NonceUse
import UConnect.Node.DgramDrive
import UConnect.Node.DgramGate
import UConnect.Node.RekeyAgreement
import UConnect.Node.Publish
import UConnect.Node.ControlBooks
import UConnect.Node.Registrations
import UConnect.Foundation.Tally
import UConnect.Server.RegistryMoves
import UConnect.Server.Quotas
import UConnect.Server.RelayMoves
import UConnect.Server.Listing
import UConnect.Server.ListingWalk
import UConnect.Server.RelayBudget
import UConnect.Server.Freshness
import UConnect.Server.FreshCounts
import UConnect.Wire.Framing
import UConnect.Wire.Codec
import UConnect.Wire.Control
import UConnect.Wire.RoundTrip
import UConnect.Node.WireFormat
import UConnect.Server.ControlService
import UConnect.Server.Records
import UConnect.Server.ServiceRuns
import UConnect.Server.Outcomes
import UConnect.Server.Replies
import UConnect.Server.Authorization
import UConnect.Server.UdpService
import UConnect.Session.TcpLifeCycle
import UConnect.Path.Punch
import UConnect.Path.PunchSteps
import UConnect.Path.Nomination
import UConnect.Path.GivingUp
import UConnect.Path.Alike
import UConnect.Path.Unauthenticated
import UConnect.Node.Roster
import UConnect.Node.Leaving
import UConnect.Node.Admission
import UConnect.Server.Yaml
import UConnect.Server.YamlBlocks
import UConnect.Server.YamlScan
import UConnect.Server.YamlDocument
import UConnect.Server.Config
import UConnect.Server.ConfigValues
import UConnect.Server.ConfigEntries
import UConnect.Server.ConfigText
import UConnect.Server.ConfigComments
import UConnect.Server.Arguments
import UConnect.Crypto.ChaChaPoly
import UConnect.Node.TopicUri
import UConnect.Session.ReplaySet
import UConnect.Crypto.Blake2s
import UConnect.Server.Stun
import UConnect.Server.Rendezvous
import UConnect.Server.Connections
import UConnect.Server.Joining
import UConnect.Server.Departing
import UConnect.Server.Accounts
import UConnect.Server.Recipients
import UConnect.Server.Splice
import UConnect.Server.SpliceRuns
import UConnect.Server.SpliceEnds
import UConnect.Server.Attachment
import UConnect.Node.ControlLoop
import UConnect.Node.ControlMessages
import UConnect.Node.ControlMoves
import UConnect.Node.ControlRuns
import UConnect.Node.ControlView
import UConnect.Node.ControlSteps
import UConnect.Node.Linked
import UConnect.Server.Messages
import UConnect.Server.ControlPath

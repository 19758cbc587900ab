import FancyMumble.Signal.WholeChain
import FancyMumble.Signal.ChannelBinding
import FancyMumble.Messages.Servers
import FancyMumble.Messages.BridgeInstall
import FancyMumble.Messages.OfflineQueue
import FancyMumble.Client.Restart
import FancyMumble.Transport.Ocb2.Resistance
import FancyMumble.Client.Freshness
import FancyMumble.Persistent.Keys.ConsensusOrder
import FancyMumble.Client.ServerNonce
import FancyMumble.Client.NonceFreshness
import FancyMumble.Transport.Ocb2.Replay
import FancyMumble.Transport.Ocb2.Statistics
import FancyMumble.Audio.Bursts
import FancyMumble.Audio.AudioTime
import FancyMumble.Audio.Recorded
import FancyMumble.Client.ArchiveKeys
import FancyMumble.Transport.Framing
import FancyMumble.Client.Addressing
import FancyMumble.Client.ActiveSession
import FancyMumble.Messages.DeleteAcks
import FancyMumble.Messages.Copies
import FancyMumble.Persistent.OneStore
import FancyMumble.Client.Listening
import FancyMumble.Client.ChannelRemoval
import FancyMumble.Messages.Correspondents
import FancyMumble.Client.KeyShares
import FancyMumble.Messages.OffloadManager
import FancyMumble.Client.Descriptions
import FancyMumble.Messages.DualPath
import FancyMumble.Interface.MessageView
import FancyMumble.Interface.BackgroundEvents
import FancyMumble.Interface.Polls
import FancyMumble.Interface.WatchRoom
import FancyMumble.Interface.PreferenceUpdates
import FancyMumble.Interface.AclEditors
import FancyMumble.Interface.Drawings
import FancyMumble.Messages.Encryption
import FancyMumble.Persistent.Keys.Promotions
import FancyMumble.Persistent.Keys.Disputes
import FancyMumble.Audio.Displacement
import FancyMumble.Audio.Concealment
import FancyMumble.Client.VoiceFailures
import FancyMumble.Messages.KeyShareApproval
import FancyMumble.Interface.ReadReceipts
import FancyMumble.Interface.SignalRouting
import FancyMumble.Interface.Typing
import FancyMumble.Interface.WatchMounts
import FancyMumble.Interface.BanCoverage
import FancyMumble.Interface.LazyBlobs
import FancyMumble.Interface.ProfileFormat
import FancyMumble.Client.RecordingTasks
import FancyMumble.Messages.Search
import FancyMumble.Interface.ChannelTree
import FancyMumble.Interface.MemberGroups
import FancyMumble.Interface.InputOverlay
import FancyMumble.Interface.MediaMessages
import FancyMumble.Interface.WrittenBody
import FancyMumble.Client.EventLoop
import FancyMumble.Client.SharedCopy

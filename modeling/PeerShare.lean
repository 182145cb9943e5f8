import PeerShare.Foundation.HostBytes
import PeerShare.Foundation.SlotRing
import PeerShare.Foundation.LabelledRun
import PeerShare.Foundation.LeastGap
import PeerShare.Wire.Protocol
import PeerShare.Wire.PacketCodec
import PeerShare.Wire.LossyUdp
import PeerShare.Wire.Handshake
import PeerShare.Wire.Control
import PeerShare.SelectiveRepeat.Sender
import PeerShare.SelectiveRepeat.FileChunks
import PeerShare.SelectiveRepeat.SenderRefinement
import PeerShare.SelectiveRepeat.SenderRun
import PeerShare.SelectiveRepeat.Receiver
import PeerShare.SelectiveRepeat.ReceiverRefinement
import PeerShare.SelectiveRepeat.ReceiverRun
import PeerShare.SelectiveRepeat.Transfer
import PeerShare.SelectiveRepeat.TransferSafety
import PeerShare.SelectiveRepeat.TransferProgress
import PeerShare.Client.Get
import PeerShare.Client.OwnerLoop
import PeerShare.Client.Exchange
import PeerShare.Client.AckProvenance
import PeerShare.Directory.Registry
import PeerShare.Directory.Server
import PeerShare.Directory.Ownership
import PeerShare.Directory.Identity
import PeerShare.Client.Requests
import PeerShare.Directory.Network
import PeerShare.Directory.TableAgreement
import PeerShare.SelectiveRepeat.CorruptData
import PeerShare.Client.CorruptAck
import PeerShare.Client.ChunkArithmetic
import PeerShare.Client.GetRun
import PeerShare.Directory.Isolation
import PeerShare.Directory.Displacement
import PeerShare.Directory.FileListing
import PeerShare.Directory.Segmentation
import PeerShare.Directory.Streams
import PeerShare.Directory.Waiting
import PeerShare.Directory.Participants
import PeerShare.Directory.ContentIntegrity
import PeerShare.Directory.FileArray
import PeerShare.Foundation.CellArray
import PeerShare.Directory.Disconnection
import PeerShare.SelectiveRepeat.TimeoutScan
import PeerShare.SelectiveRepeat.Retransmission
import PeerShare.SelectiveRepeat.ClockSteps
import PeerShare.SelectiveRepeat.OrderIndependence
import PeerShare.Client.Commitment
import PeerShare.Client.CommandLine
import PeerShare.Client.SharedPaths
import PeerShare.Directory.SavedNames
import PeerShare.Client.FirstFlight
import PeerShare.Foundation.XorShift
import PeerShare.Wire.LossGenerator
import PeerShare.Wire.HostIndependence
import PeerShare.SelectiveRepeat.CodecRoundTrip
import PeerShare.Client.TypedFileId
import PeerShare.Foundation.Catalogue
import PeerShare.Foundation.ResourceLedger
import PeerShare.Foundation.SegmentedStream
import PeerShare.Client.TransferDeadline
import PeerShare.Client.Resources
import PeerShare.Client.StreamLoops
import PeerShare.Directory.AnswerProgress
import PeerShare.Directory.CatalogueRefinement
import PeerShare.Directory.Descriptors
import PeerShare.Client.DownloadProgress
import PeerShare.Client.SimulatedLoss
import PeerShare.Client.Traffic
import PeerShare.Client.CircularDownloads
import PeerShare.Directory.Availability
import PeerShare.Directory.SessionMessages
import PeerShare.Foundation.WordDraws
import PeerShare.Wire.LossRate
import PeerShare.Client.OwnerAccesses
import PeerShare.Client.LastAcknowledgement
import PeerShare.Client.TransferStats
import PeerShare.Directory.PollPass
import PeerShare.Foundation.Simulation
import PeerShare.Client.ClientProcess
import PeerShare.Directory.ProcessRefinement

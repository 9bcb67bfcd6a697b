import J1939.Lib.BinarySearch
import J1939.Lib.Bits
import J1939.Lib.Buffer
import J1939.Lib.CommandTree
import J1939.Lib.Cycle
import J1939.Lib.Drain
import J1939.Lib.IStream
import J1939.Lib.Json
import J1939.Lib.Last
import J1939.Lib.Loop
import J1939.Lib.Keyed
import J1939.Lib.KeyedList
import J1939.Lib.Orbit
import J1939.Lib.Outcomes
import J1939.Lib.Reads
import J1939.Lib.Runs
import J1939.Lib.SortedMap
import J1939.Lib.Stoul
import J1939.Lib.Tiling
import J1939.Lib.Timeline
import J1939.Lib.Scale
import J1939.Lib.Words
import J1939.Common
import J1939.J1939Frame
import J1939.Identifier
import J1939.Transport
import J1939.GenericFrame
import J1939.Messages
import J1939.DM1
import J1939.J1939Factory
import J1939.Bam
import J1939.BamSession
import J1939.BamIsolation
import J1939.BamPayload
import J1939.BamSafety
import J1939.Codec
import J1939.TransportCodec
import J1939.BamTransfer
import J1939.SPNCodec
import J1939.GenericCodec
import J1939.FixedLayout
import J1939.StringCodec
import J1939.StringLayout
import J1939.StringFrames
import J1939.FrameOperations
import J1939.ChangeDetection
import J1939.PayloadLength
import J1939.StringOffsets
import J1939.Acceptance
import J1939.TroubleCodes
import J1939.PayloadReads
import J1939.Payloads
import J1939.TellTales
import J1939.FrameCopies
import J1939.IdentifierCodec
import J1939.AddressClaimer
import J1939.AddressNetwork
import J1939.AddressSelection
import J1939.Can
import J1939.TRC
import J1939.TRCLines
import J1939.TRCPlayback
import J1939.Sniffer
import J1939.Schedule
import J1939.PeriodicSending
import J1939.BamErrors
import J1939.Fragmentation
import J1939.BamHeader
import J1939.Interfaces
import J1939.Filters
import J1939.AskedFrames
import J1939.DataBase
import J1939.DataBaseReads
import J1939.DataBaseSafety
import J1939.ParsedFrames
import J1939.DataBaseWrites
import J1939.DataBaseRoundTrip
import J1939.NameCodec
import J1939.ProtocolCodec
import J1939.FailedDecodes
import J1939.FrameRings
import J1939.RingCycle
import J1939.TimeStamps
import J1939.SPNValues
import J1939.SPNHistory
import J1939.WindowTermination
import J1939.SnifferFilters
import J1939.Commands
import J1939.SenderCommands
import J1939.FilledFrames
import J1939.SenderRuns
import J1939.SenderFaults
import J1939.SenderRings
import J1939.SenderTellTales
import J1939.TRCCursor
import J1939.ReceivedFrames
import J1939.PageView
import J1939.TRCToCap
import J1939.Lib.Lossy
import J1939.LossyBus

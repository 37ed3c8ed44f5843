import Libmoon.Foundation.Machine
import Libmoon.Foundation.Word32
import Libmoon.Ring.RteRing
import Libmoon.Ring.ByteSized
import Libmoon.Ring.BurstLoops
import Libmoon.Ring.ByteAccounting
import Libmoon.Ring.BurstHandover
import Libmoon.Foundation.Interleaving
import Libmoon.Ring.ByteSizedSpsc
import Libmoon.Ring.PacketSized
import Libmoon.Foundation.ByteMemory
import Libmoon.Pcap.Writer
import Libmoon.Pcap.Reader
import Libmoon.Pcap.Records
import Libmoon.Pcap.ReaderBounds
import Libmoon.Pcap.BatchRead
import Libmoon.Pcap.RoundTrip
import Libmoon.Foundation.Stepping
import Libmoon.Packet.Headers
import Libmoon.Packet.Stack
import Libmoon.Packet.Resolve
import Libmoon.Packet.HeaderChain
import Libmoon.Packet.Registry
import Libmoon.Packet.Appending
import Libmoon.Packet.Lengths
import Libmoon.Packet.Totality
import Libmoon.Foundation.Flags
import Libmoon.Lacp.Task
import Libmoon.Lacp.Status
import Libmoon.Lacp.Sync
import Libmoon.InterTask.Barrier
import Libmoon.InterTask.Namespaces
import Libmoon.InterTask.SlowPipe
import Libmoon.Arp.Task
import Libmoon.Arp.LifeCycle
import Libmoon.Packet.Independence
import Libmoon.Packet.Extent
import Libmoon.Foundation.LuaBit
import Libmoon.Packet.NamedArgs
import Libmoon.Packet.LengthAgreement
import Libmoon.Foundation.BitMemory
import Libmoon.Foundation.LuaString
import Libmoon.Packet.Addresses
import Libmoon.Packet.Fields
import Libmoon.Packet.FieldLaws
import Libmoon.Packet.FillGet
import Libmoon.Lacp.Peers
import Libmoon.Driver.I40eCounters
import Libmoon.Ring.PacketSizedSpsc
import Libmoon.Ring.SinglePacket
import Libmoon.Ring.Slots
import Libmoon.Foundation.Custody
import Libmoon.Timestamping.MeasureLatency
import Libmoon.Foundation.StructLayout
import Libmoon.Device.Config
import Libmoon.Foundation.OnesComplement
import Libmoon.Packet.TcpChecksum
import Libmoon.Device.Filter
import Libmoon.Stats.OutputFiles
import Libmoon.Driver.SplitRegisters
import Libmoon.Pcap.SingleRead
import Libmoon.Icmp.Responder
import Libmoon.Icmp.Network
import Libmoon.Timestamping.ClockSync
import Libmoon.Device.ReceiveTimestamps
import Libmoon.Foundation.NetworkOrder
import Libmoon.Packet.TcpOptions
import Libmoon.Packet.TcpOptionsRoundTrip
import Libmoon.Ipfix.TemplateSets
import Libmoon.Ipfix.DataSets
import Libmoon.Sflow.Iteration
import Libmoon.Foundation.FieldBytes
import Libmoon.Packet.StoredFields
import Libmoon.Packet.VlanHeaders
import Libmoon.Packet.PtpHeader
import Libmoon.Packet.DnsHeader
import Libmoon.Foundation.Doubles
import Libmoon.Foundation.RunLength
import Libmoon.Stats.Histogram
import Libmoon.Packet.Ip6Arithmetic
import Libmoon.Foundation.DigitOrder
import Libmoon.Packet.Ip6Order
import Libmoon.Packet.Ip4Text
import Libmoon.Packet.MacAddresses
import Libmoon.Packet.SflowHeader
import Libmoon.Ipsec.Vpn
import Libmoon.Foundation.Outcome
import Libmoon.Ipsec.RegisterBits
import Libmoon.Ipsec.Registers
import Libmoon.Ipsec.SecurityTables
import Libmoon.Ipsec.SecurityOutcomes
import Libmoon.Ipsec.SecurityRuns
import Libmoon.InterTask.Lifecycle
import Libmoon.Device.RssQueues
import Libmoon.Memory.AllocMbufs
import Libmoon.Memory.BufArrays
import Libmoon.Device.QueueRates
import Libmoon.Lpm.Bitmask
import Libmoon.Lpm.DecrementTTL
import Libmoon.Foundation.CsvRecord
import Libmoon.Utils.ToCsv
import Libmoon.Foundation.LuaText
import Libmoon.Hyperscan.Rules
import Libmoon.Foundation.DelimitedRecords
import Libmoon.Packet.StructNames
import Libmoon.Packet.StackNames
import Libmoon.Foundation.Linearizability
import Libmoon.Foundation.LinkedRing
import Libmoon.Foundation.BitSmear
import Libmoon.FastPipe.Queue
import Libmoon.FastPipe.Blocks
import Libmoon.FastPipe.Layout
import Libmoon.FastPipe.ProducerSteps
import Libmoon.FastPipe.ConsumerSteps
import Libmoon.FastPipe.Linearizable
import Libmoon.FastPipe.Reservation
import Libmoon.FastPipe.Histories
import Libmoon.InterTask.Tasks
import Libmoon.Foundation.LockedSections
import Libmoon.Foundation.HexFloat
import Libmoon.Foundation.LuaQuote
import Libmoon.Serpent.Syntax
import Libmoon.Serpent.Parser
import Libmoon.Serpent.Dump
import Libmoon.Serpent.Chunks
import Libmoon.Serpent.Load
import Libmoon.Serpent.Making
import Libmoon.Serpent.RoundTrip
import Libmoon.Serpent.Records
import Libmoon.InterTask.Locks
import Libmoon.Stats.CounterIds
import Libmoon.Memory.MempoolCache

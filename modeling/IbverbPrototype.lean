import IbverbPrototype.Foundations.ShiftRegister
import IbverbPrototype.Foundations.ByteOrder
import IbverbPrototype.Foundations.CheckedMemory
import IbverbPrototype.Foundations.FormattedText
import IbverbPrototype.Foundations.LossyChannel
import IbverbPrototype.Roce.RawPacket
import IbverbPrototype.Roce.Crc32
import IbverbPrototype.Roce.HeaderChecksum
import IbverbPrototype.Roce.HostSend
import IbverbPrototype.Roce.HostFrames
import IbverbPrototype.Roce.InvariantHeaders
import IbverbPrototype.Roce.HeaderDecoding
import IbverbPrototype.Roce.PacketChecksum
import IbverbPrototype.Roce.FlippedBits
import IbverbPrototype.Rdma.BufferOwnership
import IbverbPrototype.Rdma.GidHandoff
import IbverbPrototype.Rdma.BufferPartition
import IbverbPrototype.Rdma.ClientServer
import IbverbPrototype.Rdma.InlineSend
import IbverbPrototype.Rdma.LoopEnd
import IbverbPrototype.Rdma.PostSlice
import IbverbPrototype.Rdma.ProgramEnd
import IbverbPrototype.Rdma.Progress
import IbverbPrototype.Rdma.RawClient
import IbverbPrototype.Rdma.ReceivedData
import IbverbPrototype.Rdma.ReportedAddress
import IbverbPrototype.Rdma.RingConservation
import IbverbPrototype.Rdma.ServerReport
import IbverbPrototype.Udp.ChecksumLaw
import IbverbPrototype.Udp.ChecksumExtent
import IbverbPrototype.Udp.RawUdp
import IbverbPrototype.Udp.FieldOrder
import IbverbPrototype.Udp.DatagramServer
import IbverbPrototype.Udp.Exchange
import IbverbPrototype.Udp.SenderPrograms
import IbverbPrototype.Address.LocalLookup
import IbverbPrototype.Address.CommandLines
import IbverbPrototype.Fpga.HostSchedule
import IbverbPrototype.Fpga.LocalArray
import IbverbPrototype.Fpga.PathAgreement
import IbverbPrototype.Fpga.KernelFrames

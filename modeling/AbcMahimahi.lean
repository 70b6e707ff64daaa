import AbcMahimahi.ClosedLoop
import AbcMahimahi.Frontend.Fluid
import AbcMahimahi.Frontend.CellularLink
import AbcMahimahi.Frontend.LogReadable
import AbcMahimahi.Frontend.BestMatch
import AbcMahimahi.Frontend.DelayQueue
import AbcMahimahi.Frontend.Replay
import AbcMahimahi.Frontend.Record
import AbcMahimahi.Frontend.Shells
import AbcMahimahi.Http.ChunkedAccepts
import AbcMahimahi.Http.Pairing
import AbcMahimahi.Http.Assertions
import AbcMahimahi.Http.Reparse
import AbcMahimahi.Http.Trailers
import AbcMahimahi.Packet.AveragingWindows
import AbcMahimahi.Packet.Checksum
import AbcMahimahi.Packet.CodelHistory
import AbcMahimahi.Packet.DropHead
import AbcMahimahi.Packet.PieWork
import AbcMahimahi.Packet.QueueArgs
import AbcMahimahi.Packet.RateWindows
import AbcMahimahi.Packet.WeightedBounds
import AbcMahimahi.Packet.WeightedOrder
import AbcMahimahi.Tcp.AbcWindow
import AbcMahimahi.Tcp.CubicTarget
import AbcMahimahi.Tcp.CubicWindow
import AbcMahimahi.Tcp.Echo
import AbcMahimahi.Tcp.HystartRounds
import AbcMahimahi.Tcp.Pacing
import AbcMahimahi.Util.BytestreamQueue
import AbcMahimahi.Util.DnsProxy
import AbcMahimahi.Util.EventLoop

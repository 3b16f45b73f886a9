import UwbApps.Lib.Octets
import UwbApps.Lib.Packed
import UwbApps.Lib.Run
import UwbApps.Lib.BlockPool
import UwbApps.Lib.OneSlotFilter
import UwbApps.Lib.CFloat
import UwbApps.Os.Mbuf
import UwbApps.Backhaul.Types
import UwbApps.Backhaul.Send
import UwbApps.Backhaul.State
import UwbApps.Backhaul.Blocks
import UwbApps.Backhaul.Semaphore
import UwbApps.Backhaul.Repeats
import UwbApps.Backhaul.Wakeup
import UwbApps.Os.Callout
import UwbApps.TdoaTag.Main
import UwbApps.Lib.Reads
import UwbApps.Backhaul.Print
import UwbApps.Lib.Writes
import UwbApps.Listener.Capture
import UwbApps.Listener.Cir
import UwbApps.Listener.Diag
import UwbApps.Lib.Deferred
import UwbApps.Config.Callbacks
import UwbApps.TwrNodeTdma.Main
import UwbApps.Streaming.Counts
import UwbApps.Listener.Settings
import UwbApps.Lib.Json
import UwbApps.Lib.Decimal
import UwbApps.Backhaul.PrintDecimal
import UwbApps.Backhaul.PrintJson
import UwbApps.Listener.Report
import UwbApps.Listener.ReportJson
import UwbApps.Listener.CaptureSpi
import UwbApps.Listener.Phase
import UwbApps.Listener.History
import UwbApps.Listener.Residue
import UwbApps.Backhaul.Ranges
import UwbApps.Backhaul.Timeout
import UwbApps.Backhaul.Bridge
import UwbApps.Rtdoa.Slots
import UwbApps.RtdoaTag.Main
import UwbApps.Lib.Hex
import UwbApps.Listener.Payload
import UwbApps.Lib.Numeral
import UwbApps.Listener.Numbers
import UwbApps.Listener.Scripts
import UwbApps.Listener.Output
import UwbApps.Listener.Blocks
import UwbApps.Lib.Lines
import UwbApps.Listener.Feed
import UwbApps.Lib.Wrap
import UwbApps.Listener.Datagram
import UwbApps.Listener.AdjustedPd
import UwbApps.Backhaul.Distances
import UwbApps.Backhaul.SensorRange
import UwbApps.RtdoaTag.Battery
import UwbApps.Lib.Log
import UwbApps.Backhaul.Imu
import UwbApps.TwrNodeTdma.Angle
import UwbApps.Lib.Smoothing
import UwbApps.Config.Orders
import UwbApps.Backhaul.Delivery
import UwbApps.Backhaul.LogLines
import UwbApps.Lib.Ascii
import UwbApps.Lib.Mailbox
import UwbApps.Lib.RateLimit
import UwbApps.Listener.Console
import UwbApps.Listener.Viewer
import UwbApps.RtdoaTag.SensorTimer
import UwbApps.Lib.Conf
import UwbApps.Lib.Turns
import UwbApps.Listener.Persist
import UwbApps.Os.Tdma
import UwbApps.Rtdoa.Airtime
import UwbApps.TwrNrangesTdma.Main

import Odtone.Dns.FrameBuffer
import Odtone.Dns.RecordData
import Odtone.Dns.ResolverCache
import Odtone.Nlwrap.Bounds
import Odtone.Nlwrap.Mac
import Odtone.Wire.Variant
import Odtone.Wire.TlvInPlace
import Odtone.Wire.Allocation
import Odtone.Mihf.Countdown
import Odtone.Mihf.Once
import Odtone.Mihf.Listener
import Odtone.Mihf.Books
import Odtone.LinkSap.Interfaces
import Odtone.Mihf.LinkList
import Odtone.Mihf.OptionalParams
import Odtone.Mihf.CapabilityExchange
import Odtone.Mihf.LinkIdentity
import Odtone.Mihf.EventRequests
import Odtone.Sap.UserRuns
import Odtone.Sap.TidSearch
import Odtone.NetworkManager.AllOrNothing
import Odtone.NetworkManager.RoundTrip
import Odtone.NetworkManager.L3Conf
import Odtone.Java.Serialization
import Odtone.Net.Icmp
import Odtone.Net.IpAddr
import Odtone.Net.Checksum
import Odtone.Net.Prefix
import Odtone.ListNode
import Odtone.Miis.RdfServer
import Odtone.Sap80211.ScanResults
import Odtone.Sap80211.ThresholdRuns
import Odtone.Sap80211.TimerTask
import Odtone.Nlwrap.Contents

import Xsocks.Acl.Lemmas.Decisions
import Xsocks.Acl.Lemmas.Policy
import Xsocks.Core.Lemmas.Config
import Xsocks.Core.Lemmas.Drain
import Xsocks.Core.Lemmas.HostPort
import Xsocks.Core.Lemmas.Resolve
import Xsocks.Core.Lemmas.Socket
import Xsocks.Core.Lemmas.Utils
import Xsocks.Event.Lemmas.Backend
import Xsocks.Event.Lemmas.Bookkeeping
import Xsocks.Event.Lemmas.Dispatch
import Xsocks.Event.Lemmas.LibevTimers
import Xsocks.Event.Lemmas.TimeEvents
import Xsocks.Event.Lemmas.Timer
import Xsocks.IpSet.Lemmas.Memory
import Xsocks.IpSet.Lemmas.Ops
import Xsocks.IpSet.Lemmas.Set
import Xsocks.Protocol.Lemmas.Aead
import Xsocks.Protocol.Lemmas.Base64
import Xsocks.Protocol.Lemmas.Codec
import Xsocks.Protocol.Lemmas.Grammar
import Xsocks.Protocol.Lemmas.Key
import Xsocks.Protocol.Lemmas.PpBloom
import Xsocks.Protocol.Lemmas.Replay
import Xsocks.Tcp.Lemmas.Accounting
import Xsocks.Tcp.Lemmas.AclRouting
import Xsocks.Tcp.Lemmas.AeadStream
import Xsocks.Tcp.Lemmas.ChunkLimit
import Xsocks.Tcp.Lemmas.ConnectOrder
import Xsocks.Tcp.Lemmas.DecryptRoom
import Xsocks.Tcp.Lemmas.EncryptedRelay
import Xsocks.Tcp.Lemmas.ErrorCause
import Xsocks.Tcp.Lemmas.FreshTail
import Xsocks.Tcp.Lemmas.Header
import Xsocks.Tcp.Lemmas.KeyStream
import Xsocks.Tcp.Lemmas.LocalStream
import Xsocks.Tcp.Lemmas.Peers
import Xsocks.Tcp.Lemmas.Routing
import Xsocks.Tcp.Lemmas.ServerStream
import Xsocks.Tcp.Lemmas.UseAfterFree
import Xsocks.Udp.Lemmas.Accounting
import Xsocks.Udp.Lemmas.BlockList
import Xsocks.Udp.Lemmas.Rejected
import Xsocks.Udp.Lemmas.Reply
import Xsocks.Udp.Lemmas.Timeout
import Xsocks.Udp.Lemmas.Tunnel

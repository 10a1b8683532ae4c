import Devent.Library.Run
import Devent.Library.Bytes
import Devent.Library.Keyed
import Devent.Library.Buckets
import Devent.Dlib.Hash
import Devent.Dlib.HashMap
import Devent.Dlib.HashMapProofs
import Devent.Dlib.HashMapCount
import Devent.Library.Links
import Devent.Dlib.LinkedList
import Devent.Dlib.LinkedListProofs
import Devent.Dlib.SparseArray
import Devent.Dlib.SparseArrayProofs
import Devent.Dlib.ArrayMap
import Devent.Dlib.ArrayMapRuns
import Devent.Library.ChainTable
import Devent.Dlib.HashSetResize
import Devent.Dlib.NumberSetProofs
import Devent.Dlib.ArrayListProofs
import Devent.Dlib.HashMapWalk
import Devent.Dlib.ArrayProofs
import Devent.Library.LongestRun
import Devent.Dlib.Ipv6Proofs
import Devent.Event.Buffer
import Devent.Event.BufferProofs
import Devent.Event.OutputStream
import Devent.Event.Locks
import Devent.Dns.CDns
import Devent.Dns.Containment
import Devent.Dns.Writing
import Devent.Dns.RoundTrip
import Devent.Dns.Query
import Devent.Dns.Termination
import Devent.Dns.Decompression
import Devent.Dns.Tables
import Devent.Dns.Records
import Devent.Dns.Response
import Devent.Dlib.Clib
import Devent.Dlib.Digits
import Devent.Dlib.Ports
import Devent.Dlib.Capacity
import Devent.Event.TlsHostname
import Devent.Event.Ipv4
import Devent.Dlib.InetAddr
import Devent.Event.Literals
import Devent.Docks.AuthFraming
import Devent.Docks.Credentials
import Devent.Docks.Agreement
import Devent.Docks.Pipelining
import Devent.Docks.Teardown
import Devent.Docks.Lifecycle
import Devent.Docks.OneRequest
import Devent.Docks.RequestBuffers
import Devent.Docks.Payload
import Devent.Docks.Reply
import Devent.Docks.DomainReply
import Devent.Docks.Config
import Devent.Docks.UsersFile
import Devent.Docks.Writers
import Devent.Event.DocketEvent
import Devent.Event.OutBuffer
import Devent.Event.WriteLoop
import Devent.Event.WakeUp
import Devent.Event.Hearing
import Devent.Event.Identity
import Devent.Event.Outcome
import Devent.Docks.SessionOutcome
import Devent.Docks.Commands
import Devent.Docks.AnyServer
import Devent.Docks.TunnelProofs
import Devent.Dlib.HashMapValues
import Devent.Dns.FirstIp
import Devent.Event.DnsServer
import Devent.Event.LoopRuns

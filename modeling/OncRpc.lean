import OncRpc.Base.Buffer
import OncRpc.Base.Word
import OncRpc.Base.RecordMarking
import OncRpc.Base.Fallible
import OncRpc.Base.Chain
import OncRpc.Base.CString
import OncRpc.Base.Keyed
import OncRpc.Base.Slots
import OncRpc.Base.Heap
import OncRpc.Xdr.Stream
import OncRpc.Xdr.Mem
import OncRpc.Xdr.Filters
import OncRpc.Xdr.Offsets
import OncRpc.Xdr.FilterCodec
import OncRpc.Xdr.TypeLanguage
import OncRpc.Xdr.TypeRoundTrip
import OncRpc.Xdr.Sink
import OncRpc.Xdr.Block
import OncRpc.Rec.Transport
import OncRpc.Rec.Stream
import OncRpc.Rec.Input
import OncRpc.Rec.Reader
import OncRpc.Rec.Holding
import OncRpc.Rec.Writer
import OncRpc.Rec.PutScript
import OncRpc.Rec.PutRecords
import OncRpc.Rec.ReadScript
import OncRpc.Rec.Alignment
import OncRpc.Rec.RoundTrip
import OncRpc.Rec.Getrec
import OncRpc.Rec.Accepted
import OncRpc.Rec.Reassembly
import OncRpc.Rec.Sink
import OncRpc.Svc.Vc
import OncRpc.Rpc.CallMsg
import OncRpc.Rpc.CallMsgEncode
import OncRpc.Rpc.Placement
import OncRpc.Rpc.Probe
import OncRpc.Rpc.ReplyMsg
import OncRpc.Rpc.Address
import OncRpc.Svc.Cache
import OncRpc.Svc.CacheRun
import OncRpc.Svc.Dg
import OncRpc.Svc.DgRun
import OncRpc.Svc.FdSet
import OncRpc.Svc.Xprt
import OncRpc.Svc.Register
import OncRpc.Svc.TableRun
import OncRpc.Svc.RunPoll
import OncRpc.Svc.Sendreply
import OncRpc.Rpcbind.Registry
import OncRpc.Rpc.RpcbProt
import OncRpc.Rpcbind.Directory
import OncRpc.Rpcbind.Unset
import OncRpc.Rpcbind.Coherence
import OncRpc.Rpcbind.Startup
import OncRpc.Rpcbind.Forward
import OncRpc.Rpcbind.ForwardTable
import OncRpc.Rpcbind.HandleReply
import OncRpc.Rpcbind.Polling
import OncRpc.Rpcbind.CheckBound
import OncRpc.Rpcbind.Security
import OncRpc.Rpcbind.Stat
import OncRpc.Rpcbind.Counters
import OncRpc.Rpcbind.Procedures
import OncRpc.Rpcbind.Callit
import OncRpc.Rpcbind.FindVersions
import OncRpc.Rpcbind.Service
import OncRpc.Rpcbind.Remote
import OncRpc.Rpcbind.Results
import OncRpc.Rpcbind.Answers
import OncRpc.Svc.Callout
import OncRpc.Svc.Getreq
import OncRpc.Rpc.Uaddr
import OncRpc.Auth.Unix
import OncRpc.Auth.Handle
import OncRpc.Clnt.Xid
import OncRpc.Net.ParseNcp
import OncRpc.Net.Netconfig
import OncRpc.Clnt.Broadcast
import OncRpc.Xdr.MemAddress
import OncRpc.Xdr.Pointers
import OncRpc.Xdr.StringBound
import OncRpc.Rpc.ListCodec
import OncRpc.Rpc.ListFaithful
import OncRpc.Rec.Bounds
import OncRpc.Svc.Rendezvous
import OncRpc.Base.Escaped
import OncRpc.Net.Tokens
import OncRpc.Net.Netpath
import OncRpc.Win32.Poll
import OncRpc.Base.Expression
import OncRpc.Base.Lookahead
import OncRpc.Rpcgen.Definitions
import OncRpc.Rpcgen.Cout
import OncRpc.Rpcgen.EmitStruct
import OncRpc.Rpcgen.InlineRun
import OncRpc.Rpcgen.Scan
import OncRpc.Rpcgen.Parse
import OncRpc.Rpcgen.Grammar
import OncRpc.Rpcgen.ParsePrinted
import OncRpc.Base.CTypes
import OncRpc.Rpcgen.Hout
import OncRpc.Rpcgen.Accepted
import OncRpc.Rpc.AddressBounds
import OncRpc.Xdr.Positions
import OncRpc.Rpcbind.Rmtcall
import OncRpc.Xdr.Sizeof
import OncRpc.Rpcbind.Sizeof
import OncRpc.Base.Runs
import OncRpc.Base.Recent
import OncRpc.Clnt.AddrCache
import OncRpc.Clnt.AddrCacheRun
import OncRpc.Rpcbind.Addrmerge
import OncRpc.Rpcbind.AddrmergeChoice
import OncRpc.Win32.Pipe
import OncRpc.Win32.PipeRun
import OncRpc.Win32.Descriptors
import OncRpc.Win32.DescriptorsRun
import OncRpc.Rec.Waiting
import OncRpc.Clnt.VcCall
import OncRpc.Clnt.VcCallRun
import OncRpc.Net.Getnetconfigent
import OncRpc.Base.Timeval
import OncRpc.Svc.CleanIdle
import OncRpc.Svc.Accepting
import OncRpc.Clnt.DgSchedule
import OncRpc.Clnt.Control
import OncRpc.Clnt.Verifiers
import OncRpc.Clnt.CreateVers
import OncRpc.Svc.FailedReg
import OncRpc.Svc.CacheHeap
import OncRpc.Svc.FdsetThreads
import OncRpc.Clnt.BcastRounds
import OncRpc.Rpcgen.InlineValues
import OncRpc.Rpcgen.GetToken
import OncRpc.Rpcgen.Layout
import OncRpc.Rpcgen.TypedefChain
import OncRpc.Rpcgen.NameArrays
import OncRpc.Rpcgen.ArraysFit
import OncRpc.Sthread.FreedOnce
import OncRpc.Base.Exclusive
import OncRpc.Sthread.Tls
import OncRpc.Sthread.OwnDestructor
import OncRpc.Sthread.Rwlock
import OncRpc.Sthread.Condition
import OncRpc.Base.OrderedMap
import OncRpc.Service.SimpleConfig
import OncRpc.Service.ConfigText
import OncRpc.Service.ConfigKeys
import OncRpc.Svc.Simple
import OncRpc.Svc.SimpleRun
import OncRpc.Xdr.Floating
import OncRpc.Base.Lines
import OncRpc.Service.Endpoint
import OncRpc.Service.LogLines
import OncRpc.Base.Scan
import OncRpc.Service.Limits
import OncRpc.Base.Calendar
import OncRpc.Compat.Timegm
import OncRpc.Service.Volumes
import OncRpc.Base.Journal
import OncRpc.Service.FileStream
import OncRpc.Service.Logger
import OncRpc.Service.LoggerRun
import OncRpc.Service.Arguments
import OncRpc.Service.Quoting
import OncRpc.Xdr.MemBounds
import OncRpc.Net.NetpathChain
import OncRpc.Base.Format
import OncRpc.Compat.Syslog
import OncRpc.Compat.SyslogFormat
import OncRpc.Compat.SyslogRun
import OncRpc.Svc.Authenticate
import OncRpc.Xdr.MemOffsets
import OncRpc.Clnt.Raw
import OncRpc.Clnt.RawRun

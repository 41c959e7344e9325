import PicoConduit.Transducer
import PicoConduit.Locality
import PicoConduit.Checked
import PicoConduit.Delimited
import PicoConduit.Heapless
import PicoConduit.Endian
import PicoConduit.Slots
import PicoConduit.TransmitBuffer
import PicoConduit.Tlv
import PicoConduit.MerkleDamgard
import PicoConduit.Rfc3174
import PicoConduit.Utf8
import PicoConduit.Json
import PicoConduit.JsonString
import PicoConduit.Base64
import PicoConduit.CharacterReferences
import PicoConduit.Html
import PicoConduit.HtmlElements
import PicoConduit.Protocol
import PicoConduit.Interfaces
import PicoConduit.Router
import PicoConduit.Operation
import PicoConduit.Handlers
import PicoConduit.Refinement
import PicoConduit.Inversion
import PicoConduit.Execution
import PicoConduit.Components
import PicoConduit.Session
import PicoConduit.Batch
import PicoConduit.History
import PicoConduit.Subscriptions
import PicoConduit.ReservedPins
import PicoConduit.SubscriptionIds
import PicoConduit.Replay
import PicoConduit.BatchLimit
import PicoConduit.Gate
import PicoConduit.FrameReader
import PicoConduit.Transport
import PicoConduit.Socket
import PicoConduit.WsTransport
import PicoConduit.FrameHeader
import PicoConduit.TcpTransport
import PicoConduit.ErrorRecovery
import PicoConduit.Wire
import PicoConduit.Base64Codec
import PicoConduit.Server
import PicoConduit.Serving
import PicoConduit.Spelling
import PicoConduit.ByValue
import PicoConduit.Reboot
import PicoConduit.BatchRequest
import PicoConduit.Client
import PicoConduit.Flash
import PicoConduit.PowerLoss
import PicoConduit.Dhcp
import PicoConduit.Backoff
import PicoConduit.Reconnect
import PicoConduit.Portal
import PicoConduit.FormBody
import PicoConduit.UrlDecoding
import PicoConduit.Http
import PicoConduit.Headers
import PicoConduit.WebSocket
import PicoConduit.AcceptKey
import PicoConduit.Requests
import PicoConduit.RequestBody
import PicoConduit.Provision
import PicoConduit.CutForm
import PicoConduit.PageForm
import PicoConduit.ScanForm
import PicoConduit.PortalTurn
import PicoConduit.Trace
import PicoConduit.Boot
import PicoConduit.Lifecycle
import PicoConduit.Signal
import PicoConduit.Led
import PicoConduit.Calls
import PicoConduit.JsonText
import PicoConduit.JsonRead
import PicoConduit.ResponseText
import PicoConduit.ClientCalls
import PicoConduit.CommandText
import PicoConduit.ClientApi
import PicoConduit.ClientSession
import PicoConduit.Conversation
import PicoConduit.Upgrade

import IKEv2.GoLang.Outcome
import IKEv2.GoLang.Slice
import IKEv2.GoLang.Loop
import IKEv2.GoLang.Records
import IKEv2.GoLang.BigEndian
import IKEv2.GoLang.Proc
import IKEv2.GoLang.NilFree
import IKEv2.GoLang.KeyedList
import IKEv2.GoLang.Crypto
import IKEv2.GoLang.HashStream
import IKEv2.GoLang.BigInt
import IKEv2.GoLang.Cbc
import IKEv2.GoLang.Channel
import IKEv2.Message.Types
import IKEv2.Message.Simple
import IKEv2.Message.Delete
import IKEv2.Message.Configuration
import IKEv2.Message.TrafficSelector
import IKEv2.Message.SecurityAssociation
import IKEv2.Message.Transforms
import IKEv2.Message.Proposals
import IKEv2.Message.BuildTransform
import IKEv2.Message.Overrun
import IKEv2.Eap.Methods
import IKEv2.Eap.AkaPrime
import IKEv2.Eap.Packet
import IKEv2.Eap.Attributes
import IKEv2.Eap.Store
import IKEv2.Eap.AkaMac
import IKEv2.Eap.Reread
import IKEv2.Eap.RoundTrip
import IKEv2.Eap.Boundaries
import IKEv2.Eap.SetRead
import IKEv2.Eap.LengthOctet
import IKEv2.Eap.Calls
import IKEv2.Eap.MacCheck
import IKEv2.Message.Payload
import IKEv2.Message.Container
import IKEv2.Message.NilFree
import IKEv2.Message.Header
import IKEv2.Message.Framing
import IKEv2.Message.Unknown
import IKEv2.Message.Kept
import IKEv2.Message.Build
import IKEv2.Message.KeptProposals
import IKEv2.Message.Stability
import IKEv2.Message.Survival
import IKEv2.Message.Builders
import IKEv2.Message.Crash
import IKEv2.Message.EncodeCrash
import IKEv2.Message.PeerCrash
import IKEv2.Security.Algorithms
import IKEv2.Security.AesCbc
import IKEv2.Security.PrfPlus
import IKEv2.Eap.Prf
import IKEv2.Security.KeySchedule
import IKEv2.Security.IkeKeys
import IKEv2.Security.ChildSA
import IKEv2.Security.Agreement
import IKEv2.Security.Supported
import IKEv2.Security.Registry
import IKEv2.Protect.Model
import IKEv2.Protect.Receive
import IKEv2.Protect.Acceptance
import IKEv2.Protect.History
import IKEv2.Protect.RoundTrip
import IKEv2.Protect.Failure
import IKEv2.Protect.Session
import IKEv2.Protect.Capacity
import IKEv2.Protect.Crash
import IKEv2.Protect.ParsedHeader
import IKEv2.Protect.Transparent
import IKEv2.Protect.Resend
import IKEv2.Exchange.SaInit
import IKEv2.Exchange.Children

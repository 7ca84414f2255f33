import Xwbot.Bus.StartTls
import Xwbot.Bus.Connection
import Xwbot.Bus.Core
import Xwbot.Bus.Classes
import Xwbot.Object.Linked
import Xwbot.Runs
import Xwbot.HashTable
import Xwbot.Object.TreeRun
import Xwbot.Parser.Serializer
import Xwbot.Parser.Totality
import Xwbot.Parser.Exactness
import Xwbot.Registry
import Xwbot.Object.Multicast
import Xwbot.Bus.Outgoing
import Xwbot.Bus.Reset
import Xwbot.Bus.Robustness
import Xwbot.Ice.Response
import Xwbot.Ice.Media
import Xwbot.Video.Loss
import Xwbot.Video.Interleaving
import Xwbot.Video.TheoraHeader
import Xwbot.Video.TheoraBounds
import Xwbot.Video.Descriptor
import Xwbot.Session.Keys
import Xwbot.Jingle.Terminate
import Xwbot.Jingle.Accept
import Xwbot.Parser.Walk
import Xwbot.Registry.PathListeners
import Xwbot.Object.Lookup
import Xwbot.Object.PathText
import Xwbot.Registry.Selection
import Xwbot.Rings
import Xwbot.Object.Teardown
import Xwbot.Object.Copy
import Xwbot.Registry.Removal
import Xwbot.Bus.ClassLookup
import Xwbot.Object.WriteOut
import Xwbot.Object.PathWalk
import Xwbot.CircBuf
import Xwbot.Ice.AttrArray
import Xwbot.Ice.RoundTrip
import Xwbot.Ice.ResponseShape
import Xwbot.Ice.Scratch
import Xwbot.Ice.Hmac
import Xwbot.Ice.Rtp
import Xwbot.Ice.Ports
import Xwbot.Presence
import Xwbot.Disco
import Xwbot.Bus.Features
import Xwbot.Bus.Jid
import Xwbot.Bus.Focus
import Xwbot.Bus.Discipline
import Xwbot.Bus.Scopes
import Xwbot.Hex
import Xwbot.AuthPlain
import Xwbot.AttrCells
import Xwbot.HashCells
import Xwbot.StringRuns
import Xwbot.Ice.Addresses
import Xwbot.Ice.Framing
import Xwbot.Ice.Reflexive
import Xwbot.Bus.Bind
import Xwbot.Jingle.CleanUp
import Xwbot.Jingle.Channels
import Xwbot.Bus.Delivery
import Xwbot.Crypt.Md5
import Xwbot.Ice.Crc32
import Xwbot.Ice.Rendezvous
import Xwbot.Bus.Arrival
import Xwbot.Video.Playback

import Socketpp.Sockbuf.Shutdown
import Socketpp.Smtp.Body
import Socketpp.Ftp.Segments
import Socketpp.Ftp.Framing
import Socketpp.Ftp.Eof
import Socketpp.Smtp.Reply
import Socketpp.Smtp.Framing
import Socketpp.Protocol.Finish
import Socketpp.Protocol.Commands
import Socketpp.Lib.StdList
import Socketpp.Sig.Model
import Socketpp.Sig.Registry
import Socketpp.Sig.Disposition
import Socketpp.Sig.Delivery
import Socketpp.Fork.Model
import Socketpp.Fork.Records
import Socketpp.Fork.Steps
import Socketpp.Fork.Linked
import Socketpp.Fork.Lifetime
import Socketpp.Fork.Reaping
import Socketpp.Fork.Kills
import Socketpp.Sockbuf.Copies
import Socketpp.Sockbuf.Methods
import Socketpp.Sockbuf.Sharing
import Socketpp.Sockbuf.Ledger
import Socketpp.Filelikebuf.Agreement
import Socketpp.Filelikebuf.Drift
import Socketpp.Sockbuf.Reached
import Socketpp.Sockbuf.Bulk
import Socketpp.Sockbuf.Failures
import Socketpp.Sockbuf.Inert
import Socketpp.Sockbuf.Putback
import Socketpp.Ftp.Bounds
import Socketpp.Sockinet.Binding
import Socketpp.Lib.Triple
import Socketpp.Sockbuf.Faults
import Socketpp.Ftp.Data
import Socketpp.Ftp.Transfers
import Socketpp.Ftp.Upload
import Socketpp.Ftp.Download
import Socketpp.Fork.Exit
import Socketpp.Fork.Structure
import Socketpp.Ftp.Files
import Socketpp.Ftp.Refused
import Socketpp.Lib.Decimal
import Socketpp.Sockinet.Address
import Socketpp.Ftp.Endpoint
import Socketpp.Ftp.Requests
import Socketpp.Ftp.Aside
import Socketpp.Ftp.Wire
import Socketpp.Sig.Masks
import Socketpp.Echo.Exact
import Socketpp.Sockbuf.Areas
import Socketpp.Lib.Istream
import Socketpp.Sockbuf.Ahead
import Socketpp.Smtp.Stream
import Socketpp.Lib.Offers
import Socketpp.Sockbuf.Send
import Socketpp.Connection.Account
import Socketpp.Connection.Echo
import Socketpp.Lib.Dialogue
import Socketpp.Smtp.Session
import Socketpp.Ftp.Session
import Socketpp.Smtp.Lockstep
import Socketpp.Lib.Trail
import Socketpp.Sockbuf.Direct
import Socketpp.Sockbuf.Waits
import Socketpp.Ftp.Rendezvous
import Socketpp.Echo.Clients
import Socketpp.Ftp.Sockets
import Socketpp.Sockbuf.Howmany
import Socketpp.Ftp.Dead
import Socketpp.Ftp.Reports

import HttpExchange.Address
import HttpExchange.Broker
import HttpExchange.Call.Redirect
import HttpExchange.Call.Turn
import HttpExchange.CallError
import HttpExchange.Document.Node
import HttpExchange.Document.Scalar
import HttpExchange.Document.Spot
import HttpExchange.Document.Token
import HttpExchange.Header
import HttpExchange.IoError
import HttpExchange.Link
import HttpExchange.Listen
import HttpExchange.Loopback
import HttpExchange.Method
import HttpExchange.Network
import HttpExchange.Options
import HttpExchange.Outgoing
import HttpExchange.Pool
import HttpExchange.Pool.Acquire
import HttpExchange.Reply
import HttpExchange.Reply.Head
import HttpExchange.Reply.Reader
import HttpExchange.Request
import HttpExchange.Request.Head
import HttpExchange.Response
import HttpExchange.Response.Delivery
import HttpExchange.Response.Wire
import HttpExchange.Schedule
import HttpExchange.Session
import HttpExchange.Settings
import HttpExchange.Status
import HttpExchange.Stream
import HttpExchange.Text.Ascii
import HttpExchange.Text.Blank
import HttpExchange.Text.Numeral
import HttpExchange.Text.Utf8
import HttpExchange.Url.Basic
import HttpExchange.Url.Host
import HttpExchange.Url.Parse
import HttpExchange.Url.Percent
import HttpExchange.Main
import HttpExchange.Proofs.Text.Blank
import HttpExchange.Proofs.Text.Numeral
import HttpExchange.Proofs.Text.Utf8
import HttpExchange.Proofs.Header
import HttpExchange.Proofs.Stream.Arrivals
import HttpExchange.Proofs.Head.Form
import HttpExchange.Proofs.Head.Writable
import HttpExchange.Proofs.Head.Resume
import HttpExchange.Proofs.Head.Finish
import HttpExchange.Proofs.Head.StartLine
import HttpExchange.Proofs.Head.FieldLines
import HttpExchange.Proofs.Head.Grammar
import HttpExchange.Proofs.Head.Accepted
import HttpExchange.Proofs.Request.Length
import HttpExchange.Proofs.Session.Dispatch
import HttpExchange.Proofs.Response.Delivered
import HttpExchange.Proofs.Session.Conclusion
import HttpExchange.Proofs.Outgoing.Written
import HttpExchange.Proofs.Reply.HeadText
import HttpExchange.Proofs.Reply.Resume
import HttpExchange.Proofs.Reply.Written
import HttpExchange.Proofs.Link.Receive
import HttpExchange.Proofs.Response.Received
import HttpExchange.Proofs.Pool.Shelves
import HttpExchange.Proofs.Link.Usage
import HttpExchange.Proofs.Traffic.Basic
import HttpExchange.Proofs.Traffic.Later
import HttpExchange.Proofs.Traffic.Sound
import HttpExchange.Proofs.Traffic.Custody
import HttpExchange.Proofs.Traffic.Reset
import HttpExchange.Proofs.Traffic.Proxy
import HttpExchange.Proofs.Traffic.Alone
import HttpExchange.Proofs.Link.Cut
import HttpExchange.Proofs.Link.Moves
import HttpExchange.Proofs.Link.Marked
import HttpExchange.Proofs.Traffic.Strokes
import HttpExchange.Proofs.Traffic.Unusable
import HttpExchange.Proofs.Traffic.Addresses
import HttpExchange.Proofs.Traffic.Forgotten
import HttpExchange.Proofs.Calls.Basic
import HttpExchange.Proofs.Calls.Record
import HttpExchange.Proofs.Calls.Alone
import HttpExchange.Proofs.Calls.Clean
import HttpExchange.Proofs.Calls.Credentials
import HttpExchange.Proofs.Url.Plain
import HttpExchange.Proofs.Outgoing.Managed
import HttpExchange.Proofs.Head.Plain
import HttpExchange.Proofs.Response.Reflected
import HttpExchange.Proofs.Calls.Course
import HttpExchange.Proofs.Traffic.Failures
import HttpExchange.Proofs.Calls.Threads
import HttpExchange.Proofs.Link.Held
import HttpExchange.Proofs.Calls.Redirects
import HttpExchange.Proofs.Response.Resumed
import HttpExchange.Proofs.Link.BodyLimit
import HttpExchange.Proofs.Traffic.Cached
import HttpExchange.Proofs.Link.HeadLimit
import HttpExchange.Proofs.Response.Mirrored
import HttpExchange.Proofs.Link.DeclaredLength
import HttpExchange.Proofs.Traffic.Closing
import HttpExchange.Proofs.Pool.Search
import HttpExchange.Proofs.Traffic.Newest
import HttpExchange.Proofs.Pool.Beside
import HttpExchange.Proofs.Traffic.Fruitless
import HttpExchange.Proofs.Head.Bounded
import HttpExchange.Proofs.Response.HeadLines
import HttpExchange.Proofs.Response.Built
import HttpExchange.Proofs.Request.Decoded
import HttpExchange.Proofs.Session.Buffer
import HttpExchange.Proofs.Link.Await
import HttpExchange.Proofs.Link.Ends

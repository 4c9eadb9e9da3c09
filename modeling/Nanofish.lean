import Nanofish.Rust.Outcome
import Nanofish.Rust.Pattern
import Nanofish.Rust.Utf8
import Nanofish.Rust.Text
import Nanofish.Rust.Reads
import Nanofish.Rust.Iter
import Nanofish.Rust.Words
import Nanofish.Protocol
import Nanofish.Codes
import Nanofish.Response
import Nanofish.Codec
import Nanofish.HeaderBlock
import Nanofish.Parsing
import Nanofish.ParsedHeaders
import Nanofish.Client
import Nanofish.Request
import Nanofish.Receiving
import Nanofish.Lengths
import Nanofish.Server
import Nanofish.Accepting
import Nanofish.RequestFields
import Nanofish.Segmentation
import Nanofish.RoundTrip
import Nanofish.Dechunk
import Nanofish.ChunkedMessage
import Nanofish.ChunkedReception
import Nanofish.RequestRoundTrip
import Nanofish.Writing
import Nanofish.Query
import Nanofish.PercentDecode
import Nanofish.Builder
import Nanofish.Seeding
import Nanofish.Retries
import Nanofish.Serving
import Nanofish.HeadReplies
import Nanofish.Injection
import Nanofish.Authority
import Nanofish.Urls
import Nanofish.ChunkedBodies
import Nanofish.Framing
import Nanofish.Transport
import Nanofish.Messages
import Nanofish.Exchanges
import Nanofish.Rust.Machine
import Nanofish.ServeLoop
import Nanofish.Rust.Polling
import Nanofish.Smoltcp.Calls
import Nanofish.Smoltcp.Exchanges
import Nanofish.Interleaved.Liveness
import Nanofish.Heads
import Nanofish.Relay
import Nanofish.Forms
import Nanofish.Visits

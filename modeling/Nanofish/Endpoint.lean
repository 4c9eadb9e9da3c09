import Nanofish.Client

/-! URLs and the client that connects by itself: `parse_endpoint` of client/io.rs and
client/embassy.rs. The network stack and the TLS layer are parameters; timeouts, delays
and the closing of a connection change nothing that is sent or returned. -/
namespace Nanofish.Endpoint
open Rust Rust.Utf8 Rust.Text
open Protocol Codes Client

def defaultHttpPort : Nat := 80
def defaultHttpsPort : Nat := 443

structure HttpEndpoint where
  scheme : Str
  host : Str
  port : Nat
  path : Str
  deriving DecidableEq, Repr

-- The three steps of `parse_endpoint`: scheme, then host and path, then the port.
def splitScheme (endpoint : Str) : Outcome Error (Str × Str) :=
  match stripPrefix "http://".toList endpoint with
  | some rest => .ok ("http".toList,rest)
  | none => match stripPrefix "https://".toList endpoint with
    | some rest => .ok ("https".toList,rest)
    | none => .err .invalidUrl

-- What stands behind the last colon may be no port; then it belongs to the host.
def splitPort (host : Str) (defaultPort : Nat) : Outcome Error (Str × Nat) := match rfind ':' host with
  | none => .ok (host,defaultPort)
  | some colonPos => do
    let text ← strFrom host (colonPos + 1)
    match fromStrRadix 10 maxU16 text with
    | none => .ok (host,defaultPort)
    | some port => do
      let name ← strTo host colonPos
      .ok (name,port)

def parseEndpoint (endpoint : Str) : Outcome Error HttpEndpoint := do
  let (scheme,hostPort) ← splitScheme endpoint
  let host ← Outcome.ofOption .invalidUrl (hostPort.splitOn '/').head?
  let path ← strFrom hostPort (byteLen host)
  let path := if path.isEmpty then "/".toList else path
  let defaultPort := if scheme = "https".toList then defaultHttpsPort else defaultHttpPort
  let (host,port) ← splitPort host defaultPort
  .ok ⟨scheme,host,port,path⟩

inductive DnsQueryType where
  | A | Aaaa
  deriving DecidableEq, Repr

/- Name lookups, connections to an address and port, and the TLS handshake on a
connection, which is there with the `tls` feature only and names its own errors. -/
structure Network (Addr : Type) where
  query : Str → DnsQueryType → Option (List Addr)
  connect : Addr → Nat → Option Stream
  tlsOpen : Option (Str → Stream → Except Error Stream)

section Request
variable {Addr : Type} (net : Network Addr)

def resolveHost (host : Str) : Except Error Addr := match net.query host .A with
  | some (addr :: _) => .ok addr
  | _ => match net.query host .Aaaa with
    | none => .error .dnsError
    | some [] => .error .ipAddressEmpty
    | some (addr :: _) => .ok addr

def connectTo (host : Str) (port : Nat) : Except Error Stream := do
  let addr ← resolveHost net host
  match net.connect addr port with
  | none => .error .connectionError
  | some socket => .ok socket

variable (t : Target) (RQ maxRetries : Nat) (method : HttpMethod)

def makeHttpRequest (hostPort : Str × Nat) (path : Str) (headers : List HttpHeader) (body : Option Bytes)
    (responseBuffer : Bytes) : Exchange :=
  let (host,port) := hostPort
  match connectTo net host port with
  | .error e => ⟨.err e,[],0⟩
  | .ok socket =>
    requestWithRetryDelay t RQ maxRetries socket ⟨method,host,path,headers,body⟩ responseBuffer

def makeHttpsRequest (tlsOpen : Str → Stream → Except Error Stream) (hostPort : Str × Nat) (path : Str)
    (headers : List HttpHeader) (body : Option Bytes) (responseBuffer : Bytes) : Exchange :=
  let (host,port) := hostPort
  match connectTo net host port with
  | .error e => ⟨.err e,[],0⟩
  | .ok socket => match tlsOpen host socket with
    | .error e => ⟨.err e,[],0⟩
    | .ok tls => requestWithRetryDelay t RQ maxRetries tls ⟨method,host,path,headers,body⟩ responseBuffer

def EmbassyHttpClient.request (endpoint : Str) (headers : List HttpHeader) (body : Option Bytes)
    (responseBuffer : Bytes) :
    Exchange :=
  match parseEndpoint endpoint with
  | .err e => ⟨.err e,[],0⟩
  | .panic => ⟨.panic,[],0⟩
  | .pending => ⟨.pending,[],0⟩
  | .ok endpoint =>
    if endpoint.scheme = "https".toList then match net.tlsOpen with
      | none => ⟨.err (.unsupportedScheme "https (TLS support not enabled)"),[],0⟩
      | some tlsOpen =>
        makeHttpsRequest net t RQ maxRetries method tlsOpen (endpoint.host,endpoint.port)
          endpoint.path headers
          body responseBuffer
    else if endpoint.scheme = "http".toList then
      makeHttpRequest net t RQ maxRetries method (endpoint.host,endpoint.port) endpoint.path headers
        body responseBuffer
    else ⟨.err (.unsupportedScheme "unknown"),[],0⟩

end Request
end Nanofish.Endpoint

import Nanofish.Codes

/-! The server's request parser: request.rs without the query helpers. -/
namespace Nanofish.Request
open Rust Rust.Utf8 Rust.Text
open Protocol Codes

structure HttpRequest where
  method : HttpMethod
  path : Str
  version : Str
  headers : Vec HttpHeader maxHeaders
  body : Bytes
  deriving DecidableEq, Repr

def HttpRequest.header (r : HttpRequest) (name : Str) : Option Str :=
  (r.headers.items.find? fun header => eqIgnoreAsciiCase header.name name).map HttpHeader.value

def HttpRequest.contentLength (t : Target) (r : HttpRequest) : Option Nat := do
  let value ← r.header contentLengthName
  fromStrRadix 10 t.usizeMax value

-- Header lines up to the first empty one; a seventeenth field is an error.
def parseFields : List Str → Vec HttpHeader maxHeaders → Outcome Error (Vec HttpHeader maxHeaders)
  | [], headers => .ok headers
  | line :: rest, headers =>
    if line = [] then .ok headers else do
      match ← splitField line with
      | none => parseFields rest headers
      | some header => do
        let headers ← Outcome.ofOption (.invalidResponse "Too many headers") (headers.push header)
        parseFields rest headers

def HttpRequest.parseFrom (headersStr : Str) (body : Bytes) : Outcome Error HttpRequest :=
  match lines headersStr with
  | [] => .err (.invalidResponse "Missing request line")
  | requestLine :: rest => do
    let parts := splitWhitespace requestLine
    let methodStr ← Outcome.ofOption (.invalidResponse "Missing method") parts[0]?
    let path ← Outcome.ofOption (.invalidResponse "Missing path") parts[1]?
    let version ← Outcome.ofOption (.invalidResponse "Missing version") parts[2]?
    let method ← Outcome.ofOption (.invalidResponse "Unknown HTTP method") (HttpMethod.tryFrom methodStr)
    let headers ← parseFields rest Vec.new
    .ok ⟨method,path,version,headers,body⟩

def HttpRequest.tryFrom (buffer : Bytes) : Outcome Error HttpRequest := do
  let endOfHeaders ← Outcome.ofOption (.invalidResponse "Incomplete request headers")
    (findDoubleCrlf buffer)
  let headerBytes ← sliceTo buffer endOfHeaders
  let headersStr ← Outcome.ofOption (.invalidResponse "Invalid UTF-8 in request") (fromUtf8 headerBytes)
  let body ← sliceFrom buffer (endOfHeaders + doubleCrlfLen)
  HttpRequest.parseFrom headersStr body

end Nanofish.Request

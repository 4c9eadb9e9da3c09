import Nanofish.Response

/-! Codec of the client: codec.rs. Slices, subtractions and the additions on
attacker-controlled sizes can panic here as they can in the source; an addition of
two lengths of one buffer is written without its check. -/
namespace Nanofish.Codec
open Rust Rust.Utf8 Rust.Text Rust.Pattern
open Protocol Codes Response

def contentType (headers : List HttpHeader) : Option Str :=
  (headers.find? fun h => eqIgnoreAsciiCase h.name contentTypeName).map HttpHeader.value

def isText (contentType : Str) : Bool :=
  "text/".toList.isPrefixOf contentType || "application/json".toList.isPrefixOf contentType ||
    "application/xml".toList.isPrefixOf contentType ||
    "application/x-www-form-urlencoded".toList.isPrefixOf contentType

def textOrBin (bodyData : Bytes) : ResponseBody := match fromUtf8 bodyData with
  | some s => .text s
  | none => .binary bodyData

def parseBody (headers : List HttpHeader) (bodyData : Bytes) : ResponseBody :=
  if bodyData.isEmpty then .empty else
    match contentType headers with
    | none => textOrBin bodyData
    | some ct => if isText ct then textOrBin bodyData else .binary bodyData

-- The header loop stops silently when the list is full.
def pushFields : List Str → Vec HttpHeader maxHeaders → Outcome Error (Vec HttpHeader maxHeaders)
  | [], headers => .ok headers
  | line :: rest, headers => do
    match ← splitField line with
    | none => pushFields rest headers
    | some header => match headers.push header with
      | none => .ok headers
      | some headers => pushFields rest headers

def statusFrom (value : Str) : Outcome Error StatusCode := match StatusCode.tryFrom value with
  | .ok status => .ok status
  | .error e => .err e

def parseResp (data : Bytes) : Outcome Error HttpResponse := do
  let pos ← Outcome.ofOption (.invalidResponse "Invalid HTTP response format") (findDoubleCrlf data)
  let headersEnd := pos + doubleCrlfLen
  let headerBytes ← sliceTo data headersEnd
  let responseStr ← Outcome.ofOption (.invalidResponse "Invalid HTTP response encoding")
    (fromUtf8 headerBytes)
  let statusLineEnd ← Outcome.ofOption (.invalidResponse "Invalid HTTP response format")
    (findCrlf headerBytes)
  let statusLine ← strTo responseStr statusLineEnd
  let statusCodeStr ← Outcome.ofOption (.invalidResponse "Invalid HTTP status line")
    (splitWhitespace statusLine)[1]?
  let statusCode ← statusFrom statusCodeStr
  let sectionEnd ← Target.sub headersEnd doubleCrlfLen
  let headersSection ← strRange responseStr (statusLineEnd + crlfLen) sectionEnd
  let headers ← pushFields (splitCrlf headersSection) Vec.new
  let bodyData ← if headersEnd < data.length then sliceFrom data headersEnd else .ok []
  .ok ⟨statusCode,headers,parseBody headers.items bodyData⟩

def chunked (data : Bytes) : Bool := match findDoubleCrlf data with
  | none => false
  | some pos => match fromUtf8 (data.take (pos + doubleCrlfLen)) with
    | none => false
    | some headersStr => match findHeaderValue headersStr transferEncoding with
      | none => false
      | some value =>
        (value.splitOn ',').any fun encoding => eqIgnoreAsciiCase (trim encoding) chunkedCoding

section Width
variable (t : Target)

def contentLength (headerBytes : Bytes) : Option Nat := do
  let headersStr ← fromUtf8 headerBytes
  let value ← findHeaderValue headersStr contentLengthName
  fromStrRadix 10 t.usizeMax value

def complete (data : Bytes) : Bool := match findDoubleCrlf data with
  | none => false
  | some pos =>
    let headersEnd := pos + doubleCrlfLen
    if chunked data then contains chunkedEndMarker data
    else match contentLength t (data.take headersEnd) with
      | none => false
      | some contentLength => decide (contentLength ≤ data.length - headersEnd)

def declaresLength (data : Bytes) : Bool := match findDoubleCrlf data with
  | none => false
  | some pos => chunked data || (contentLength t (data.take (pos + doubleCrlfLen))).isSome

/- One turn of the chunk loop. The size line is read from the buffer that earlier
turns have already moved chunks in. -/
structure DechunkState where
  buffer : Bytes
  readPos : Nat
  writePos : Nat
  deriving DecidableEq, Repr

inductive DechunkStep where
  | stop
  | next (s : DechunkState)
  deriving DecidableEq, Repr

def chunkSize (line : Bytes) : Outcome Error Nat := do
  let s ← Outcome.ofOption (.invalidResponse "Invalid chunk size encoding") (fromUtf8 line)
  let sizePart := trim (((trim s).splitOn ';').headD "0".toList)
  Outcome.ofOption (.invalidResponse "Invalid chunk size") (fromStrRadix 16 t.usizeMax sizePart)

def dechunkStep (totalRead : Nat) (s : DechunkState) : Outcome Error DechunkStep :=
  if s.readPos < totalRead then do
    let unread ← slice s.buffer s.readPos totalRead
    match findCrlf unread with
    | none => .ok .stop
    | some pos =>
      let chunkLineEnd := s.readPos + pos
      let line ← slice s.buffer s.readPos chunkLineEnd
      let size ← chunkSize t line
      if size = 0 then .ok .stop else do
        let chunkDataStart ← t.add chunkLineEnd crlfLen
        let chunkDataEnd ← t.add chunkDataStart size
        if totalRead < chunkDataEnd then .err (.invalidResponse "Incomplete chunked body") else do
          let buffer ←
            if s.writePos ≠ chunkDataStart then
            copyWithin s.buffer chunkDataStart chunkDataEnd s.writePos
            else .ok s.buffer
          let writePos ← t.add s.writePos size
          let readPos ← t.add chunkDataEnd crlfLen
          .ok (.next ⟨buffer,readPos,writePos⟩)
  else .ok .stop

def dechunkLoop (totalRead : Nat) : Nat → DechunkState → Outcome Error DechunkState
  | 0, _ => .pending
  | fuel+1, s => do
    match ← dechunkStep t totalRead s with
    | .stop => .ok s
    | .next s => dechunkLoop totalRead fuel s

def dechunk (buffer : Bytes) (totalRead : Nat) : Outcome Error (Nat × Bytes) := do
  let data ← sliceTo buffer totalRead
  if !chunked data then .ok (totalRead,buffer) else do
    let pos ← Outcome.ofOption (.invalidResponse "Invalid HTTP response format") (findDoubleCrlf data)
    let headersEnd := pos + doubleCrlfLen
    let s ← dechunkLoop t totalRead (totalRead + 1) ⟨buffer,headersEnd,headersEnd⟩
    .ok (s.writePos,s.buffer)

end Width

section Request
variable {RQ : Nat}

def pushStr (req : Vec UInt8 RQ) (s : Str) : Outcome Error (Vec UInt8 RQ) :=
  Outcome.ofOption .bufferOverflow (req.extend (asBytes s))

def pushRequestHeaders : List HttpHeader → Vec UInt8 RQ → Bool → Outcome Error (Vec UInt8 RQ × Bool)
  | [], req, hasLen => .ok (req,hasLen)
  | header :: rest, req, hasLen => do
    let req ← pushStr req header.name
    let req ← pushStr req headerSeparator
    let req ← pushStr req header.value
    let req ← pushStr req "\r\n".toList
    pushRequestHeaders rest req (hasLen || eqIgnoreAsciiCase header.name contentLengthName)

end Request

-- A `String<RQ>` is kept as the bytes it holds; the length digits pass a `String<8>`.
def buildReq (RQ : Nat) (method : HttpMethod) (host path : Str) (headers : List HttpHeader)
    (body : Option Bytes) : Outcome Error (Vec UInt8 RQ) := do
  let req ← pushStr Vec.new method.asStr
  let req ← pushStr req " ".toList
  let req ← pushStr req path
  let req ← pushStr req " HTTP/1.1\r\n".toList
  let req ← pushStr req "Host: ".toList
  let req ← pushStr req host
  let req ← pushStr req "\r\n".toList
  let (req,hasLen) ← pushRequestHeaders headers req false
  let req ←
    if !hasLen && body.isSome then do
      let req ← pushStr req contentLengthName
      let req ← pushStr req headerSeparator
      let len ← pushStr (Vec.new : Vec UInt8 8) (decimal (body.getD []).length)
      let req ← Outcome.ofOption .bufferOverflow (req.extend len.items)
      pushStr req "\r\n".toList
    else .ok req
  pushStr req "Connection: close\r\n\r\n".toList

end Nanofish.Codec

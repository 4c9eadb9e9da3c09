import Nanofish.Codec
import Nanofish.Rust.Reads

/-! One exchange of the client over a connected stream: client/io.rs. The stream is a
script of what its reads find and of how its writes end; the bytes it took are kept.
Only `max_retries` of the options is read here. -/
namespace Nanofish.Client
open Rust Rust.Utf8 Rust.Reads
open Protocol Codes Response Codec

inductive WriteEvent where
  | accept
  | fault (sent : Nat)
  deriving DecidableEq, Repr

structure Stream where
  reads : List (ReadEvent UInt8)
  writes : List WriteEvent
  written : Bytes
  deriving DecidableEq, Repr

-- `write_all` writes its argument once and in order, or fails on the way.
def Stream.writeAll (s : Stream) (data : Bytes) : Bool × Stream := match s.writes with
  | [] => (true,{ s with written := s.written ++ data })
  | .accept :: rest => (true,{ s with writes := rest, written := s.written ++ data })
  | .fault sent :: rest => (false,{ s with writes := rest, written := s.written ++ data.take sent })

def Stream.flush (s : Stream) : Bool × Stream := match s.writes with
  | [] => (true,s)
  | .accept :: rest => (true,{ s with writes := rest })
  | .fault _ :: rest => (false,{ s with writes := rest })

structure HttpClientRequest where
  method : HttpMethod
  host : Str
  path : Str
  headers : List HttpHeader
  body : Option Bytes
  deriving DecidableEq, Repr

structure ReadState where
  buffer : Bytes
  totalRead : Nat
  retries : Nat
  delays : Nat
  deriving DecidableEq, Repr

structure ReadRun where
  result : Outcome Error Nat
  buffer : Bytes
  delays : Nat
  deriving DecidableEq, Repr

section Width
variable (t : Target)

def readEnd (s : ReadState) (sawEof : Bool) : ReadRun :=
  let data := s.buffer.take s.totalRead
  let result : Outcome Error Nat :=
    if s.totalRead = 0 then .err .noResponse
    else if complete t data then .ok s.totalRead
    else if sawEof then
      if declaresLength t data then .err (.invalidResponse "Incomplete response body")
      -- No length was declared: connection close delimits the body.
      else .ok s.totalRead
    else .err .bufferOverflow
  ⟨result,s.buffer,s.delays⟩

/- A fragment that does not fit fills the buffer, and the loop then ends before the
rest of it could be read. -/
def readLoop (events : List (ReadEvent UInt8)) (s : ReadState) : ReadRun :=
  if s.totalRead < s.buffer.length ∧ 0 < s.retries then
    match events with
    | [] => ⟨.pending,s.buffer,s.delays⟩
    | .close :: _ => readEnd t s true
    | .data fragment :: rest =>
      let got := fragment.take (s.buffer.length - s.totalRead)
      if got.length = 0 then readEnd t s true else
        let s := { s with
          buffer := overwrite s.buffer s.totalRead got, totalRead := s.totalRead + got.length }
        if complete t (s.buffer.take s.totalRead) then ⟨.ok s.totalRead,s.buffer,s.delays⟩
        else readLoop rest s
    | .fault :: rest =>
      let s := { s with retries := s.retries - 1 }
      if s.retries = 0 then ⟨.err .tcpError,s.buffer,s.delays⟩
      else readLoop rest { s with delays := s.delays + 1 }
  else readEnd t s false

def readResponse (events : List (ReadEvent UInt8)) (responseBuffer : Bytes) (maxRetries : Nat) :
    ReadRun :=
  readLoop t events ⟨responseBuffer,0,maxRetries,0⟩

structure Exchange where
  result : Outcome Error (HttpResponse × Nat)
  written : Bytes
  delays : Nat
  deriving DecidableEq, Repr

def send (stream : Stream) (head : Bytes) (body : Option Bytes) : Bool × Stream :=
  match stream.writeAll head with
  | (false,stream) => (false,stream)
  | (true,stream) => match body with
    | none => stream.flush
    | some bodyData => match stream.writeAll bodyData with
      | (false,stream) => (false,stream)
      | (true,stream) => stream.flush

def decodeResponse (run : ReadRun) : Outcome Error (HttpResponse × Nat) := do
  let totalRead ← run.result
  let (totalRead,buffer) ← dechunk t run.buffer totalRead
  let data ← sliceTo buffer totalRead
  let response ← parseResp data
  .ok (response,totalRead)

def requestWithRetryDelay (RQ maxRetries : Nat) (stream : Stream) (request : HttpClientRequest)
    (responseBuffer : Bytes) : Exchange :=
  match buildReq RQ request.method request.host request.path request.headers request.body with
  | .err e => ⟨.err e,stream.written,0⟩
  | .panic => ⟨.panic,stream.written,0⟩
  | .pending => ⟨.pending,stream.written,0⟩
  | .ok httpRequest => match send stream httpRequest.items request.body with
    | (false,stream) => ⟨.err .tcpError,stream.written,0⟩
    | (true,stream) =>
      let run := readResponse t stream.reads responseBuffer maxRetries
      ⟨decodeResponse t run,stream.written,run.delays⟩

-- `HttpClient::request`: no pause between read attempts.
def request (RQ maxRetries : Nat) (stream : Stream) (request : HttpClientRequest)
    (responseBuffer : Bytes) :
    Outcome Error (HttpResponse × Nat) :=
  (requestWithRetryDelay t RQ maxRetries stream request responseBuffer).result

end Width
end Nanofish.Client

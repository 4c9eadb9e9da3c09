import Nanofish.Client
import Nanofish.Request

/-! One connection of the server: server/io.rs. The handler is any function of its
own state and the request; what it was called with is part of the run. -/
namespace Nanofish.Server
open Rust Rust.Utf8 Rust.Reads
open Protocol Codes Response Codec Client Request

structure RequestState where
  buf : Bytes
  totalRead : Nat
  headerEnd : Option Nat
  deriving DecidableEq, Repr

structure RequestRun where
  result : Outcome Error Nat
  buf : Bytes
  deriving DecidableEq, Repr

section Width
variable (t : Target)

/- The completion test behind a found header end. Its first addition is checked, its
second saturates. -/
def requestComplete (buf : Bytes) (totalRead hdrEnd : Nat) : Outcome Error Bool := do
  let bodyStart ← t.add hdrEnd doubleCrlfLen
  let head ← sliceTo buf hdrEnd
  match contentLength t head with
  | some contentLength => .ok (decide (t.saturatingAdd bodyStart contentLength ≤ totalRead))
  -- No Content-Length: headers are complete, no body expected.
  | none => .ok true

def readRequestLoop (events : List (ReadEvent UInt8)) (s : RequestState) : RequestRun :=
  if s.totalRead < s.buf.length then
    match events with
    | [] => ⟨.pending,s.buf⟩
    | .close :: _ => ⟨.err (.invalidResponse "Incomplete request"),s.buf⟩
    | .fault :: _ => ⟨.err .tcpError,s.buf⟩
    | .data fragment :: rest =>
      let got := fragment.take (s.buf.length - s.totalRead)
      if got.length = 0 then ⟨.err (.invalidResponse "Incomplete request"),s.buf⟩ else
        let buf := overwrite s.buf s.totalRead got
        let totalRead := s.totalRead + got.length
        -- The header end is searched until it is found once.
        let headerEnd := match s.headerEnd with
          | some hdrEnd => some hdrEnd
          | none => findDoubleCrlf (buf.take totalRead)
        match headerEnd with
        | none => readRequestLoop rest ⟨buf,totalRead,none⟩
        | some hdrEnd => match requestComplete t buf totalRead hdrEnd with
          | .ok true => ⟨.ok totalRead,buf⟩
          | .ok false => readRequestLoop rest ⟨buf,totalRead,some hdrEnd⟩
          | .err e => ⟨.err e,buf⟩
          | .panic => ⟨.panic,buf⟩
          | .pending => ⟨.pending,buf⟩
  else ⟨.err .bufferOverflow,s.buf⟩

def readRequest (events : List (ReadEvent UInt8)) (buf : Bytes) : RequestRun :=
  readRequestLoop t events ⟨buf,0,none⟩

def textError (MAX_RESPONSE_SIZE : Nat) (status : StatusCode) (body : Str) :
    Outcome Error (Vec UInt8 MAX_RESPONSE_SIZE) :=
  let headers := (Vec.new.push ⟨contentTypeName,"text/plain".toList⟩).getD Vec.new
  HttpResponse.buildBytes MAX_RESPONSE_SIZE ⟨status,headers,.text body⟩

def Handler (σ : Type) := σ → HttpRequest → Except Error HttpResponse × σ

/- Everything an observer sees of one connection: the result, the requests the
handler got, and the bytes the stream took. -/
structure Served where
  result : Outcome Error Unit
  handled : List HttpRequest
  written : Bytes
  deriving DecidableEq, Repr

def handleHttpConnectionWithSizes {σ : Type} (REQ_SIZE MAX_RESPONSE_SIZE : Nat)
    (handler : Handler σ) (state : σ) (stream : Stream) : Served :=
  let run := readRequest t stream.reads (List.replicate REQ_SIZE 0)
  match (do let totalRead ← run.result
            let data ← sliceTo run.buf totalRead
            HttpRequest.tryFrom data) with
  | .err e => ⟨.err e,[],stream.written⟩
  | .panic => ⟨.panic,[],stream.written⟩
  | .pending => ⟨.pending,[],stream.written⟩
  | .ok request =>
    let built := match (handler state request).1 with
      | .error _ => textError MAX_RESPONSE_SIZE .internalServerError "Internal Server Error".toList
      | .ok response => response.buildBytes MAX_RESPONSE_SIZE
    match built with
    | .err e => ⟨.err e,[request],stream.written⟩
    | .panic => ⟨.panic,[request],stream.written⟩
    | .pending => ⟨.pending,[request],stream.written⟩
    | .ok response => match send stream response.items none with
      | (false,stream) => ⟨.err .tcpError,[request],stream.written⟩
      | (true,stream) => ⟨.ok (),[request],stream.written⟩

end Width
end Nanofish.Server

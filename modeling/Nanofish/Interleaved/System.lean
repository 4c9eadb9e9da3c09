import Nanofish.Exchanges
import Nanofish.Rust.Systems

/-! Client and server on one connection, step by step: each write takes some octets,
each read hands some through, and nothing says whose turn it is. The loops of both sides
are taken apart into what they do between two reads. -/
namespace Nanofish.Interleaved
open Rust Rust.Utf8 Rust.Reads Rust.Systems
open Protocol Codes Response Codec HeaderBlock Client Request RequestRoundTrip
open Receiving Retries Sending Accepting Server Serving Transport Messages Exchanges

section Bodies
variable (t : Target)

def readStep (s : ReadState) : ReadEvent UInt8 → ReadRun ⊕ ReadState
  | .close => .inl (readEnd t s true)
  | .data fragment =>
    let got := fragment.take (s.buffer.length - s.totalRead)
    if got.length = 0 then .inl (readEnd t s true) else
      let s := { s with
        buffer := overwrite s.buffer s.totalRead got, totalRead := s.totalRead + got.length }
      if complete t (s.buffer.take s.totalRead) then .inl ⟨.ok s.totalRead,s.buffer,s.delays⟩
      else .inr s
  | .fault =>
    let s := { s with retries := s.retries - 1 }
    if s.retries = 0 then .inl ⟨.err .tcpError,s.buffer,s.delays⟩ else
      .inr { s with delays := s.delays + 1 }

def Reads (s : ReadState) : Prop := s.totalRead < s.buffer.length ∧ 0 < s.retries
instance (s : ReadState) : Decidable (Reads s) := by unfold Reads; infer_instance

theorem readLoopStep {s : ReadState} (more : Reads s) (e : ReadEvent UInt8)
    (rest : List (ReadEvent UInt8)) :
    readLoop t (e :: rest) s = match readStep t s e with
      | .inl run => run
      | .inr next => readLoop t rest next := by
  rw [readLoop.eq_def, if_pos (show s.totalRead < s.buffer.length ∧ 0 < s.retries from more)]
  cases e with
  | close => rfl
  | fault =>
    simp only [readStep]
    by_cases last : s.retries - 1 = 0
    · simp only [if_pos last]
    · simp only [if_neg last]
  | data fragment =>
    simp only [readStep]
    by_cases none : (fragment.take (s.buffer.length - s.totalRead)).length = 0
    · simp only [if_pos none]
    · simp only [if_neg none]
      cases complete t ((overwrite s.buffer s.totalRead
        (fragment.take (s.buffer.length - s.totalRead))).take
        (s.totalRead + (fragment.take (s.buffer.length - s.totalRead)).length)) <;> rfl

def requestStep (s : RequestState) : ReadEvent UInt8 → RequestRun ⊕ RequestState
  | .close => .inl ⟨.err (.invalidResponse "Incomplete request"),s.buf⟩
  | .fault => .inl ⟨.err .tcpError,s.buf⟩
  | .data fragment =>
    let got := fragment.take (s.buf.length - s.totalRead)
    if got.length = 0 then .inl ⟨.err (.invalidResponse "Incomplete request"),s.buf⟩ else
      let buf := overwrite s.buf s.totalRead got
      let totalRead := s.totalRead + got.length
      let headerEnd := match s.headerEnd with
        | some hdrEnd => some hdrEnd
        | none => findDoubleCrlf (buf.take totalRead)
      match headerEnd with
      | none => .inr ⟨buf,totalRead,none⟩
      | some hdrEnd => match requestComplete t buf totalRead hdrEnd with
        | .ok true => .inl ⟨.ok totalRead,buf⟩
        | .ok false => .inr ⟨buf,totalRead,some hdrEnd⟩
        | .err e => .inl ⟨.err e,buf⟩
        | .panic => .inl ⟨.panic,buf⟩
        | .pending => .inl ⟨.pending,buf⟩

theorem requestLoopStep {s : RequestState} (more : s.totalRead < s.buf.length) (e : ReadEvent UInt8)
    (rest : List (ReadEvent UInt8)) : readRequestLoop t (e :: rest) s = match requestStep t s e with
      | .inl run => run
      | .inr next => readRequestLoop t rest next := by
  rw [readRequestLoop.eq_def, if_pos more]
  cases e with
  | close => rfl
  | fault => rfl
  | data fragment =>
    simp only [requestStep]
    by_cases none : (fragment.take (s.buf.length - s.totalRead)).length = 0
    · simp only [if_pos none]
    · simp only [if_neg none]
      obtain ⟨buf,totalRead,headerEnd⟩ := s
      cases headerEnd with
      | none =>
        simp only
        cases findDoubleCrlf ((overwrite buf totalRead (fragment.take (buf.length - totalRead))).take
            (totalRead + (fragment.take (buf.length - totalRead)).length)) with
        | none => rfl
        | some hdrEnd =>
          simp only
          rcases requestComplete t _ _ hdrEnd with (_ | _) | _ | _ | _ <;> rfl
      | some hdrEnd =>
        simp only
        rcases requestComplete t _ _ hdrEnd with (_ | _) | _ | _ | _ <;> rfl

end Bodies

inductive ClientPhase where
  | writing (todo : Bytes)
  | reading (st : ReadState)
  | done (result : Outcome Error (HttpResponse × Nat))
  | failed
  deriving DecidableEq, Repr

inductive ServerPhase where
  | reading (st : RequestState)
  | writing (todo : Bytes)
  | done (result : Outcome Error Unit)
  | failed
  deriving DecidableEq, Repr

def ClientPhase.result : ClientPhase → Option (Outcome Error (HttpResponse × Nat))
  | .done result => some result
  | .failed => some (.err .tcpError)
  | _ => none

def ServerPhase.result : ServerPhase → Option (Outcome Error Unit)
  | .done result => some result
  | .failed => some (.err .tcpError)
  | _ => none

/- Where the two sides are, what is on its way between them, and what became of the
reads and writes so far. -/
structure Connection where
  client : ClientPhase
  server : ServerPhase
  handled : List HttpRequest
  up : Bytes
  down : Bytes
  clientSaw : List (ReadEvent UInt8)
  serverSaw : List (ReadEvent UInt8)
  clientSent : Bytes
  serverSent : Bytes
  deriving DecidableEq, Repr

/- A read or a write of `n + 1` octets; a side that is through closes the connection,
which the other finds behind the last octet. -/
inductive Move where
  | clientWrites (n : Nat)
  | clientFlushes
  | clientReads (n : Nat)
  | clientEnds
  | clientReadFails
  | clientWriteFails
  | serverReads (n : Nat)
  | serverEnds
  | serverReadFails
  | serverWrites (n : Nat)
  | serverCloses
  | serverWriteFails
  deriving DecidableEq, Repr

section System
variable (t : Target) (RQ maxRetries REQ_SIZE MAX_RESPONSE_SIZE : Nat) {σ : Type}
  (handler : Handler σ) (state : σ)
  (req : HttpClientRequest) (buffer : Bytes)

def clientStart : ClientPhase := match buildReq RQ req.method req.host req.path req.headers req.body with
  | .ok head => .writing (head.items ++ req.body.getD [])
  | .err e => .done (.err e)
  | .panic => .done .panic
  | .pending => .done .pending

def clientReading (s : ReadState) : ClientPhase :=
  if Reads s then .reading s else .done (decodeResponse t (readEnd t s false))

def clientSees (s : ReadState) (e : ReadEvent UInt8) : ClientPhase := match readStep t s e with
  | .inl run => .done (decodeResponse t run)
  | .inr next => clientReading t next

def serverBehind (run : RequestRun) : ServerPhase × List HttpRequest :=
  match (do let totalRead ← run.result
            let data ← sliceTo run.buf totalRead
            HttpRequest.tryFrom data) with
  | .err e => (.done (.err e),[])
  | .panic => (.done .panic,[])
  | .pending => (.done .pending,[])
  | .ok request => match (answer (handler state request).1).buildBytes MAX_RESPONSE_SIZE with
    | .err e => (.done (.err e),[request])
    | .panic => (.done .panic,[request])
    | .pending => (.done .pending,[request])
    | .ok response => (.writing response.items,[request])

def serverReading (s : RequestState) : ServerPhase × List HttpRequest :=
  if s.totalRead < s.buf.length then (.reading s,[])
  else serverBehind MAX_RESPONSE_SIZE handler state ⟨.err .bufferOverflow,s.buf⟩

def serverSees (s : RequestState) (e : ReadEvent UInt8) : ServerPhase × List HttpRequest :=
  match requestStep t s e with
  | .inl run => serverBehind MAX_RESPONSE_SIZE handler state run
  | .inr next => serverReading MAX_RESPONSE_SIZE handler state next

def start : Connection :=
  let server := serverReading MAX_RESPONSE_SIZE handler state ⟨List.replicate REQ_SIZE 0,0,none⟩
  ⟨clientStart RQ req,server.1,server.2,[],[],[],[],[],[]⟩

def clientTold (c : Connection) (s : ReadState) (e : ReadEvent UInt8) : Connection :=
  { c with client := clientSees t s e, clientSaw := c.clientSaw ++ [e] }

def serverTold (c : Connection) (s : RequestState) (e : ReadEvent UInt8) : Connection :=
  let server := serverSees t MAX_RESPONSE_SIZE handler state s e
  { c with server := server.1, handled := server.2, serverSaw := c.serverSaw ++ [e] }

def step (c : Connection) : Move → Option Connection
  | .clientWrites n => match c.client with
    | .writing todo => if n < todo.length then some { c with
        client := .writing (todo.drop (n + 1))
        up := c.up ++ todo.take (n + 1)
        clientSent := c.clientSent ++ todo.take (n + 1) } else none
    | _ => none
  | .clientFlushes => match c.client with
    | .writing [] => some { c with client := clientReading t ⟨buffer,0,maxRetries,0⟩ }
    | _ => none
  | .clientReads n => match c.client with
    | .reading s => if n < c.down.length ∧ n < s.buffer.length - s.totalRead then
        some { clientTold t c s (.data (c.down.take (n + 1))) with
          down := c.down.drop (n + 1) } else none
    | _ => none
  | .clientEnds => match c.client with
    | .reading s =>
      if c.down = [] ∧ c.server.result.isSome = true then some (clientTold t c s .close) else none
    | _ => none
  | .clientReadFails => match c.client with
    | .reading s => some (clientTold t c s .fault)
    | _ => none
  | .clientWriteFails => match c.client with
    | .writing _ => some { c with client := .failed }
    | _ => none
  | .serverReads n => match c.server with
    | .reading s => if n < c.up.length ∧ n < s.buf.length - s.totalRead then
        some { serverTold t MAX_RESPONSE_SIZE handler state c s (.data (c.up.take (n + 1))) with
          up := c.up.drop (n + 1) } else none
    | _ => none
  | .serverEnds => match c.server with
    | .reading s => if c.up = [] ∧ c.client.result.isSome = true then
        some (serverTold t MAX_RESPONSE_SIZE handler state c s .close) else none
    | _ => none
  | .serverReadFails => match c.server with
    | .reading s => some (serverTold t MAX_RESPONSE_SIZE handler state c s .fault)
    | _ => none
  | .serverWrites n => match c.server with
    | .writing todo => if n < todo.length then some { c with
        server := .writing (todo.drop (n + 1))
        down := c.down ++ todo.take (n + 1)
        serverSent := c.serverSent ++ todo.take (n + 1) } else none
    | _ => none
  | .serverCloses => match c.server with
    | .writing [] => some { c with server := .done (.ok ()) }
    | _ => none
  | .serverWriteFails => match c.server with
    | .writing _ => some { c with server := .failed }
    | _ => none

inductive Moved : Connection → Move → Connection → Prop where
  | clientWrites {c todo n} (phase : c.client = .writing todo) (more : n < todo.length) :
      Moved c (.clientWrites n) { c with
        client := .writing (todo.drop (n + 1))
        up := c.up ++ todo.take (n + 1)
        clientSent := c.clientSent ++ todo.take (n + 1) }
  | clientFlushes {c} (phase : c.client = .writing []) :
      Moved c .clientFlushes { c with client := clientReading t ⟨buffer,0,maxRetries,0⟩ }
  | clientReads {c s n} (phase : c.client = .reading s) (more : n < c.down.length)
      (room : n < s.buffer.length - s.totalRead) :
      Moved c (.clientReads n) { clientTold t c s (.data (c.down.take (n + 1))) with
        down := c.down.drop (n + 1) }
  | clientEnds {c s} (phase : c.client = .reading s) (none : c.down = [])
      (through : c.server.result.isSome = true) :
      Moved c .clientEnds (clientTold t c s .close)
  | clientReadFails {c s} (phase : c.client = .reading s) :
      Moved c .clientReadFails (clientTold t c s .fault)
  | clientWriteFails {c todo} (phase : c.client = .writing todo) :
      Moved c .clientWriteFails { c with client := .failed }
  | serverReads {c s n} (phase : c.server = .reading s) (more : n < c.up.length)
      (room : n < s.buf.length - s.totalRead) :
      Moved c (.serverReads n)
        { serverTold t MAX_RESPONSE_SIZE handler state c s (.data (c.up.take (n + 1))) with
          up := c.up.drop (n + 1) }
  | serverEnds {c s} (phase : c.server = .reading s) (none : c.up = [])
      (through : c.client.result.isSome = true) :
      Moved c .serverEnds (serverTold t MAX_RESPONSE_SIZE handler state c s .close)
  | serverReadFails {c s} (phase : c.server = .reading s) :
      Moved c .serverReadFails (serverTold t MAX_RESPONSE_SIZE handler state c s .fault)
  | serverWrites {c todo n} (phase : c.server = .writing todo) (more : n < todo.length) :
      Moved c (.serverWrites n) { c with
        server := .writing (todo.drop (n + 1))
        down := c.down ++ todo.take (n + 1)
        serverSent := c.serverSent ++ todo.take (n + 1) }
  | serverCloses {c} (phase : c.server = .writing []) :
      Moved c .serverCloses { c with server := .done (.ok ()) }
  | serverWriteFails {c todo} (phase : c.server = .writing todo) :
      Moved c .serverWriteFails { c with server := .failed }

theorem stepMoved {c next : Connection} {w : Move}
    (moved : step t maxRetries MAX_RESPONSE_SIZE handler state buffer c w = some next) :
    Moved t maxRetries MAX_RESPONSE_SIZE handler state buffer c w next := by
  cases w with
  | clientWrites n =>
    simp only [step] at moved
    split at moved <;> try contradiction
    split at moved <;> cases moved
    exact .clientWrites (by assumption) (by assumption)
  | clientFlushes =>
    simp only [step] at moved
    split at moved <;> cases moved
    exact .clientFlushes (by assumption)
  | clientReads n =>
    simp only [step] at moved
    split at moved <;> try contradiction
    split at moved <;> cases moved
    rename_i phase possible
    exact .clientReads phase possible.1 possible.2
  | clientEnds =>
    simp only [step] at moved
    split at moved <;> try contradiction
    split at moved <;> cases moved
    rename_i phase possible
    exact .clientEnds phase possible.1 possible.2
  | clientReadFails =>
    simp only [step] at moved
    split at moved <;> cases moved
    exact .clientReadFails (by assumption)
  | clientWriteFails =>
    simp only [step] at moved
    split at moved <;> cases moved
    exact .clientWriteFails (by assumption)
  | serverReads n =>
    simp only [step] at moved
    split at moved <;> try contradiction
    split at moved <;> cases moved
    rename_i phase possible
    exact .serverReads phase possible.1 possible.2
  | serverEnds =>
    simp only [step] at moved
    split at moved <;> try contradiction
    split at moved <;> cases moved
    rename_i phase possible
    exact .serverEnds phase possible.1 possible.2
  | serverReadFails =>
    simp only [step] at moved
    split at moved <;> cases moved
    exact .serverReadFails (by assumption)
  | serverWrites n =>
    simp only [step] at moved
    split at moved <;> try contradiction
    split at moved <;> cases moved
    exact .serverWrites (by assumption) (by assumption)
  | serverCloses =>
    simp only [step] at moved
    split at moved <;> cases moved
    exact .serverCloses (by assumption)
  | serverWriteFails =>
    simp only [step] at moved
    split at moved <;> cases moved
    exact .serverWriteFails (by assumption)

end System

end Nanofish.Interleaved

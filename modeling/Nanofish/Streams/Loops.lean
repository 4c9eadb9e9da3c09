import Nanofish.Exchanges

/-! The two ends of an exchange over any stream. The source asks of a stream no more than
`read`, `write_all` and `flush`; what a caller may rely on is written beside the three.
Every such stream behaves, from one exchange to the next, as some script does. -/
namespace Nanofish.Streams
open Rust Rust.Utf8 Rust.Reads
open Protocol Codes Response Codec Client Request Server Serving Messages Exchanges

def taken : Outcome Unit Bytes → Bytes
  | .ok fragment => fragment
  | _ => []

/- A stream of `embedded_io_async`. Its reads never hand over more than was asked for,
its writes take their argument in order; `got` and `sent` are the two directions so far. -/
structure Io (σ : Type) where
  read : σ → Nat → Outcome Unit Bytes × σ
  writeAll : σ → Bytes → Outcome Unit Unit × σ
  flush : σ → Outcome Unit Unit × σ
  got : σ → Bytes
  sent : σ → Bytes
  reads : ∀ s n, (read s n).1 ≠ .panic ∧ (taken (read s n).1).length ≤ n ∧
    got (read s n).2 = got s ++ taken (read s n).1 ∧ sent (read s n).2 = sent s
  writes : ∀ s data, (writeAll s data).1 ≠ .panic ∧ got (writeAll s data).2 = got s ∧
    ∃ part, part <+: data ∧ sent (writeAll s data).2 = sent s ++ part ∧
    ((writeAll s data).1 = .ok () → part = data)
  flushes : ∀ s, (flush s).1 ≠ .panic ∧ got (flush s).2 = got s ∧ sent (flush s).2 = sent s

section Loops
variable (t : Target) {σ : Type} (io : Io σ)

theorem readWithin {s next : σ} {n : Nat} {fragment : Bytes}
    (read : io.read s n = (.ok fragment,next)) : fragment.length ≤ n := by
  have law := (io.reads s n).2.1
  rwa [read] at law

def readLoopOn (s : σ) (st : ReadState) : ReadRun × σ :=
  if st.totalRead < st.buffer.length ∧ 0 < st.retries then
    match _read : io.read s (st.buffer.length - st.totalRead) with
    | (.pending,next) => (⟨.pending,st.buffer,st.delays⟩,next)
    | (.panic,next) => (⟨.panic,st.buffer,st.delays⟩,next)
    | (.err _,next) =>
      if st.retries - 1 = 0 then (⟨.err .tcpError,st.buffer,st.delays⟩,next)
      else readLoopOn next { st with retries := st.retries - 1, delays := st.delays + 1 }
    | (.ok got,next) =>
      if got.length = 0 then (readEnd t st true,next) else
        let buffer := overwrite st.buffer st.totalRead got
        let totalRead := st.totalRead + got.length
        if complete t (buffer.take totalRead) then (⟨.ok totalRead,buffer,st.delays⟩,next)
        else readLoopOn next { st with buffer := buffer, totalRead := totalRead }
  else (readEnd t st false,s)
termination_by st.buffer.length - st.totalRead + st.retries
decreasing_by
  · omega
  · have within := readWithin io _read
    simp only [overwriteLength (show st.totalRead + got.length ≤ st.buffer.length by omega)]
    omega

def readResponseOn (s : σ) (responseBuffer : Bytes) (maxRetries : Nat) : ReadRun × σ :=
  readLoopOn t io s ⟨responseBuffer,0,maxRetries,0⟩

def readRequestLoopOn (s : σ) (st : RequestState) : RequestRun × σ :=
  if st.totalRead < st.buf.length then
    match _read : io.read s (st.buf.length - st.totalRead) with
    | (.pending,next) => (⟨.pending,st.buf⟩,next)
    | (.panic,next) => (⟨.panic,st.buf⟩,next)
    | (.err _,next) => (⟨.err .tcpError,st.buf⟩,next)
    | (.ok got,next) =>
      if got.length = 0 then (⟨.err (.invalidResponse "Incomplete request"),st.buf⟩,next) else
        let buf := overwrite st.buf st.totalRead got
        let totalRead := st.totalRead + got.length
        let headerEnd := match st.headerEnd with
          | some hdrEnd => some hdrEnd
          | none => findDoubleCrlf (buf.take totalRead)
        match headerEnd with
        | none => readRequestLoopOn next ⟨buf,totalRead,none⟩
        | some hdrEnd => match requestComplete t buf totalRead hdrEnd with
          | .ok true => (⟨.ok totalRead,buf⟩,next)
          | .ok false => readRequestLoopOn next ⟨buf,totalRead,some hdrEnd⟩
          | .err e => (⟨.err e,buf⟩,next)
          | .panic => (⟨.panic,buf⟩,next)
          | .pending => (⟨.pending,buf⟩,next)
  else (⟨.err .bufferOverflow,st.buf⟩,s)
termination_by st.buf.length - st.totalRead
decreasing_by
  all_goals
    have within := readWithin io _read
    simp only [overwriteLength (show st.totalRead + got.length ≤ st.buf.length by omega)]
    omega

def readRequestOn (s : σ) (buf : Bytes) : RequestRun × σ := readRequestLoopOn t io s ⟨buf,0,none⟩

def andThen (done : Outcome Unit Unit × σ) (next : σ → Outcome Unit Unit × σ) :
    Outcome Unit Unit × σ := match done.1 with
  | .ok () => next done.2
  | .err e => (.err e,done.2)
  | .panic => (.panic,done.2)
  | .pending => (.pending,done.2)

def sendOn (s : σ) (head : Bytes) (body : Option Bytes) : Outcome Unit Unit × σ :=
  andThen (io.writeAll s head) fun s => andThen (match body with
    | none => (.ok (),s)
    | some bodyData => io.writeAll s bodyData) io.flush

structure Exchanged (σ : Type) where
  result : Outcome Error (HttpResponse × Nat)
  delays : Nat
  state : σ

-- `request_with_retry_delay`
def requestOn (RQ maxRetries : Nat) (s : σ) (request : HttpClientRequest) (responseBuffer : Bytes) :
    Exchanged σ :=
  match buildReq RQ request.method request.host request.path request.headers request.body with
  | .err e => ⟨.err e,0,s⟩
  | .panic => ⟨.panic,0,s⟩
  | .pending => ⟨.pending,0,s⟩
  | .ok httpRequest => match sendOn io s httpRequest.items request.body with
    | (.err _,s) => ⟨.err .tcpError,0,s⟩
    | (.panic,s) => ⟨.panic,0,s⟩
    | (.pending,s) => ⟨.pending,0,s⟩
    | (.ok (),s) =>
      let (run,s) := readResponseOn t io s responseBuffer maxRetries
      ⟨decodeResponse t run,run.delays,s⟩

structure ServedOn (σ : Type) where
  result : Outcome Error Unit
  handled : List HttpRequest
  state : σ

-- `handle_http_connection_with_sizes`
def handleOn {τ : Type} (REQ_SIZE MAX_RESPONSE_SIZE : Nat) (handler : Handler τ) (state : τ) (s : σ) :
    ServedOn σ :=
  let (run,s) := readRequestOn t io s (List.replicate REQ_SIZE 0)
  match (do let totalRead ← run.result
            let data ← sliceTo run.buf totalRead
            HttpRequest.tryFrom data) with
  | .err e => ⟨.err e,[],s⟩
  | .panic => ⟨.panic,[],s⟩
  | .pending => ⟨.pending,[],s⟩
  | .ok request =>
    let built := match (handler state request).1 with
      | .error _ => textError MAX_RESPONSE_SIZE .internalServerError "Internal Server Error".toList
      | .ok response => response.buildBytes MAX_RESPONSE_SIZE
    match built with
    | .err e => ⟨.err e,[request],s⟩
    | .panic => ⟨.panic,[request],s⟩
    | .pending => ⟨.pending,[request],s⟩
    | .ok response => match sendOn io s response.items none with
      | (.ok (),s) => ⟨.ok (),[request],s⟩
      | (.err _,s) => ⟨.err .tcpError,[request],s⟩
      | (.panic,s) => ⟨.panic,[request],s⟩
      | (.pending,s) => ⟨.pending,[request],s⟩

def acceptedOn (REQ_SIZE : Nat) (s : σ) : Outcome Error HttpRequest := do
  let totalRead ← (readRequestOn t io s (List.replicate REQ_SIZE 0)).1.result
  let data ← sliceTo (readRequestOn t io s (List.replicate REQ_SIZE 0)).1.buf totalRead
  HttpRequest.tryFrom data

theorem answerBuilt (N : Nat) (result : Except Error HttpResponse) : (match result with
    | .error _ => textError N .internalServerError "Internal Server Error".toList
    | .ok response => response.buildBytes N) = (answer result).buildBytes N := by
  cases result <;> rfl

def tcpResult : Outcome Unit Unit → Outcome Error Unit
  | .ok () => .ok ()
  | .err _ => .err .tcpError
  | .panic => .panic
  | .pending => .pending

theorem handledExact {τ : Type} (REQ_SIZE MAX_RESPONSE_SIZE : Nat) (handler : Handler τ) (state : τ)
    (s : σ) :
    handleOn t io REQ_SIZE MAX_RESPONSE_SIZE handler state s =
      let u := (readRequestOn t io s (List.replicate REQ_SIZE 0)).2
      match acceptedOn t io REQ_SIZE s with
      | .err e => ⟨.err e,[],u⟩
      | .panic => ⟨.panic,[],u⟩
      | .pending => ⟨.pending,[],u⟩
      | .ok q => match (answer (handler state q).1).buildBytes MAX_RESPONSE_SIZE with
        | .err e => ⟨.err e,[q],u⟩
        | .panic => ⟨.panic,[q],u⟩
        | .pending => ⟨.pending,[q],u⟩
        | .ok response =>
          ⟨tcpResult (sendOn io u response.items none).1,[q],(sendOn io u response.items none).2⟩ := by
  unfold handleOn
  cases asked : acceptedOn t io REQ_SIZE s with
  | ok q =>
    unfold acceptedOn at asked
    simp only [asked, answerBuilt]
    cases (answer (handler state q).1).buildBytes MAX_RESPONSE_SIZE with
    | ok b =>
      simp only
      generalize sendOn io (readRequestOn t io s (List.replicate REQ_SIZE 0)).2 b.items none = done
      obtain ⟨r,v⟩ := done
      cases r <;> rfl
    | _ => rfl
  | _ =>
    unfold acceptedOn at asked
    simp only [asked]

end Loops

end Nanofish.Streams

import Nanofish.Interleaved.System

/-! Whoever moves when, each side stays where its function is on the reads it has made.
What is proved of whole exchanges then holds of every interleaving. -/
namespace Nanofish.Interleaved
open Rust Rust.Utf8 Rust.Reads Rust.Systems
open Protocol Codes Response Codec HeaderBlock Client Request RequestRoundTrip
open Receiving Retries Sending Accepting Server Serving Transport Messages Exchanges

section Reads

def Ongoing : ReadEvent UInt8 → Prop
  | .data fragment => fragment ≠ []
  | .fault => True
  | .close => False

/- The reads of one side so far; behind the end of the stream there is none, and it was
not found before something else was through. -/
def Seen (events : List (ReadEvent UInt8)) (through : Prop) : Prop :=
  (∀ e ∈ events, Ongoing e) ∨ (∃ front, events = front ++ [.close] ∧ ∀ e ∈ front, Ongoing e) ∧ through

variable {events front : List (ReadEvent UInt8)}

theorem ongoingArrived (goes : ∀ e ∈ front, Ongoing e) (rest : List (ReadEvent UInt8)) :
    arrived (front ++ rest) = arrived front ++ arrived rest := by
  induction front with
  | nil => rfl
  | cons e front ih =>
    have behind := ih fun d mem => goes d (List.mem_cons_of_mem e mem)
    have own := goes e List.mem_cons_self
    cases e with
    | close => exact own.elim
    | fault => exact behind
    | data fragment =>
      rw [List.cons_append, arrivedFragment own, arrivedFragment own, behind, List.append_assoc]

theorem takeSome {xs : Bytes} {n : Nat} (more : n < xs.length) : xs.take (n + 1) ≠ [] :=
  List.length_pos_iff.mp (by rw [List.length_take]; omega)

theorem arrivedTaken (goes : ∀ e ∈ front, Ongoing e) {xs : Bytes} {n : Nat} (more : n < xs.length) :
    arrived front ++ xs = arrived (front ++ [.data (xs.take (n + 1))]) ++ xs.drop (n + 1) := by
  have one : arrived [.data (xs.take (n + 1))] = xs.take (n + 1) := by
    rw [arrivedFragment (takeSome more)]
    exact List.append_nil _
  rw [ongoingArrived goes, one, List.append_assoc, List.take_append_drop]

theorem arrivedSame (goes : ∀ e ∈ front, Ongoing e) {e : ReadEvent UInt8} (quiet : arrived [e] = [])
    (xs : Bytes) :
    arrived front ++ xs = arrived (front ++ [e]) ++ xs := by
  rw [ongoingArrived goes, quiet, List.append_nil]

theorem ongoingMore (goes : ∀ e ∈ front, Ongoing e) {e : ReadEvent UInt8} (more : Ongoing e) :
    ∀ d ∈ front ++ [e], Ongoing d := by
  intro d mem
  rcases List.mem_append.mp mem with mem | mem
  · exact goes d mem
  · exact List.mem_singleton.mp mem ▸ more

theorem Seen.open {through : Prop} (seen : Seen events through) (not : ¬ through) :
    ∀ e ∈ events, Ongoing e :=
  seen.resolve_right fun ⟨_,ends⟩ => not ends

end Reads

section Explained
variable (t : Target) (RQ maxRetries REQ_SIZE MAX_RESPONSE_SIZE : Nat) {σ : Type}
  (handler : Handler σ) (state : σ)
  (req : HttpClientRequest) (buffer : Bytes)

/- What a phase of the client says of its reads and of what it has sent: the functions
of the two loops, on these reads and whatever follows, come to the same. -/
def ClientAt : ClientPhase → List (ReadEvent UInt8) → Bytes → Prop
  | .writing todo,saw,sent =>
    saw = [] ∧ ∃ head : Vec UInt8 RQ,
      buildReq RQ req.method req.host req.path req.headers req.body = .ok head ∧
      sent ++ todo = head.items ++ req.body.getD []
  | .reading s,saw,sent =>
    ∃ head : Vec UInt8 RQ, buildReq RQ req.method req.host req.path req.headers
      req.body = .ok head ∧ sent = head.items ++ req.body.getD [] ∧ Reads s ∧ ∀ rest,
      readResponse t (saw ++ rest) buffer maxRetries = readLoop t rest s
  | .done result,saw,sent =>
    ∀ rest, let run := requestWithRetryDelay t RQ maxRetries ⟨saw ++ rest,[],[]⟩ req buffer
      run.result = result ∧ run.written = sent
  | .failed,saw,sent =>
    saw = [] ∧ ∃ writes, let run := requestWithRetryDelay t RQ maxRetries ⟨[],writes,[]⟩ req buffer
      run.result = .err .tcpError ∧ run.written = sent

def ServerAt : ServerPhase → List (ReadEvent UInt8) → Bytes → List HttpRequest → Prop
  | .reading s,saw,sent,handled => sent = [] ∧ handled = [] ∧ s.totalRead < s.buf.length ∧
      ∀ rest, readRequest t (saw ++ rest) (List.replicate REQ_SIZE 0) = readRequestLoop t rest s
  | .writing todo,saw,sent,handled => ∃ q, ∃ b : Vec UInt8 MAX_RESPONSE_SIZE, handled = [q] ∧
      (∀ rest writes, accepted t REQ_SIZE ⟨saw ++ rest,writes,[]⟩ = .ok q) ∧
      (answer (handler state q).1).buildBytes MAX_RESPONSE_SIZE = .ok b ∧ sent ++ todo = b.items
  | .done result,saw,sent,handled => ∀ rest,
      handleHttpConnectionWithSizes t REQ_SIZE MAX_RESPONSE_SIZE handler state ⟨saw ++ rest,[],[]⟩ =
        ⟨result,handled,sent⟩
  | .failed,saw,sent,handled => ∃ writes, ∀ rest,
      handleHttpConnectionWithSizes t REQ_SIZE MAX_RESPONSE_SIZE handler state
        ⟨saw ++ rest,writes,[]⟩ = ⟨.err .tcpError,handled,sent⟩

section Client
variable {RQ req} {saw : List (ReadEvent UInt8)} {head : Vec UInt8 RQ}
  (built : buildReq RQ req.method req.host req.path req.headers req.body = .ok head)
include built

theorem exchangeAt (events : List (ReadEvent UInt8)) :
    let run := requestWithRetryDelay t RQ maxRetries ⟨events,[],[]⟩ req buffer
    run.result = decodeResponse t (readResponse t events buffer maxRetries) ∧
    run.written = head.items ++ req.body.getD [] := by
  obtain ⟨rest,wrote⟩ := sendClear ⟨[],[],[]⟩ (by simp) head.items req.body
  have done : Receiving.sent RQ ⟨[],[],[]⟩ req = true := by simp only [Receiving.sent, built, wrote]
  have written := exchangeWritten t RQ maxRetries ⟨events,[],[]⟩ req buffer (by simp) built
  exact ⟨(exchangeSent t RQ maxRetries ⟨[],[],[]⟩ req buffer done events).1,written⟩

theorem clientDone {run : ReadRun}
    (same : ∀ rest, readResponse t (saw ++ rest) buffer maxRetries = run) :
    ClientAt t RQ maxRetries req buffer (.done (decodeResponse t run)) saw
      (head.items ++ req.body.getD []) := by
  intro rest
  obtain ⟨result,written⟩ := exchangeAt t maxRetries buffer built (saw ++ rest)
  exact ⟨by rw [result, same],written⟩

theorem clientReadingAt {s : ReadState}
    (same : ∀ rest, readResponse t (saw ++ rest) buffer maxRetries = readLoop t rest s) :
    ClientAt t RQ maxRetries req buffer (clientReading t s) saw (head.items ++ req.body.getD []) := by
  unfold clientReading
  by_cases more : Reads s
  · rw [if_pos more]
    exact ⟨head,built,rfl,more,same⟩
  · rw [if_neg more]
    refine clientDone t maxRetries buffer built fun rest => ?_
    rw [same, readLoop.eq_def]
    exact if_neg more

end Client

section Steps
variable {t RQ maxRetries REQ_SIZE MAX_RESPONSE_SIZE handler state req buffer}
  {saw : List (ReadEvent UInt8)} {sent : Bytes}

theorem clientSeesAt {s : ReadState}
    (here : ClientAt t RQ maxRetries req buffer (.reading s) saw sent) (e : ReadEvent UInt8) :
    ClientAt t RQ maxRetries req buffer (clientSees t s e) (saw ++ [e]) sent := by
  obtain ⟨head,built,rfl,more,same⟩ := here
  have behind (rest : List (ReadEvent UInt8)) :
      readResponse t (saw ++ [e] ++ rest) buffer maxRetries = readLoop t (e :: rest) s := by
    rw [List.append_assoc, List.singleton_append, same]
  unfold clientSees
  cases moved : readStep t s e with
  | inl run =>
    exact clientDone t maxRetries buffer built fun rest => by
      rw [behind, readLoopStep t more, moved]
  | inr next =>
    exact clientReadingAt t maxRetries buffer built fun rest => by
      rw [behind, readLoopStep t more, moved]

theorem serverBehindAt {run : RequestRun}
    (same : ∀ rest, readRequest t (saw ++ rest) (List.replicate REQ_SIZE 0) = run) :
    let server := serverBehind MAX_RESPONSE_SIZE handler state run
    ServerAt t REQ_SIZE MAX_RESPONSE_SIZE handler state server.1 saw [] server.2 := by
  have ask (rest : List (ReadEvent UInt8)) (writes : List WriteEvent) :
      accepted t REQ_SIZE ⟨saw ++ rest,writes,[]⟩ = (do
      let totalRead ← run.result
      let data ← sliceTo run.buf totalRead
      HttpRequest.tryFrom data) := by simp only [accepted, same]
  unfold serverBehind
  generalize (do
      let totalRead ← run.result
      let data ← sliceTo run.buf totalRead
      HttpRequest.tryFrom data : Outcome Error HttpRequest) = request at ask
  cases request with
  | err e => exact fun rest => by rw [servedExact, ask]
  | panic => exact fun rest => by rw [servedExact, ask]
  | pending => exact fun rest => by rw [servedExact, ask]
  | ok q =>
    simp only
    cases built : (answer (handler state q).1).buildBytes MAX_RESPONSE_SIZE with
    | err e => exact fun rest => by simp only [servedExact, ask, reply, built]
    | panic => exact fun rest => by simp only [servedExact, ask, reply, built]
    | pending => exact fun rest => by simp only [servedExact, ask, reply, built]
    | ok b => exact ⟨q,b,rfl,ask,built,rfl⟩

theorem serverReadingAt {s : RequestState}
    (same : ∀ rest, readRequest t (saw ++ rest) (List.replicate REQ_SIZE 0) = readRequestLoop t rest s) :
    let server := serverReading MAX_RESPONSE_SIZE handler state s
    ServerAt t REQ_SIZE MAX_RESPONSE_SIZE handler state server.1 saw [] server.2 := by
  unfold serverReading
  by_cases more : s.totalRead < s.buf.length
  · rw [if_pos more]
    exact ⟨rfl,rfl,more,same⟩
  · rw [if_neg more]
    refine serverBehindAt fun rest => ?_
    rw [same, readRequestLoop.eq_def]
    exact if_neg more

theorem serverSeesAt {s : RequestState} {handled : List HttpRequest}
    (here : ServerAt t REQ_SIZE MAX_RESPONSE_SIZE handler state (.reading s) saw sent handled)
    (e : ReadEvent UInt8) :
    let server := serverSees t MAX_RESPONSE_SIZE handler state s e
    ServerAt t REQ_SIZE MAX_RESPONSE_SIZE handler state server.1 (saw ++ [e]) sent server.2 := by
  obtain ⟨rfl,_,more,same⟩ := here
  have behind (rest : List (ReadEvent UInt8)) :
      readRequest t (saw ++ [e] ++ rest) (List.replicate REQ_SIZE 0) =
        readRequestLoop t (e :: rest) s := by
    rw [List.append_assoc, List.singleton_append, same]
  unfold serverSees
  cases moved : requestStep t s e with
  | inl run => exact serverBehindAt fun rest => by rw [behind, requestLoopStep t more, moved]
  | inr next =>
    exact serverReadingAt fun rest => by
      rw [behind, requestLoopStep t more, moved]

end Steps

structure Explained (c : Connection) : Prop where
  upward : c.clientSent = arrived c.serverSaw ++ c.up
  downward : c.serverSent = arrived c.clientSaw ++ c.down
  client : ClientAt t RQ maxRetries req buffer c.client c.clientSaw c.clientSent
  server : ServerAt t REQ_SIZE MAX_RESPONSE_SIZE handler state c.server c.serverSaw
    c.serverSent c.handled
  clientSeen : Seen c.clientSaw (c.client.result.isSome = true ∧ c.server.result.isSome = true ∧
    c.down = [])
  serverSeen : Seen c.serverSaw (c.server.result.isSome = true ∧ c.client.result.isSome = true)

variable {t RQ maxRetries REQ_SIZE MAX_RESPONSE_SIZE handler state req buffer}

theorem sendCut (head : Bytes) (body : Option Bytes) {part : Bytes}
    (front : part <+: head ++ body.getD []) :
    ∃ writes, ∀ reads, ∃ rest, send ⟨reads,writes,[]⟩ head body = (false,⟨reads,rest,part⟩) := by
  by_cases short : part.length ≤ head.length
  · have cut : head.take part.length = part :=
      (List.prefix_iff_eq_take.mp
        (List.prefix_of_prefix_length_le front (List.prefix_append _ _) short)).symm
    exact ⟨[.fault part.length],fun reads =>
      ⟨[],by simp only [send, Stream.writeAll, cut, List.nil_append]⟩⟩
  · cases body with
    | none => exact absurd (by simpa using front.length_le) short
    | some data =>
      have cut : head ++ data.take (part.length - head.length) = part := by
        have whole := List.prefix_iff_eq_take.mp front
        rw [Option.getD_some, List.take_append, List.take_of_length_le (by omega)] at whole
        exact whole.symm
      exact ⟨[.accept,.fault (part.length - head.length)],fun reads => ⟨[],by
        simp only [send, Stream.writeAll, List.nil_append, cut]⟩⟩

theorem clientCut {head : Vec UInt8 RQ}
    (built : buildReq RQ req.method req.host req.path req.headers req.body = .ok head)
    {sent todo : Bytes} (whole : sent ++ todo = head.items ++ req.body.getD []) :
    ClientAt t RQ maxRetries req buffer .failed [] sent := by
  obtain ⟨writes,cut⟩ := sendCut head.items req.body ⟨todo,whole⟩
  obtain ⟨rest,failed⟩ := cut []
  exact ⟨rfl,writes,by simp only [requestWithRetryDelay, built, failed]; exact ⟨trivial,trivial⟩⟩

theorem serverCut {q : HttpRequest} {b : Vec UInt8 MAX_RESPONSE_SIZE} {saw : List (ReadEvent UInt8)}
    {sent todo : Bytes} (ask : ∀ rest writes, accepted t REQ_SIZE ⟨saw ++ rest,writes,[]⟩ = .ok q)
    (built : (answer (handler state q).1).buildBytes MAX_RESPONSE_SIZE = .ok b)
    (whole : sent ++ todo = b.items) :
    ServerAt t REQ_SIZE MAX_RESPONSE_SIZE handler state .failed saw sent [q] := by
  obtain ⟨writes,cut⟩ := sendCut b.items none ⟨todo,whole.trans (List.append_nil _).symm⟩
  refine ⟨writes,fun rest => ?_⟩
  obtain ⟨_,failed⟩ := cut (saw ++ rest)
  simp only [servedExact, ask, reply, built, failed]

theorem startExplained : Explained t RQ maxRetries REQ_SIZE MAX_RESPONSE_SIZE handler state req buffer
    (start RQ REQ_SIZE MAX_RESPONSE_SIZE handler state req) where
  upward := rfl
  downward := rfl
  client := by
    simp only [start, clientStart]
    cases built : buildReq RQ req.method req.host req.path req.headers req.body with
    | ok head => exact ⟨rfl,head,built,rfl⟩
    | err e => exact fun rest => by simp only [requestWithRetryDelay, built]; exact ⟨trivial,trivial⟩
    | panic => exact fun rest => by simp only [requestWithRetryDelay, built]; exact ⟨trivial,trivial⟩
    | pending => exact fun rest => by simp only [requestWithRetryDelay, built]; exact ⟨trivial,trivial⟩
  server := serverReadingAt fun rest => rfl
  clientSeen := .inl (fun e mem => by contradiction)
  serverSeen := .inl (fun e mem => by contradiction)

/- Every move keeps it. The side that moves was not through before, so it has not found
the end of the stream, and nobody has found its end. -/
theorem movedExplained {c next : Connection} {w : Move}
    (here : Explained t RQ maxRetries REQ_SIZE MAX_RESPONSE_SIZE handler state req buffer c)
    (moved : Moved t maxRetries MAX_RESPONSE_SIZE handler state buffer c w next) :
    Explained t RQ maxRetries REQ_SIZE MAX_RESPONSE_SIZE handler state req buffer next := by
  obtain ⟨upward,downward,client,server,clientSeen,serverSeen⟩ := here
  cases moved with
  | @clientWrites todo n phase more =>
    rw [phase] at client clientSeen serverSeen
    obtain ⟨fresh,head,built,whole⟩ := client
    exact {
      upward := by rw [upward, List.append_assoc]
      downward := downward
      client := ⟨fresh,head,built,by rw [List.append_assoc, List.take_append_drop, whole]⟩
      server := server
      clientSeen := clientSeen
      serverSeen := serverSeen }
  | clientFlushes phase =>
    rw [phase] at client clientSeen serverSeen
    obtain ⟨fresh,head,built,whole⟩ := client
    rw [List.append_nil] at whole
    exact {
      upward := upward
      downward := downward
      client := by
        rw [fresh, whole]
        exact clientReadingAt t maxRetries buffer built fun rest => rfl
      server := server
      clientSeen := .inl (clientSeen.open fun through => by simp [ClientPhase.result] at through)
      serverSeen := .inl (serverSeen.open fun through => by simp [ClientPhase.result] at through) }
  | @clientReads s n phase more room =>
    rw [phase] at client clientSeen serverSeen
    have goes := clientSeen.open fun through => by simp [ClientPhase.result] at through
    exact {
      upward := upward
      downward := downward.trans (arrivedTaken goes more)
      client := clientSeesAt client _
      server := server
      clientSeen := .inl (ongoingMore goes (takeSome more))
      serverSeen := .inl (serverSeen.open fun through => by simp [ClientPhase.result] at through) }
  | @clientEnds s phase none through =>
    rw [phase] at client clientSeen serverSeen
    have goes := clientSeen.open fun through => by simp [ClientPhase.result] at through
    exact {
      upward := upward
      downward := downward.trans (arrivedSame goes rfl c.down)
      client := clientSeesAt client .close
      server := server
      clientSeen := .inr ⟨⟨_,rfl,goes⟩,rfl,through,none⟩
      serverSeen := .inl (serverSeen.open fun through => by simp [ClientPhase.result] at through) }
  | @clientReadFails s phase =>
    rw [phase] at client clientSeen serverSeen
    have goes := clientSeen.open fun through => by simp [ClientPhase.result] at through
    exact {
      upward := upward
      downward := downward.trans (arrivedSame goes rfl c.down)
      client := clientSeesAt client .fault
      server := server
      clientSeen := .inl (ongoingMore goes trivial)
      serverSeen := .inl (serverSeen.open fun through => by simp [ClientPhase.result] at through) }
  | clientWriteFails phase =>
    rw [phase] at client clientSeen serverSeen
    obtain ⟨fresh,head,built,whole⟩ := client
    exact {
      upward := upward
      downward := downward
      client := by rw [fresh]; exact clientCut built whole
      server := server
      clientSeen := .inl (clientSeen.open fun through => by simp [ClientPhase.result] at through)
      serverSeen := .inl (serverSeen.open fun through => by simp [ClientPhase.result] at through) }
  | @serverReads s n phase more room =>
    rw [phase] at server clientSeen serverSeen
    have goes := serverSeen.open fun through => by simp [ServerPhase.result] at through
    exact {
      upward := upward.trans (arrivedTaken goes more)
      downward := downward
      client := client
      server := serverSeesAt server _
      clientSeen := .inl (clientSeen.open fun through => by simp [ServerPhase.result] at through)
      serverSeen := .inl (ongoingMore goes (takeSome more)) }
  | @serverEnds s phase none through =>
    rw [phase] at server clientSeen serverSeen
    have goes := serverSeen.open fun through => by simp [ServerPhase.result] at through
    exact {
      upward := upward.trans (arrivedSame goes rfl c.up)
      downward := downward
      client := client
      server := serverSeesAt server .close
      clientSeen := .inl (clientSeen.open fun through => by simp [ServerPhase.result] at through)
      serverSeen := .inr ⟨⟨_,rfl,goes⟩,rfl,through⟩ }
  | @serverReadFails s phase =>
    rw [phase] at server clientSeen serverSeen
    have goes := serverSeen.open fun through => by simp [ServerPhase.result] at through
    exact {
      upward := upward.trans (arrivedSame goes rfl c.up)
      downward := downward
      client := client
      server := serverSeesAt server .fault
      clientSeen := .inl (clientSeen.open fun through => by simp [ServerPhase.result] at through)
      serverSeen := .inl (ongoingMore goes trivial) }
  | @serverWrites todo n phase more =>
    rw [phase] at server clientSeen serverSeen
    obtain ⟨q,b,handled,ask,built,whole⟩ := server
    exact {
      upward := upward
      downward := by rw [downward, List.append_assoc]
      client := client
      server := ⟨q,b,handled,ask,built,by rw [List.append_assoc, List.take_append_drop, whole]⟩
      clientSeen := .inl (clientSeen.open fun through => by simp [ServerPhase.result] at through)
      serverSeen := serverSeen }
  | serverCloses phase =>
    rw [phase] at server clientSeen serverSeen
    obtain ⟨q,b,handled,ask,built,whole⟩ := server
    rw [List.append_nil] at whole
    exact {
      upward := upward
      downward := downward
      client := client
      server := fun rest => by
        rw [servedExact, ask]
        simp only [reply, built, handled, whole]
        rfl
      clientSeen := .inl (clientSeen.open fun through => by simp [ServerPhase.result] at through)
      serverSeen := .inl (serverSeen.open fun through => by simp [ServerPhase.result] at through) }
  | serverWriteFails phase =>
    rw [phase] at server clientSeen serverSeen
    obtain ⟨q,b,handled,ask,built,whole⟩ := server
    exact {
      upward := upward
      downward := downward
      client := client
      server := by
        have failed := serverCut ask built whole
        rwa [handled]
      clientSeen := .inl (clientSeen.open fun through => by simp [ServerPhase.result] at through)
      serverSeen := .inl (serverSeen.open fun through => by simp [ServerPhase.result] at through) }

theorem clientScript {phase : ClientPhase} {saw : List (ReadEvent UInt8)} {sent : Bytes}
    (here : ClientAt t RQ maxRetries req buffer phase saw sent) : ∃ writes,
      let run := requestWithRetryDelay t RQ maxRetries ⟨saw,writes,[]⟩ req buffer
      run.written = sent ∧ ∀ r, phase.result = some r → run.result = r := by
  cases phase with
  | writing todo =>
    obtain ⟨rfl,head,built,whole⟩ := here
    obtain ⟨_,writes,_,written⟩ := clientCut (t := t) built whole
    exact ⟨writes,written,fun r through => by contradiction⟩
  | reading s =>
    obtain ⟨head,built,rfl,_⟩ := here
    exact ⟨[],(exchangeAt t maxRetries buffer built saw).2,fun r through => by contradiction⟩
  | done result =>
    obtain ⟨same,written⟩ := here []
    rw [List.append_nil] at same written
    exact ⟨[],written,fun r through => same.trans (Option.some.inj through)⟩
  | failed =>
    obtain ⟨rfl,writes,same,written⟩ := here
    exact ⟨writes,written,fun r through => same.trans (Option.some.inj through)⟩

theorem serverScript {phase : ServerPhase} {saw : List (ReadEvent UInt8)} {sent : Bytes}
    {handled : List HttpRequest}
    (here : ServerAt t REQ_SIZE MAX_RESPONSE_SIZE handler state phase saw sent handled) : ∃ writes,
      let served :=
        handleHttpConnectionWithSizes t REQ_SIZE MAX_RESPONSE_SIZE handler state ⟨saw,writes,[]⟩
      served.written = sent ∧ served.handled = handled ∧ ∀ r, phase.result = some r →
      served.result = r := by
  cases phase with
  | reading s =>
    obtain ⟨rfl,rfl,more,same⟩ := here
    have waits : readRequest t saw (List.replicate REQ_SIZE 0) = ⟨.pending,s.buf⟩ := by
      have run := same []
      rw [List.append_nil] at run
      rw [run, readRequestLoop.eq_def, if_pos more]
    have ask : accepted t REQ_SIZE ⟨saw,[],[]⟩ = .pending := by simp only [accepted, waits]; rfl
    exact ⟨[],by rw [servedExact, ask],by rw [servedExact, ask],fun r through => by contradiction⟩
  | writing todo =>
    obtain ⟨q,b,rfl,ask,built,whole⟩ := here
    obtain ⟨writes,cut⟩ := serverCut ask built whole
    have served := cut []
    rw [List.append_nil] at served
    exact ⟨writes,by rw [served],by rw [served],fun r through => by contradiction⟩
  | done result =>
    have served := here []
    rw [List.append_nil] at served
    exact ⟨[],
      by rw [served],by rw [served],fun r through => by rw [served]; exact Option.some.inj through⟩
  | failed =>
    obtain ⟨writes,cut⟩ := here
    have served := cut []
    rw [List.append_nil] at served
    exact ⟨writes,
      by rw [served],by rw [served],fun r through => by rw [served]; exact Option.some.inj through⟩

theorem afterExplained {moves : List Move} {c : Connection}
    (run : after (step t maxRetries MAX_RESPONSE_SIZE handler state buffer)
      (start RQ REQ_SIZE MAX_RESPONSE_SIZE handler state req) moves = some c) :
    Explained t RQ maxRetries REQ_SIZE MAX_RESPONSE_SIZE handler state req buffer c :=
  afterKeeps (fun _ => True)
    (fun _ _ _ _ here moved =>
      movedExplained here (stepMoved t maxRetries MAX_RESPONSE_SIZE handler state buffer moved))
    (fun _ _ => trivial) startExplained run

end Explained

def getRoot : HttpClientRequest := ⟨.GET,"h".toList,"/".toList,[],none⟩

def refuses : Handler Nat := fun calls _ => (.error .tcpError,calls + 1)

def begun : Option Connection :=
  after (step .bits32 2 128 refuses 0 (List.replicate 256 0)) (start 64 64 128 refuses 0 getRoot)
    [.clientWrites 9,.serverReads 4,.clientWrites 35,.clientFlushes,.clientReadFails,
      .serverReads 30,.serverReads 9,.serverWrites 49,
      .clientReads 39]

theorem begunSome : ∃ c, begun = some c ∧ c.handled = [delivered getRoot] ∧ c.client.result = none := by
  obtain ⟨c,run⟩ : ∃ c, begun = some c := Option.isSome_iff_exists.mp (by decide +kernel)
  have seen : begun.map (fun c => (c.handled,c.client.result)) =
    some ([delivered getRoot],none) := by decide +kernel
  rw [run, Option.map_some, Option.some.injEq, Prod.mk.injEq] at seen
  exact ⟨c,run,seen⟩

/- Whoever moves when, and whatever fails: each side is where the function it runs would
be, on reads that bring nothing but what the other has sent. -/
theorem interleavedRefines (t : Target) (RQ maxRetries REQ_SIZE MAX_RESPONSE_SIZE : Nat) {σ : Type}
    (handler : Handler σ) (state : σ) (req : HttpClientRequest) (buffer : Bytes) (moves : List Move)
    (c : Connection)
    (run : after (step t maxRetries MAX_RESPONSE_SIZE handler state buffer)
      (start RQ REQ_SIZE MAX_RESPONSE_SIZE handler state req) moves = some c) :
    ∃ near far : Stream, let exchange := requestWithRetryDelay t RQ maxRetries near req buffer
      let served := handleHttpConnectionWithSizes t REQ_SIZE MAX_RESPONSE_SIZE handler state far
      near.written = [] ∧ far.written = [] ∧ near.reads = c.clientSaw ∧ far.reads = c.serverSaw ∧
      exchange.written = arrived far.reads ++ c.up ∧ served.written = arrived near.reads ++ c.down ∧
      served.handled = c.handled ∧
      (∀ r, c.client.result = some r → exchange.result = r) ∧ ∀ r, c.server.result = some r →
      served.result = r := by
  have here := afterExplained run
  obtain ⟨nearWrites,nearSent,nearResult⟩ := clientScript here.client
  obtain ⟨farWrites,farSent,handled,farResult⟩ := serverScript here.server
  exact ⟨⟨c.clientSaw,nearWrites,[]⟩,⟨c.serverSaw,farWrites,[]⟩,rfl,rfl,rfl,rfl,
    nearSent.trans here.upward,
    farSent.trans here.downward,handled,nearResult,farResult⟩

theorem interleavedRefinesBegun : ∃ near far : Stream,
    (requestWithRetryDelay .bits32 64 2 near getRoot (List.replicate 256 0)).written =
      arrived far.reads ∧
    (handleHttpConnectionWithSizes .bits32 64 128 refuses 0 far).handled = [delivered getRoot] := by
  obtain ⟨c,run,seen⟩ := begunSome
  obtain ⟨near,far,_,_,_,_,written,_,handled,_⟩ :=
    interleavedRefines .bits32 64 2 64 128 refuses 0 getRoot (List.replicate 256 0) _ c run
  have none : begun.map Connection.up = some [] := by decide +kernel
  rw [run, Option.map_some, Option.some.injEq] at none
  rw [none, List.append_nil] at written
  exact ⟨near,far,written,handled.trans seen.1⟩

theorem interleavedSafe (t : Target) {σ : Type} (RQ maxRetries REQ_SIZE MAX_RESPONSE_SIZE : Nat)
    (real : REQ_SIZE ≤ t.isizeMax) (handler : Handler σ) (state : σ) (req : HttpClientRequest)
    (good : Sendable t req) (able : Answerable t (answer (handler state (delivered req)).1))
    (buffer : Bytes) (moves : List Move) (c : Connection)
    (run : after (step t maxRetries MAX_RESPONSE_SIZE handler state buffer)
      (start RQ REQ_SIZE MAX_RESPONSE_SIZE handler state req) moves = some c) :
    (c.handled = [] ∨ c.handled = [delivered req]) ∧
    ∀ response total, c.client.result = some (.ok (response,total)) → c.handled = [delivered req] ∧
      response = received (answer (handler state (delivered req)).1) ∧
      total = (responseWire (answer (handler state (delivered req)).1)).length := by
  have here := afterExplained run
  obtain ⟨nearWrites,nearSent,nearResult⟩ := clientScript here.client
  obtain ⟨farWrites,farSent,handled,_⟩ := serverScript here.server
  obtain ⟨once,kept⟩ :=
    exchangeSafe t RQ maxRetries REQ_SIZE MAX_RESPONSE_SIZE real handler state req good able
    ⟨c.clientSaw,nearWrites,[]⟩ ⟨c.serverSaw,farWrites,[]⟩ buffer ⟨rfl,rfl⟩
      ⟨c.up,(nearSent.trans here.upward).symm⟩
    ⟨c.down,(farSent.trans here.downward).symm⟩
  rw [handled] at once kept
  exact ⟨once,fun response total ok => kept response total (nearResult _ ok)⟩

theorem interleavedSafeBegun :
    ∃ c, begun = some c ∧ (c.handled = [] ∨ c.handled = [delivered getRoot]) := by
  obtain ⟨c,run,_⟩ := begunSome
  obtain ⟨good,able⟩ : Sendable .bits32 getRoot ∧
    Answerable .bits32 (answer (refuses 0 (delivered getRoot)).1) := by decide +kernel
  exact ⟨c,run,(interleavedSafe .bits32 64 2 64 128 (by decide) refuses 0 getRoot good able
    (List.replicate 256 0) _ c run).1⟩

end Nanofish.Interleaved

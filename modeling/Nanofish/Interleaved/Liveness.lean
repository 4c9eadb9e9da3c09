import Nanofish.Interleaved.Measure

/-! Runs in which nothing fails but a few reads of the client: a state in which neither
side can move is one where both are through. -/
namespace Nanofish.Interleaved
open Rust Rust.Utf8 Rust.Reads Rust.Systems
open Protocol Codes Response Codec HeaderBlock Client Request RequestRoundTrip
open Receiving Retries Sending Accepting Server Serving Transport Messages Exchanges

/- A read of the client may fail, as long as it has retries; nothing else fails. -/
def Fine : Move → Prop
  | .clientWriteFails => False
  | .serverReadFails => False
  | .serverWriteFails => False
  | _ => True

def Calm (w : Move) : Prop := Fine w ∧ w ≠ .clientReadFails

instance (w : Move) : Decidable (Fine w) := by cases w <;> unfold Fine <;> infer_instance
instance (w : Move) : Decidable (Calm w) := by unfold Calm; infer_instance

section Pieces
variable {events : List (ReadEvent UInt8)} (goes : ∀ e ∈ events, Ongoing e)
include goes

theorem calmPieces :
    ∃ reads : List Bytes, calm events = reads.map ReadEvent.data ∧ (∀ r ∈ reads, r ≠ []) ∧
    reads.flatten = arrived events := by
  induction events with
  | nil => exact ⟨[],rfl,by simp,rfl⟩
  | cons e rest ih =>
    obtain ⟨reads,same,some,whole⟩ := ih fun d mem => goes d (List.mem_cons_of_mem e mem)
    have own := goes e List.mem_cons_self
    cases e with
    | close => exact own.elim
    | fault => exact ⟨reads,(List.filter_cons_of_neg (by simp)).trans same,some,whole⟩
    | data fragment =>
      refine ⟨fragment :: reads,?_,List.forall_mem_cons.mpr ⟨own,some⟩,?_⟩
      · rw [List.map_cons, ← same]
        exact List.filter_cons_of_pos (by simp)
      · rw [List.flatten_cons, whole, arrivedFragment own]

theorem pieces (none : .fault ∉ events) :
    ∃ reads : List Bytes, events = reads.map ReadEvent.data ∧ (∀ r ∈ reads, r ≠ []) ∧
    reads.flatten = arrived events := by
  obtain ⟨reads,same,rest⟩ := calmPieces goes
  refine ⟨reads,?_,rest⟩
  rw [← same, calm, List.filter_eq_self.mpr]
  intro e mem
  exact decide_eq_true fun fault => none (fault ▸ mem)

end Pieces

theorem lastPiece (xs : Bytes) : ∃ reads : List Bytes, (∀ r ∈ reads, r ≠ []) ∧ reads.flatten = xs := by
  by_cases none : xs = []
  · exact ⟨[],by simp,none.symm⟩
  · exact ⟨[xs],by simpa using none,List.append_nil xs⟩

theorem closeScript {events : List (ReadEvent UInt8)} {through other : Prop} {line : Bytes}
    (seen : Seen events (through ∧ other ∧ line = [])) :
    ∃ (rest : List (ReadEvent UInt8)) (reads : List Bytes),
      calm (events ++ rest) = reads.map ReadEvent.data ++ [.close] ∧ (∀ r ∈ reads, r ≠ []) ∧
      reads.flatten = arrived events ++ line ∧
      (events ++ rest).count .fault = events.count .fault := by
  rcases seen with goes | ⟨⟨front,rfl,goes⟩,_,_,rfl⟩
  · obtain ⟨reads,quiet,some,whole⟩ := calmPieces goes
    obtain ⟨more,nonempty,rest⟩ := lastPiece line
    have still : calm (more.map ReadEvent.data ++ [.close]) = more.map ReadEvent.data ++ [.close] :=
      List.filter_eq_self.mpr fun e mem => by
        rcases List.mem_append.mp mem with mem | mem
        · obtain ⟨r,_,rfl⟩ := List.mem_map.mp mem
          simp
        · rw [List.mem_singleton.mp mem]
          simp
    refine ⟨more.map ReadEvent.data ++ [.close],reads ++ more,?_,?_,?_,?_⟩
    · rw [calm, List.filter_append, ← calm, ← calm, quiet, still, List.map_append, List.append_assoc]
    · exact fun r mem => (List.mem_append.mp mem).elim (some r) (nonempty r)
    · rw [List.flatten_append, whole, rest]
    · have none : (more.map ReadEvent.data ++ [ReadEvent.close]).count ReadEvent.fault = 0 :=
        List.count_eq_zero.mpr fun mem => by
          have kept := still ▸ mem
          simp [calm] at kept
      rw [List.count_append, none, Nat.add_zero]
  · obtain ⟨reads,quiet,some,whole⟩ := calmPieces goes
    refine ⟨[],reads,?_,some,?_,by rw [List.append_nil]⟩
    · rw [List.append_nil, calm, List.filter_append, ← calm, quiet]
      rfl
    · rw [whole, ongoingArrived goes, show arrived [ReadEvent.close] = ([] : Bytes) from rfl,
        List.append_nil, List.append_nil]

section Live
variable {t : Target} {RQ maxRetries REQ_SIZE MAX_RESPONSE_SIZE : Nat} {σ : Type}
  {handler : Handler σ} {state : σ}
  {req : HttpClientRequest} {buffer : Bytes} {c : Connection}

structure Smooth (maxRetries : Nat) (c : Connection) : Prop where
  client : c.client ≠ .failed
  server : c.server ≠ .failed
  calm : .fault ∉ c.serverSaw
  gaveUp : .close ∈ c.serverSaw → maxRetries ≤ c.clientSaw.count .fault

theorem serverOngoing
    (here : Explained t RQ maxRetries REQ_SIZE MAX_RESPONSE_SIZE handler state req buffer c)
    (smooth : Smooth maxRetries c) (few : c.clientSaw.count .fault < maxRetries) :
    ∀ e ∈ c.serverSaw, Ongoing e := by
  rcases here.serverSeen with goes | ⟨⟨front,closed,_⟩,_⟩
  · exact goes
  · exact absurd (smooth.gaveUp (closed ▸ List.mem_append_right _ (List.mem_singleton_self _)))
      (Nat.not_le_of_lt few)

variable {head : Vec UInt8 RQ}
  (built : buildReq RQ req.method req.host req.path req.headers req.body = .ok head)
  (room : 0 < buffer.length)
  (here : Explained t RQ maxRetries REQ_SIZE MAX_RESPONSE_SIZE handler state req buffer c)
include built room here

/- As long as the server reads there is nothing for the client to read, so it is through
only when its retries are. -/
theorem clientEarly {s : RequestState} (reading : c.server = .reading s)
    (through : c.client.result.isSome = true) (solid : c.client ≠ .failed) :
    maxRetries ≤ c.clientSaw.count .fault := by
  by_contra few
  have few : c.clientSaw.count .fault < maxRetries := Nat.lt_of_not_le few
  have client := here.client
  have server := here.server
  have clientSeen := here.clientSeen
  rw [reading] at server clientSeen
  have goes := clientSeen.open fun through => by simp [ServerPhase.result] at through
  have silent : arrived c.clientSaw = [] := by
    have downward := here.downward
    rw [server.1] at downward
    exact (List.append_eq_nil_iff.mp downward.symm).1
  cases phase : c.client with
  | writing todo => rw [phase] at through; contradiction
  | reading s => rw [phase] at through; contradiction
  | failed => exact solid phase
  | done result =>
    rw [phase] at client
    have same (rest : List (ReadEvent UInt8)) :
        decodeResponse t (readResponse t (c.clientSaw ++ rest) buffer maxRetries) = result :=
      (exchangeAt t maxRetries buffer built _).1.symm.trans (client rest).1
    obtain ⟨reads,quiet,some,whole⟩ := calmPieces goes
    rw [silent] at whole
    have none : reads = [] := List.eq_nil_iff_forall_not_mem.mpr fun r mem =>
      some r mem (List.flatten_eq_nil_iff.mp whole r mem)
    rw [none] at quiet
    have waits := same []
    rw [List.append_nil, responseCalm t few, quiet, readResponse, readLoop.eq_def,
      if_pos (by exact ⟨room,Nat.zero_lt_of_lt few⟩)] at waits
    have ends := same [.close]
    have behind : calm (c.clientSaw ++ [.close]) = [.close] := by
      rw [calm, List.filter_append]
      exact congrArg (· ++ _) quiet
    have fewer : (c.clientSaw ++ [ReadEvent.close]).count ReadEvent.fault < maxRetries := by
      simpa using few
    rw [responseCalm t fewer, behind,
      decodeFailed t (Lengths.closedAtOnce t buffer [] maxRetries)] at ends
    rw [← waits] at ends
    contradiction

omit here in
theorem movedSmooth {next : Connection} {w : Move} (fine : Fine w)
    (before : Explained t RQ maxRetries REQ_SIZE MAX_RESPONSE_SIZE handler state req buffer c ∧
      Smooth maxRetries c)
    (moved : Moved t maxRetries MAX_RESPONSE_SIZE handler state buffer c w next) :
    Smooth maxRetries next := by
  obtain ⟨here,client,server,calm,gaveUp⟩ := before
  have notFailed (s : ReadState) (e : ReadEvent UInt8) : clientSees t s e ≠ .failed := by
    unfold clientSees clientReading
    split
    · simp
    · split <;> simp
  have notBehind {run : RequestRun} :
      (serverBehind MAX_RESPONSE_SIZE handler state run).1 ≠ .failed := by
    unfold serverBehind
    split <;> try simp
    split <;> simp
  have notLost (s : RequestState) (e : ReadEvent UInt8) :
      (serverSees t MAX_RESPONSE_SIZE handler state s e).1 ≠ .failed := by
    unfold serverSees serverReading
    split
    · exact notBehind
    · split
      · simp
      · exact notBehind
  cases moved with
  | clientWrites phase more => exact ⟨by simp,server,calm,gaveUp⟩
  | clientFlushes phase =>
    refine ⟨?_,server,calm,gaveUp⟩
    unfold clientReading
    split <;> simp
  | clientReads phase more room =>
    exact ⟨notFailed _ _,server,calm,fun ends => by simpa [clientTold] using gaveUp ends⟩
  | @clientEnds s phase none through =>
    exact ⟨notFailed s .close,server,calm,fun ends => by simpa [clientTold] using gaveUp ends⟩
  | @clientReadFails s phase =>
    refine ⟨notFailed s .fault,server,calm,fun ends => ?_⟩
    have spent := gaveUp ends
    simp only [clientTold, List.count_append]
    omega
  | clientWriteFails phase => exact fine.elim
  | serverReads phase more room =>
    exact ⟨client,notLost _ _,
      by simpa [serverTold] using calm,fun ends => gaveUp (by simpa [serverTold] using ends)⟩
  | @serverEnds s phase none through =>
    have spent := clientEarly built room here phase through client
    exact ⟨client,notLost s .close,by simpa [serverTold] using calm,fun _ => spent⟩
  | serverReadFails phase => exact fine.elim
  | serverWrites phase more => exact ⟨client,by simp,calm,gaveUp⟩
  | serverCloses phase => exact ⟨client,by simp,calm,gaveUp⟩
  | serverWriteFails phase => exact fine.elim

omit room in
theorem clientWhole (solid : c.client ≠ .failed) (behind : ∀ todo, c.client ≠ .writing todo) :
    c.clientSent = requestWire req := by
  have client := here.client
  cases phase : c.client with
  | writing todo => exact absurd phase (behind todo)
  | reading s =>
    rw [phase] at client
    obtain ⟨head,built,whole,_⟩ := client
    rw [whole, requestBuilt built]
  | done result =>
    rw [phase] at client
    have written := (client []).2
    rw [(exchangeAt t maxRetries buffer built _).2, requestBuilt built] at written
    exact written.symm
  | failed => exact absurd phase solid

section Stuck
variable (stuck : Systems.Stuck (step t maxRetries MAX_RESPONSE_SIZE handler state buffer) Calm c)
include stuck

omit built room here in
theorem stuckClient (todo : Bytes) : c.client ≠ .writing todo := by
  intro phase
  cases todo with
  | nil =>
    have flushes := stuck .clientFlushes ⟨trivial,by simp⟩
    simp [step,phase] at flushes
  | cons x xs =>
    have writes := stuck (.clientWrites 0) ⟨trivial,by simp⟩
    simp [step,phase] at writes

omit built room here in
theorem stuckServer (todo : Bytes) : c.server ≠ .writing todo := by
  intro phase
  cases todo with
  | nil =>
    have closes := stuck .serverCloses ⟨trivial,by simp⟩
    simp [step,phase] at closes
  | cons x xs =>
    have writes := stuck (.serverWrites 0) ⟨trivial,by simp⟩
    simp [step,phase] at writes

omit built room here in
theorem stuckUp {s : RequestState} (phase : c.server = .reading s)
    (more : s.totalRead < s.buf.length) : c.up = [] := by
  by_contra some
  have reads := stuck (.serverReads 0) ⟨trivial,by simp⟩
  have possible : 0 < c.up.length ∧ 0 < s.buf.length - s.totalRead :=
    ⟨List.length_pos_iff.mpr some,by omega⟩
  simp only [step, phase, if_pos possible] at reads
  contradiction

omit built room here in
theorem stuckDown {s : ReadState} (phase : c.client = .reading s) (more : Reads s) :
    c.server.result.isSome = false := by
  by_contra through
  have through : c.server.result.isSome = true := (Bool.not_eq_false _).mp through
  by_cases none : c.down = []
  · have ends := stuck .clientEnds ⟨trivial,by simp⟩
    simp only [step, phase, if_pos (And.intro none through)] at ends
    contradiction
  · have reads := stuck (.clientReads 0) ⟨trivial,by simp⟩
    have possible : 0 < c.down.length ∧ 0 < s.buffer.length - s.totalRead :=
      ⟨List.length_pos_iff.mpr none,Nat.sub_pos_of_lt more.1⟩
    simp only [step, phase, if_pos possible] at reads
    contradiction

variable (smooth : Smooth maxRetries c) (few : c.clientSaw.count .fault < maxRetries)
  (real : REQ_SIZE ≤ t.isizeMax)
  (good : Sendable t req) (fits : (requestWire req).length ≤ REQ_SIZE)
include smooth few real good fits

omit room in
theorem stuckServed : ∃ result, c.server = .done result := by
  have server := here.server
  cases phase : c.server with
  | done result => exact ⟨result,rfl⟩
  | writing todo => exact absurd phase (stuckServer stuck todo)
  | failed => exact absurd phase smooth.server
  | reading s =>
    rw [phase] at server
    obtain ⟨_,_,more,same⟩ := server
    have sent := clientWhole built here smooth.client (stuckClient stuck)
    have upward := here.upward
    rw [sent, stuckUp stuck phase more, List.append_nil] at upward
    obtain ⟨reads,split,some,whole⟩ := pieces (serverOngoing here smooth few) smooth.calm
    have accept := requestArrives t real good.clean good.counted some (whole.trans upward.symm)
      (show (⟨c.serverSaw ++ [],[],[]⟩ : Stream).reads = reads.map ReadEvent.data ++
        [] by rw [split]) fits
    have waits : accepted t REQ_SIZE ⟨c.serverSaw ++ [],[],[]⟩ = .pending := by
      simp only [accepted, same, readRequestLoop.eq_def t [] s, if_pos more]
      rfl
    rw [waits, tryFromWire good.clean good.few] at accept
    contradiction

variable {b : Vec UInt8 MAX_RESPONSE_SIZE}
  (answered : (answer (handler state (delivered req)).1).buildBytes MAX_RESPONSE_SIZE = .ok b)
include answered

omit room in
theorem servedDone :
    c.server = .done (.ok ()) ∧ c.handled = [delivered req] ∧ c.serverSent = b.items := by
  obtain ⟨result,phase⟩ := stuckServed built here stuck smooth few real good fits
  have server := here.server
  rw [phase] at server
  have sent := clientWhole built here smooth.client (stuckClient stuck)
  have upward := here.upward
  rw [sent] at upward
  obtain ⟨reads,split,some,whole⟩ := pieces (serverOngoing here smooth few) smooth.calm
  obtain ⟨more,nonempty,rest⟩ := lastPiece c.up
  have nonempty : ∀ r ∈ reads ++ more, r ≠ [] :=
    fun r mem => (List.mem_append.mp mem).elim (some r) (nonempty r)
  have script : c.serverSaw ++ more.map ReadEvent.data = (reads ++ more).map ReadEvent.data ++ [] := by
    rw [split, List.map_append, List.append_nil]
  have served := servedLive t good real handler state
    (show ∀ w ∈ (⟨c.serverSaw ++ more.map ReadEvent.data,[],[]⟩ : Stream).writes,
      w = .accept by simp) nonempty
    (by rw [List.flatten_append, whole, rest, upward]) script fits answered
  rw [server, List.nil_append] at served
  simp only [Served.mk.injEq] at served
  obtain ⟨rfl,handled,sent⟩ := served
  exact ⟨phase,handled,sent⟩

omit room in
theorem exchangeDone (able : Answerable t (answer (handler state (delivered req)).1))
    (small : b.items.length < buffer.length):
    c.client = .done (.ok (received (answer (handler state (delivered req)).1),b.items.length)) := by
  obtain ⟨phase,_,sent⟩ := servedDone built here stuck smooth few real good fits answered
  have wire : b.items = responseWire (answer (handler state (delivered req)).1) :=
    RoundTrip.buildBytesBlock answered
  have client := here.client
  have downward := here.downward
  rw [sent, wire] at downward
  have through : c.server.result.isSome = true := by rw [phase]; rfl
  cases at' : c.client with
  | writing todo => exact absurd at' (stuckClient stuck todo)
  | failed => exact absurd at' smooth.client
  | reading s =>
    rw [at'] at client
    obtain ⟨_,_,_,more,_⟩ := client
    rw [stuckDown stuck at' more] at through
    contradiction
  | done result =>
    rw [at'] at client
    suffices same : ∃ rest, (requestWithRetryDelay t RQ maxRetries ⟨c.clientSaw ++ rest,[],[]⟩ req
        buffer).result =
        .ok (received (answer (handler state (delivered req)).1),b.items.length) by
      obtain ⟨rest,same⟩ := same
      rw [(client rest).1] at same
      rw [same]
    obtain ⟨rest,reads,quiet,some,whole,count⟩ := closeScript here.clientSeen
    refine ⟨rest,?_⟩
    rw [wire]
    exact (requestLive t (show ∀ w ∈ (⟨c.clientSaw ++ rest,[],[]⟩ : Stream).writes,
      w = .accept by simp) built able (wire ▸ small) some
      (whole.trans downward.symm) quiet (by rw [count]; exact few)).2

end Stuck

end Live

theorem movedCount {t : Target} {maxRetries MAX_RESPONSE_SIZE : Nat} {σ : Type}
    {handler : Handler σ} {state : σ} {buffer : Bytes} {c next : Connection} {w : Move}
    (moved : Moved t maxRetries MAX_RESPONSE_SIZE handler state buffer c w next) :
    next.clientSaw.count .fault = c.clientSaw.count .fault + if decide (w = .clientReadFails) then 1
    else 0 := by
  cases moved <;> simp [clientTold,serverTold]

/- Where a run in which only reads of the client fail, and not too often, ends whenever
nothing can move any more; and from every state of it that end can be reached. -/
theorem interleavedLive (t : Target) {σ : Type} (RQ maxRetries REQ_SIZE MAX_RESPONSE_SIZE : Nat)
    (real : REQ_SIZE ≤ t.isizeMax) (handler : Handler σ) (state : σ) (req : HttpClientRequest)
    (good : Sendable t req) (able : Answerable t (answer (handler state (delivered req)).1))
    (buffer : Bytes) (head : Vec UInt8 RQ)
    (built : buildReq RQ req.method req.host req.path req.headers req.body = .ok head)
    (fits : (requestWire req).length ≤ REQ_SIZE) (b : Vec UInt8 MAX_RESPONSE_SIZE)
    (answered : (answer (handler state (delivered req)).1).buildBytes MAX_RESPONSE_SIZE = .ok b)
    (small : b.items.length < buffer.length) (moves : List Move) (fine : ∀ w ∈ moves, Fine w)
    (few : moves.countP (fun w => decide (w = .clientReadFails)) < maxRetries) (c : Connection)
    (run : after (step t maxRetries MAX_RESPONSE_SIZE handler state buffer)
      (start RQ REQ_SIZE MAX_RESPONSE_SIZE handler state req) moves = some c) :
    let Finished := fun c : Connection => c.handled = [delivered req] ∧ c.serverSent = b.items ∧
    c.server = .done (.ok ()) ∧
      c.client = .done (.ok (received (answer (handler state (delivered req)).1),b.items.length))
    (Stuck (step t maxRetries MAX_RESPONSE_SIZE handler state buffer) Calm c → Finished c) ∧
    ∃ more last, (∀ w ∈ more, Calm w) ∧
    after (step t maxRetries MAX_RESPONSE_SIZE handler state buffer) c more = some last ∧
      Finished last := by
  intro Finished
  have sound {c next : Connection} {w : Move}
      (moved : step t maxRetries MAX_RESPONSE_SIZE handler state buffer c w = some next) :=
    stepMoved t maxRetries MAX_RESPONSE_SIZE handler state buffer moved
  have room : 0 < buffer.length := Nat.zero_lt_of_lt small
  let Inv (c : Connection) : Prop :=
    Explained t RQ maxRetries REQ_SIZE MAX_RESPONSE_SIZE handler state req buffer c ∧ Smooth maxRetries c
  have keeps (c : Connection) (w : Move) (next : Connection) (fine : Fine w) (here : Inv c)
      (moved : step t maxRetries MAX_RESPONSE_SIZE handler state buffer c w = some next) : Inv next :=
    ⟨movedExplained here.1 (sound moved),movedSmooth built room fine here (sound moved)⟩
  have first : Inv (start RQ REQ_SIZE MAX_RESPONSE_SIZE handler state req) := by
    refine ⟨startExplained,?_,?_,by simp [start],by simp [start]⟩
    · simp [start,clientStart,built]
    · simp only [start, serverReading]
      split
      · simp
      · exact ServerPhase.noConfusion
  have counts (c : Connection) (w : Move) (next : Connection)
      (moved : step t maxRetries MAX_RESPONSE_SIZE handler state buffer c w = some next) :=
    movedCount (sound moved)
  -- Whatever state it is: with nothing left to move, both sides are through.
  have ends (c : Connection) (here : Inv c) (few : c.clientSaw.count .fault < maxRetries)
      (stuck : Stuck (step t maxRetries MAX_RESPONSE_SIZE handler state buffer) Calm c) :
      Finished c := by
    obtain ⟨server,handled,sent⟩ := servedDone built here.1 stuck here.2 few real good fits answered
    exact ⟨handled,sent,server,
      exchangeDone built here.1 stuck here.2 few real good fits answered able small⟩
  have here := afterKeeps Fine keeps fine first run
  have spent := afterCounts counts run
  have now : c.clientSaw.count .fault < maxRetries := by
    rw [spent]
    simpa [start] using few
  refine ⟨ends c here now,?_⟩
  obtain ⟨more,last,calm,further,stuck⟩ :=
    stuckReached (fun _ _ _ moved =>
      movedWork maxRetries MAX_RESPONSE_SIZE t handler state (sound moved))
    Calm c
  have none : more.countP (fun w => decide (w = .clientReadFails)) = 0 :=
    List.countP_eq_zero.mpr fun w mem => by simpa using (calm w mem).2
  have there := afterKeeps Fine keeps (fun w mem => (calm w mem).1) here further
  exact ⟨more,last,calm,further,
    ends last there (by rw [afterCounts counts further, none]; exact now) stuck⟩

theorem interleavedLiveBegun : ∃ c more last, begun = some c ∧
    after (step .bits32 2 128 refuses 0 (List.replicate 256 0)) c more = some last ∧
    last.client = .done (.ok (received internalError,105)) := by
  obtain ⟨c,run,_⟩ := begunSome
  obtain ⟨good,able,fits⟩ : Sendable .bits32 getRoot ∧
      Answerable .bits32 (answer (refuses 0 (delivered getRoot)).1) ∧
      (requestWire getRoot).length ≤ 64 := by decide +kernel
  obtain ⟨_,more,last,_,further,_,_,_,done⟩ :=
    interleavedLive .bits32 64 2 64 128 (by decide) refuses 0 getRoot good able
    (List.replicate 256 0) ⟨(requestWire getRoot).take 64,by decide +kernel⟩ (by decide +kernel) fits
    ⟨responseWire internalError,by decide +kernel⟩ (by decide +kernel) (by decide +kernel) _
      (by decide) (by decide) c run
  exact ⟨c,more,last,run,further,done⟩

end Nanofish.Interleaved

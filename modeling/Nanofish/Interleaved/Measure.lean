import Nanofish.Interleaved.Refinement

/-! How much two sides can still do: every octet is written once and read once, and every
failing read costs a retry. -/
namespace Nanofish.Interleaved
open Rust Rust.Utf8 Rust.Reads Rust.Systems
open Protocol Codes Response Codec HeaderBlock Client Request RequestRoundTrip
open Receiving Retries Sending Accepting Server Serving Transport Messages Exchanges

section Measure
variable (maxRetries MAX_RESPONSE_SIZE : Nat)

-- What a side still has to do at most: each octet is written once and read once.
def clientWork : ClientPhase → Nat
  | .writing todo => 2 * todo.length + 2 + maxRetries
  | .reading s => 1 + s.retries
  | _ => 0

def serverWork : ServerPhase → Nat
  | .reading _ => 2 * MAX_RESPONSE_SIZE + 2
  | .writing todo => 2 * todo.length + 1
  | _ => 0

@[simp] theorem clientWorkWriting (todo : Bytes) :
    clientWork maxRetries (.writing todo) = 2 * todo.length + 2 + maxRetries := rfl
@[simp] theorem clientWorkReading (s : ReadState) :
    clientWork maxRetries (.reading s) = 1 + s.retries := rfl
@[simp] theorem clientWorkDone (r : Outcome Error (HttpResponse × Nat)) :
    clientWork maxRetries (.done r) = 0 := rfl
@[simp] theorem clientWorkFailed : clientWork maxRetries .failed = 0 := rfl
@[simp] theorem serverWorkReading (s : RequestState) :
    serverWork MAX_RESPONSE_SIZE (.reading s) = 2 * MAX_RESPONSE_SIZE + 2 := rfl
@[simp] theorem serverWorkWriting (todo : Bytes) :
    serverWork MAX_RESPONSE_SIZE (.writing todo) = 2 * todo.length + 1 := rfl
@[simp] theorem serverWorkDone (r : Outcome Error Unit) :
    serverWork MAX_RESPONSE_SIZE (.done r) = 0 := rfl
@[simp] theorem serverWorkFailed : serverWork MAX_RESPONSE_SIZE .failed = 0 := rfl

def work (c : Connection) : Nat :=
  clientWork maxRetries c.client + serverWork MAX_RESPONSE_SIZE c.server + c.up.length + c.down.length

variable (t : Target) {σ : Type} (handler : Handler σ) (state : σ)

theorem readingWork (s : ReadState) : clientWork maxRetries (clientReading t s) ≤ 1 + s.retries := by
  unfold clientReading
  split
  · exact Nat.le_refl _
  · exact Nat.zero_le _

theorem dataWork (s : ReadState) (fragment : Bytes) :
    clientWork maxRetries (clientSees t s (.data fragment)) ≤ 1 + s.retries := by
  simp only [clientSees]
  cases moved : readStep t s (.data fragment) with
  | inl run => exact Nat.zero_le _
  | inr next =>
    have kept : next.retries = s.retries := by
      simp only [readStep] at moved
      split at moved
      · contradiction
      · split at moved <;> cases moved
        rfl
    exact kept ▸ readingWork maxRetries t next

theorem faultWork (s : ReadState) : clientWork maxRetries (clientSees t s .fault) < 1 + s.retries := by
  simp only [clientSees, readStep]
  by_cases last : s.retries - 1 = 0
  · simp only [if_pos last, clientWork]
    omega
  · simp only [if_neg last]
    have behind := readingWork maxRetries t { s with retries := s.retries - 1, delays := s.delays + 1 }
    simp only at behind
    omega

theorem behindWork (run : RequestRun) :
    serverWork MAX_RESPONSE_SIZE (serverBehind MAX_RESPONSE_SIZE handler state run).1 <
      2 * MAX_RESPONSE_SIZE + 2 := by
  unfold serverBehind
  split
  · exact Nat.succ_pos _
  · exact Nat.succ_pos _
  · exact Nat.succ_pos _
  · split
    · exact Nat.succ_pos _
    · exact Nat.succ_pos _
    · exact Nat.succ_pos _
    · rename_i b _
      have fits := b.fits
      simp only [serverWork]
      omega

theorem requestWork (s : RequestState) :
    serverWork MAX_RESPONSE_SIZE (serverReading MAX_RESPONSE_SIZE handler state s).1 ≤
      2 * MAX_RESPONSE_SIZE + 2 := by
  unfold serverReading
  split
  · exact Nat.le_refl _
  · exact Nat.le_of_lt (behindWork MAX_RESPONSE_SIZE handler state _)

theorem seesWork (s : RequestState) (e : ReadEvent UInt8) :
    serverWork MAX_RESPONSE_SIZE (serverSees t MAX_RESPONSE_SIZE handler state s e).1 ≤
      2 * MAX_RESPONSE_SIZE + 2 := by
  unfold serverSees
  split
  · exact Nat.le_of_lt (behindWork MAX_RESPONSE_SIZE handler state _)
  · exact requestWork MAX_RESPONSE_SIZE handler state _

theorem endWork (s : RequestState) {e : ReadEvent UInt8} (ends : e = .close ∨ e = .fault) :
    serverWork MAX_RESPONSE_SIZE (serverSees t MAX_RESPONSE_SIZE handler state s e).1 <
      2 * MAX_RESPONSE_SIZE + 2 := by
  rcases ends with rfl | rfl
  · exact behindWork MAX_RESPONSE_SIZE handler state _
  · exact behindWork MAX_RESPONSE_SIZE handler state _

theorem movedWork {buffer : Bytes} {c next : Connection} {w : Move}
    (moved : Moved t maxRetries MAX_RESPONSE_SIZE handler state buffer c w next) :
    work maxRetries MAX_RESPONSE_SIZE next < work maxRetries MAX_RESPONSE_SIZE c := by
  cases moved with
  | clientWrites phase more =>
    simp only [work, phase, clientWorkWriting, List.length_append, List.length_take, List.length_drop]
    omega
  | clientFlushes phase =>
    have behind := readingWork maxRetries t ⟨buffer,0,maxRetries,0⟩
    simp only at behind
    simp only [work, phase, clientWorkWriting, List.length_nil]
    omega
  | @clientReads s n phase more room =>
    have behind := dataWork maxRetries t s (c.down.take (n + 1))
    simp only [work, phase, clientWorkReading, clientTold, List.length_drop]
    omega
  | clientEnds phase none through =>
    simp only [work, phase, clientWorkReading, clientTold, clientSees, readStep, clientWorkDone]
    omega
  | @clientReadFails s phase =>
    have behind := faultWork maxRetries t s
    simp only [work, phase, clientWorkReading, clientTold]
    omega
  | clientWriteFails phase =>
    simp only [work, phase, clientWorkWriting, clientWorkFailed]
    omega
  | @serverReads s n phase more room =>
    have behind := seesWork MAX_RESPONSE_SIZE t handler state s (.data (c.up.take (n + 1)))
    simp only [work, phase, serverWorkReading, serverTold, List.length_drop]
    omega
  | @serverEnds s phase none through =>
    have behind := endWork MAX_RESPONSE_SIZE t handler state s (.inl rfl)
    simp only [work, phase, serverWorkReading, serverTold]
    omega
  | @serverReadFails s phase =>
    have behind := endWork MAX_RESPONSE_SIZE t handler state s (.inr rfl)
    simp only [work, phase, serverWorkReading, serverTold]
    omega
  | serverWrites phase more =>
    simp only [work, phase, serverWorkWriting, List.length_append, List.length_take, List.length_drop]
    omega
  | serverCloses phase =>
    simp only [work, phase, serverWorkWriting, serverWorkDone]
    omega
  | serverWriteFails phase =>
    simp only [work, phase, serverWorkWriting, serverWorkFailed]
    omega

end Measure

theorem startWork (maxRetries MAX_RESPONSE_SIZE RQ REQ_SIZE : Nat) {σ : Type} (handler : Handler σ)
    (state : σ) (req : HttpClientRequest) :
    work maxRetries MAX_RESPONSE_SIZE (start RQ REQ_SIZE MAX_RESPONSE_SIZE handler state req) ≤
      2 * (requestWire req).length + maxRetries + 2 * MAX_RESPONSE_SIZE + 4 := by
  have server := requestWork MAX_RESPONSE_SIZE handler state ⟨List.replicate REQ_SIZE 0,0,none⟩
  have client : clientWork maxRetries (clientStart RQ req) ≤ 2 * (requestWire req).length + 2 +
      maxRetries := by
    unfold clientStart
    cases built : buildReq RQ req.method req.host req.path req.headers req.body with
    | ok head =>
      simp only [requestBuilt built]
      exact Nat.le_refl _
    | err e => exact Nat.zero_le _
    | panic => exact Nat.zero_le _
    | pending => exact Nat.zero_le _
  simp only [work, start, List.length_nil]
  omega

theorem interleavedBounded (t : Target) (RQ maxRetries REQ_SIZE MAX_RESPONSE_SIZE : Nat) {σ : Type}
    (handler : Handler σ) (state : σ) (req : HttpClientRequest) (buffer : Bytes) (moves : List Move)
    (c : Connection)
    (run : after (step t maxRetries MAX_RESPONSE_SIZE handler state buffer)
      (start RQ REQ_SIZE MAX_RESPONSE_SIZE handler state req) moves = some c) :
    moves.length ≤ 2 * (requestWire req).length + maxRetries + 2 * MAX_RESPONSE_SIZE + 4 := by
  have bounded := afterBounded (fun _ _ _ moved => movedWork maxRetries MAX_RESPONSE_SIZE t handler state
    (stepMoved t maxRetries MAX_RESPONSE_SIZE handler state buffer moved)) run
  have first := startWork maxRetries MAX_RESPONSE_SIZE RQ REQ_SIZE handler state req
  omega

theorem interleavedBoundedBegun : 9 ≤ 2 * (requestWire getRoot).length + 2 + 2 * 128 + 4 := by
  obtain ⟨c,run,_⟩ := begunSome
  exact interleavedBounded .bits32 64 2 64 128 refuses 0 getRoot (List.replicate 256 0) _ c run

end Nanofish.Interleaved

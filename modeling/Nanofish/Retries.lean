import Nanofish.Receiving
import Nanofish.Sending

/-! Read errors between the reads of one response. As long as the retries last, the loop
goes on as if the errors were not there; the request itself is written before the loop
and never again. -/
namespace Nanofish.Retries
open Rust Rust.Utf8 Rust.Reads
open Protocol Codec Client Receiving Sending

def calm (events : List (ReadEvent UInt8)) : List (ReadEvent UInt8) := events.filter (· ≠ .fault)

section Loop
variable (t : Target)

/- The read errors met before the loop ends, were there no limit to them: it ends
with a complete response, at the end of the stream, or with the buffer full. -/
def errorsMet (cap : Nat) : Bytes → List (ReadEvent UInt8) → Nat
  | _, [] => 0
  | held, event :: rest =>
    if held.length < cap then
      match event with
      | .fault => errorsMet cap held rest + 1
      | .close => 0
      | .data fragment =>
        if fragment = [] then 0
        else if complete t (grow cap held fragment) then 0
        else errorsMet cap (grow cap held fragment) rest
    else 0

variable (buffer : Bytes)

theorem loopFault {held : Bytes} {retries : Nat} (tries : 0 < retries) (delays : Nat)
    (rest : List (ReadEvent UInt8)) (room : held.length < buffer.length) :
    readLoop t (.fault :: rest) (holding buffer held retries delays) =
      if retries = 1 then ⟨.err .tcpError,filled buffer held,delays⟩
      else readLoop t rest (holding buffer held (retries - 1) (delays + 1)) := by
  have bound := Nat.le_of_lt room
  have last : retries - 1 = 0 ↔ retries = 1 := by omega
  rw [readLoop, if_pos (by exact ⟨by rwa [holding, filledLength bound],tries⟩)]
  simp only [holding, last]

theorem loopEmpty {held : Bytes} {retries : Nat} (tries : 0 < retries) (delays : Nat)
    (rest : List (ReadEvent UInt8)) (room : held.length < buffer.length) :
    readLoop t (.data [] :: rest) (holding buffer held retries delays) =
      readEnd t (holding buffer held retries delays) true := by
  have bound := Nat.le_of_lt room
  rw [readLoop, if_pos (by exact ⟨by rwa [holding, filledLength bound],tries⟩)]
  simp only [List.take_nil, List.length_nil, if_true]

theorem loopClose {held : Bytes} {retries : Nat} (tries : 0 < retries) (delays : Nat)
    (rest : List (ReadEvent UInt8)) (room : held.length < buffer.length) :
    readLoop t (.close :: rest) (holding buffer held retries delays) =
      readEnd t (holding buffer held retries delays) true := by
  have bound := Nat.le_of_lt room
  rw [readLoop, if_pos (by exact ⟨by rwa [holding, filledLength bound],tries⟩)]

theorem loopWaits {held : Bytes} {retries : Nat} (tries : 0 < retries) (delays : Nat)
    (room : held.length < buffer.length) :
    readLoop t [] (holding buffer held retries delays) = ⟨.pending,filled buffer held,delays⟩ := by
  have bound := Nat.le_of_lt room
  rw [readLoop, if_pos (by exact ⟨by rwa [holding, filledLength bound],tries⟩)]
  rfl

theorem errorsMetFull {held : Bytes} (full : ¬ held.length < buffer.length)
    (events : List (ReadEvent UInt8)) :
    errorsMet t buffer.length held events = 0 := by
  cases events with
  | nil => rfl
  | cons event rest => cases event <;> exact if_neg full

/- Both runs of the simulation, from what they hold: the one with errors is behind by
the delays only, until its retries are used up. -/
def Simulated (events : List (ReadEvent UInt8)) (held : Bytes) (retries delays : Nat)
    (quiet : ReadRun) : Prop :=
  let run := readLoop t events (holding buffer held retries delays)
  let met := errorsMet t buffer.length held events
  (met < retries → run = { quiet with delays := delays + met }) ∧
    (retries ≤ met → run.result = .err .tcpError ∧ run.delays + 1 = delays + retries)

theorem simulatedAt {events : List (ReadEvent UInt8)} {held : Bytes} {retries delays : Nat}
    (tries : 0 < retries) {quiet : ReadRun} (none : errorsMet t buffer.length held events = 0)
    (same : readLoop t events (holding buffer held retries delays) = { quiet with delays := delays }) :
    Simulated t buffer events held retries delays quiet :=
  ⟨fun _ => by rw [same, none, Nat.add_zero],fun spent => by rw [none] at spent; omega⟩

theorem loopSimulates {first : Nat} (able : 0 < first) (events : List (ReadEvent UInt8)) {held : Bytes}
    (bound : held.length ≤ buffer.length) {retries : Nat} (tries : 0 < retries) (delays : Nat) :
    Simulated t buffer events held retries delays
      (readLoop t (calm events) (holding buffer held first 0)) := by
  induction events generalizing held retries delays with
  | nil =>
    refine simulatedAt t buffer tries rfl ?_
    by_cases room : held.length < buffer.length
    · rw [loopWaits t buffer tries delays room, calm, List.filter_nil, loopWaits t buffer able 0 room]
    · rw [loopEnd t buffer room _ bound, loopEnd t buffer room _ bound, readEndHolding, readEndHolding]
  | cons event rest ih =>
    by_cases room : held.length < buffer.length
    · cases event with
      | fault =>
        have skipped : calm (.fault :: rest) = calm rest := List.filter_cons_of_neg (by simp)
        have met : errorsMet t buffer.length held (.fault :: rest) =
          errorsMet t buffer.length held rest + 1 := if_pos room
        unfold Simulated
        rw [loopFault t buffer tries delays rest room, skipped, met]
        by_cases last : retries = 1
        · rw [if_pos last]
          exact ⟨fun more => by omega,fun _ => ⟨rfl,by rw [last]⟩⟩
        · rw [if_neg last]
          obtain ⟨goes,stops⟩ := ih bound (show 0 < retries - 1 by omega) (delays + 1)
          refine ⟨fun more => ?_,fun spent => ?_⟩
          · rw [goes (by omega), Nat.add_right_comm, Nat.add_assoc]
          · obtain ⟨failed,paused⟩ := stops (by omega)
            exact ⟨failed,by omega⟩
      | close =>
        have kept : calm (.close :: rest) = .close :: calm rest := List.filter_cons_of_pos (by simp)
        refine simulatedAt t buffer tries (if_pos room) ?_
        rw [kept, loopClose t buffer tries delays rest room, loopClose t buffer able 0 _ room,
          readEndHolding, readEndHolding]
      | data fragment =>
        have kept : calm (.data fragment :: rest) = .data fragment :: calm rest :=
          List.filter_cons_of_pos (by simp)
        have within := growLength buffer.length held fragment bound
        rw [kept]
        by_cases empty : fragment = []
        · subst empty
          refine simulatedAt t buffer tries (by simp only [errorsMet, room, if_true]) ?_
          rw [loopEmpty t buffer tries delays rest room, loopEmpty t buffer able 0 _ room,
            readEndHolding, readEndHolding]
        · rw [loopData t buffer able 0 empty _ room]
          by_cases done : complete t (grow buffer.length held fragment) = true
          · refine simulatedAt t buffer tries
              (by simp only [errorsMet, room, empty, done, if_true, if_false]) ?_
            rw [loopData t buffer tries delays empty rest room, if_pos done, if_pos done]
          · have next := ih within tries delays
            have met : errorsMet t buffer.length held (.data fragment :: rest) =
                errorsMet t buffer.length (grow buffer.length held fragment) rest := by
              simp only [errorsMet, room, empty, done, if_true, if_false, Bool.false_eq_true]
            unfold Simulated at next ⊢
            rw [loopData t buffer tries delays empty rest room, if_neg done, if_neg done, met]
            exact next
    · refine simulatedAt t buffer tries (errorsMetFull t buffer room _) ?_
      rw [loopEnd t buffer room _ bound, loopEnd t buffer room _ bound, readEndHolding, readEndHolding]

end Loop

section Exchange
variable (t : Target) (RQ maxRetries : Nat) (stream : Stream) (req : HttpClientRequest) (buffer : Bytes)

/- A request that went out is followed by the read loop; one that did not ends the
exchange before it. -/
theorem exchangeSent (done : sent RQ stream req = true) (reads : List (ReadEvent UInt8)) :
    (requestWithRetryDelay t RQ maxRetries { stream with reads := reads } req buffer).result =
        decodeResponse t (readResponse t reads buffer maxRetries) ∧
      (requestWithRetryDelay t RQ maxRetries { stream with reads := reads } req buffer).delays =
        (readResponse t reads buffer maxRetries).delays := by
  unfold sent at done
  unfold requestWithRetryDelay
  cases built : buildReq RQ req.method req.host req.path req.headers req.body with
  | ok httpRequest =>
    simp only [built] at done
    simp only [sendScript, done, and_self]
  | err e => simp [built] at done
  | panic => simp [built] at done
  | pending => simp [built] at done

theorem exchangeUnsent (lost : sent RQ stream req = false) (reads : List (ReadEvent UInt8)) :
    requestWithRetryDelay t RQ maxRetries { stream with reads := reads } req buffer =
        requestWithRetryDelay t RQ maxRetries stream req buffer ∧
      (requestWithRetryDelay t RQ maxRetries stream req buffer).delays = 0 := by
  unfold sent at lost
  unfold requestWithRetryDelay
  cases built : buildReq RQ req.method req.host req.path req.headers req.body with
  | ok httpRequest =>
    simp only [built] at lost
    simp only [sendScript]
    rcases written : send stream httpRequest.items req.body with ⟨_ | _,_⟩
    · exact ⟨rfl,rfl⟩
    · rw [written] at lost; contradiction
  | err e => exact ⟨rfl,rfl⟩
  | panic => exact ⟨rfl,rfl⟩
  | pending => exact ⟨rfl,rfl⟩

def exchangeErrors : Nat := if sent RQ stream req then errorsMet t buffer.length [] stream.reads else 0

theorem exchangeWritten (clear : ∀ w ∈ stream.writes, w = .accept) {head : Vec UInt8 RQ}
    (built : buildReq RQ req.method req.host req.path req.headers req.body = .ok head) :
    (requestWithRetryDelay t RQ maxRetries stream req buffer).written = stream.written ++
      head.items ++ req.body.getD [] := by
  obtain ⟨rest,wrote⟩ := sendClear stream clear head.items req.body
  simp only [requestWithRetryDelay, built, wrote]

theorem decodeFailed {run : ReadRun} {e : Error} (failed : run.result = .err e) :
    decodeResponse t run = .err e := by
  rw [decodeResponse, failed, Outcome.errBind]

end Exchange

theorem retriesTransparent (t : Target) (RQ maxRetries : Nat) (tries : 0 < maxRetries) (stream : Stream)
    (req : HttpClientRequest) (buffer : Bytes) :
    let run := requestWithRetryDelay t RQ maxRetries stream req buffer
    let quiet :=
      requestWithRetryDelay t RQ maxRetries { stream with reads := calm stream.reads } req buffer
    let met := exchangeErrors t RQ stream req buffer
    (met < maxRetries → run.result = quiet.result ∧ run.delays = met) ∧
    (maxRetries ≤ met → run.result = .err .tcpError ∧ run.delays = maxRetries - 1) ∧
    (∀ head, buildReq RQ req.method req.host req.path req.headers req.body = .ok head →
      (∀ w ∈ stream.writes, w = .accept) →
        run.written = stream.written ++ head.items ++ req.body.getD []) ∧
    (∀ e, buildReq RQ req.method req.host req.path req.headers req.body = .err e →
      run.result = .err e ∧ run.written = stream.written) := by
  intro run quiet met
  have outcome : (met < maxRetries → run.result = quiet.result ∧ run.delays = met) ∧
      (maxRetries ≤ met → run.result = .err .tcpError ∧ run.delays = maxRetries - 1) := by
    by_cases done : sent RQ stream req = true
    · obtain ⟨result,delays⟩ := exchangeSent t RQ maxRetries stream req buffer done stream.reads
      obtain ⟨calmResult,_⟩ := exchangeSent t RQ maxRetries stream req buffer done (calm stream.reads)
      obtain ⟨goes,stops⟩ :=
        loopSimulates t buffer tries stream.reads
          (show ([] : Bytes).length ≤ buffer.length from Nat.zero_le _) tries 0
      have count : met = errorsMet t buffer.length [] stream.reads := if_pos done
      refine ⟨fun few => ?_,fun many => ?_⟩
      · have same : readResponse t stream.reads buffer maxRetries =
            { readResponse t (calm stream.reads) buffer maxRetries with delays := 0 + met } := by
          rw [count]; exact goes (count ▸ few)
        exact ⟨by rw [result, calmResult, same]; rfl,by rw [delays, same, Nat.zero_add]⟩
      · obtain ⟨failed,paused⟩ := stops (count ▸ many)
        have last : (readResponse t stream.reads buffer maxRetries).delays + 1 = 0 + maxRetries := paused
        exact ⟨result.trans (decodeFailed t failed),by rw [delays]; omega⟩
    · rw [Bool.not_eq_true] at done
      obtain ⟨same,none⟩ := exchangeUnsent t RQ maxRetries stream req buffer done (calm stream.reads)
      have count : met = 0 := if_neg (by simp [done])
      exact ⟨fun _ => ⟨congrArg Exchange.result same.symm,by rw [count]; exact none⟩,fun many =>
        by omega⟩
  refine ⟨outcome.1,outcome.2,fun head built clear =>
    exchangeWritten t RQ maxRetries stream req buffer clear built,
    fun e failed => ?_⟩
  have same : run = ⟨.err e,stream.written,0⟩ := by simp only [run, requestWithRetryDelay, failed]
  exact ⟨by rw [same],by rw [same]⟩

theorem retriesTransparentOnce :
    let stream : Stream :=
      ⟨[.data (asBytes "HTTP/1.1 200 OK\r\nX: 1\r\n".toList),.fault,.data [13,10],.close],[],[]⟩
    let req : HttpClientRequest := ⟨.GET,"h".toList,"/".toList,[],none⟩
    let buffer := List.replicate 64 0
    let run := requestWithRetryDelay .bits32 128 2 stream req buffer
    let quiet :=
      requestWithRetryDelay .bits32 128 2 { stream with reads := calm stream.reads } req buffer
    exchangeErrors .bits32 128 stream req buffer = 1 ∧ run.result = quiet.result ∧
      run.delays = exchangeErrors .bits32 128 stream req buffer := by
  rw [show "HTTP/1.1 200 OK\r\nX: 1\r\n".toList = _ from String.toList_ofList]
  intro stream req buffer run quiet
  have once : exchangeErrors .bits32 128 stream req buffer = 1 := by decide +kernel
  exact ⟨once,(retriesTransparent .bits32 128 2 (by decide) stream req buffer).1 (by rw [once]; decide)⟩

end Nanofish.Retries

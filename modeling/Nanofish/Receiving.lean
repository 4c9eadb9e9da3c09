import Nanofish.Client
import Nanofish.Parsing

/-! The client's read loop over error-free reads. After each read the buffer's front
is a prefix of the stream, and the loop ends at the first read boundary whose prefix
is complete, at the end of the stream, or with the buffer full. -/
namespace Nanofish.Receiving
open Rust Rust.Utf8 Rust.Text Rust.Pattern Rust.Reads
open Protocol Codes Response Codec HeaderBlock Parsing Client

def sent (RQ : Nat) (stream : Stream) (request : HttpClientRequest) : Bool :=
  match buildReq RQ request.method request.host request.path request.headers request.body with
  | .ok httpRequest => (send stream httpRequest.items request.body).1
  | _ => false

section Sending
variable {RQ : Nat}

theorem pushStrBind {β : Type} {f : Vec UInt8 RQ → Outcome Error β} (rest : ∀ req, (f req).Returns)
    (req : Vec UInt8 RQ) (s : Str) : (pushStr req s >>= f).Returns :=
  Outcome.bindReturns (Outcome.ofOptionReturns _ _) rest

theorem pushHeadersReturns (headers : List HttpHeader) (req : Vec UInt8 RQ) (hasLen : Bool) :
    (pushRequestHeaders headers req hasLen).Returns := by
  induction headers generalizing req hasLen with
  | nil => trivial
  | cons header headers ih =>
    unfold pushRequestHeaders
    iterate 4 apply pushStrBind; intro _
    exact ih _ _

theorem buildReqReturns (RQ : Nat) (method : HttpMethod) (host path : Str)
    (headers : List HttpHeader) (body : Option Bytes) :
    (buildReq RQ method host path headers body).Returns := by
  unfold buildReq
  iterate 7 apply pushStrBind; intro _
  refine Outcome.bindReturns (pushHeadersReturns _ _ _) fun (req,hasLen) => ?_
  simp only
  split
  · iterate 2 apply pushStrBind; intro _
    refine Outcome.bindReturns (Outcome.ofOptionReturns _ _) fun len => ?_
    refine Outcome.bindReturns (Outcome.ofOptionReturns _ _) fun req => ?_
    apply pushStrBind; intro _
    exact Outcome.ofOptionReturns _ _
  · exact Outcome.ofOptionReturns _ _

theorem writeAllReads (s : Stream) (data : Bytes) : (s.writeAll data).2.reads = s.reads := by
  unfold Stream.writeAll
  split <;> rfl

theorem flushReads (s : Stream) : s.flush.2.reads = s.reads := by
  unfold Stream.flush
  split <;> rfl

theorem sendReads (s : Stream) (head : Bytes) (body : Option Bytes) :
    (send s head body).2.reads = s.reads := by
  unfold send
  have first := writeAllReads s head
  split
  · rename_i s₁ same; rw [same] at first; exact first
  · rename_i s₁ same
    rw [same] at first
    cases body with
    | none => exact (flushReads s₁).trans first
    | some data =>
      have second := writeAllReads s₁ data
      simp only
      split
      · rename_i s₂ same; rw [same] at second; exact second.trans first
      · rename_i s₂ same; rw [same] at second; exact (flushReads s₂).trans (second.trans first)

variable (t : Target) (maxRetries : Nat) (stream : Stream) (req : HttpClientRequest) (buffer : Bytes)

theorem requestSent (done : sent RQ stream req = true) :
    request t RQ maxRetries stream req buffer =
      decodeResponse t (readResponse t stream.reads buffer maxRetries) := by
  unfold sent at done
  unfold request requestWithRetryDelay
  cases built : buildReq RQ req.method req.host req.path req.headers req.body with
  | ok httpRequest =>
    have reads := sendReads stream httpRequest.items req.body
    simp only [built] at done ⊢
    rcases h : send stream httpRequest.items req.body with ⟨flag,stream'⟩
    rw [h] at done reads
    cases done
    simp only at reads
    simp only [reads]
  | err e => simp [built] at done
  | panic => simp [built] at done
  | pending => simp [built] at done

theorem requestUnsent (lost : sent RQ stream req = false) :
    ∃ e, request t RQ maxRetries stream req buffer = .err e := by
  have returns := buildReqReturns RQ req.method req.host req.path req.headers req.body
  unfold sent at lost
  unfold request requestWithRetryDelay
  cases built : buildReq RQ req.method req.host req.path req.headers req.body with
  | ok httpRequest =>
    simp only [built] at lost ⊢
    rcases h : send stream httpRequest.items req.body with ⟨flag,stream'⟩
    rw [h] at lost
    cases lost
    exact ⟨.tcpError,rfl⟩
  | err e => exact ⟨e,rfl⟩
  | panic => rw [built] at returns; contradiction
  | pending => rw [built] at returns; contradiction

end Sending

section Loop
variable (t : Target) (buffer : Bytes)

def holding (held : Bytes) (retries delays : Nat) : ReadState :=
  ⟨filled buffer held,held.length,retries,delays⟩

theorem loopEnd {held : Bytes} {retries delays : Nat} (full : ¬ held.length < buffer.length)
    (events : List (ReadEvent UInt8)) (bound : held.length ≤ buffer.length) :
    readLoop t events (holding buffer held retries delays) =
      readEnd t (holding buffer held retries delays) false := by
  unfold readLoop
  rw [if_neg]
  rintro ⟨room,_⟩
  exact full (by simpa [holding,filledLength bound] using room)

theorem loopData {held : Bytes} {retries : Nat} (tries : 0 < retries) (delays : Nat) {r : Bytes}
    (nonempty : r ≠ []) (rest : List (ReadEvent UInt8)) (room : held.length < buffer.length) :
    readLoop t (.data r :: rest) (holding buffer held retries delays) =
      if complete t (grow buffer.length held r) then
        ⟨.ok (grow buffer.length held r).length,filled buffer (grow buffer.length held r),delays⟩
      else readLoop t rest (holding buffer (grow buffer.length held r) retries delays) := by
  have bound := Nat.le_of_lt room
  have positive := List.length_pos_iff.mpr nonempty
  have got : ¬ (r.take (buffer.length - held.length)).length = 0 := by rw [List.length_take]; omega
  have size : held.length + (r.take (buffer.length - held.length)).length =
      (grow buffer.length held r).length := by
    rw [grow, List.length_append]
  have step : overwrite (filled buffer held) held.length (r.take (buffer.length - held.length)) =
      filled buffer (grow buffer.length held r) := filledOverwrite buffer held _
  rw [readLoop, if_pos (by exact ⟨by rwa [holding, filledLength bound],tries⟩)]
  simp only [holding, filledLength bound, got, if_false, size, step, filledTake]

/- The step lemma's run: as long as no prefix is complete the loop goes on, and what
it holds then is the stream cut at the buffer's length. -/
theorem readLoopReads {retries : Nat} (tries : 0 < retries) (delays : Nat)
    (tail : List (ReadEvent UInt8)) {reads : List Bytes} (nonempty : ∀ r ∈ reads, r ≠ [])
    {held : Bytes} (bound : held.length ≤ buffer.length) :
    readLoop t (reads.map ReadEvent.data ++ tail) (holding buffer held retries delays) =
      match firstHit buffer.length (complete t) held reads with
      | some d => ⟨.ok d.length,filled buffer d,delays⟩
      | none =>
        readLoop t tail (holding buffer ((held ++ reads.flatten).take buffer.length) retries
          delays) := by
  induction reads generalizing held with
  | nil =>
    simp only [List.map_nil, List.nil_append, firstHit, List.flatten_nil, List.append_nil,
      List.take_of_length_le bound]
  | cons r rs ih =>
    by_cases room : held.length < buffer.length
    · have within := growLength buffer.length held r bound
      have next := ih (fun s mem => nonempty s (List.mem_cons_of_mem r mem)) within
      rw [List.map_cons, List.cons_append,
        loopData t buffer tries delays (nonempty r List.mem_cons_self) _ room]
      simp only [firstHit, room, if_true]
      split
      · rfl
      · rw [next, List.flatten_cons, growFlatten bound]
    · have cut : (held ++ (r :: rs).flatten).take buffer.length = held := by
        rw [List.take_append_of_le_length (by omega), List.take_of_length_le bound]
      rw [hitFull room, loopEnd t buffer room _ bound]
      simp only [cut, loopEnd t buffer room _ bound]

def verdict (held : Bytes) (sawEof : Bool) : Outcome Error Nat :=
  if held = [] then .err .noResponse
  else if complete t held then .ok held.length
  else if sawEof then
    if declaresLength t held then .err (.invalidResponse "Incomplete response body") else .ok held.length
  else .err .bufferOverflow

theorem readEndHolding (held : Bytes) (retries delays : Nat) (sawEof : Bool) :
    readEnd t (holding buffer held retries delays) sawEof =
      ⟨verdict t held sawEof,filled buffer held,delays⟩ := by
  simp only [readEnd, holding, filledTake, verdict, List.length_eq_zero_iff]

theorem readLoopClose {held : Bytes} {retries : Nat} (tries : 0 < retries) (delays : Nat)
    (tail : List (ReadEvent UInt8)) (bound : held.length ≤ buffer.length) :
    readLoop t (.close :: tail) (holding buffer held retries delays) =
      ⟨verdict t held (decide (held.length < buffer.length)),filled buffer held,delays⟩ := by
  by_cases room : held.length < buffer.length
  · rw [readLoop, if_pos (by exact ⟨by rwa [holding, filledLength bound],tries⟩), readEndHolding,
      decide_eq_true room]
  · rw [loopEnd t buffer room _ bound, readEndHolding, decide_eq_false room]

section Response
variable {maxRetries : Nat} (tries : 0 < maxRetries) {reads : List Bytes}
  (nonempty : ∀ r ∈ reads, r ≠ [])
  (tail : List (ReadEvent UInt8))
include tries nonempty

theorem responseHit {d : Bytes} (hit : firstHit buffer.length (complete t) [] reads = some d) :
    readResponse t (reads.map ReadEvent.data ++ tail) buffer maxRetries =
      ⟨.ok d.length,filled buffer d,0⟩ := by
  have run :=
    readLoopReads t buffer tries 0 tail nonempty
      (show ([] : Bytes).length ≤ buffer.length from Nat.zero_le _)
  rw [hit] at run
  exact run

theorem responseMiss (miss : firstHit buffer.length (complete t) [] reads = none) :
    readResponse t (reads.map ReadEvent.data ++ tail) buffer maxRetries =
      readLoop t tail (holding buffer (reads.flatten.take buffer.length) maxRetries 0) := by
  have run :=
    readLoopReads t buffer tries 0 tail nonempty
      (show ([] : Bytes).length ≤ buffer.length from Nat.zero_le _)
  rw [miss] at run
  exact run

theorem responseFull (miss : firstHit buffer.length (complete t) [] reads = none)
    (full : buffer.length ≤ reads.flatten.length) :
    readResponse t (reads.map ReadEvent.data ++ tail) buffer maxRetries =
      ⟨verdict t (reads.flatten.take buffer.length) false,
        filled buffer (reads.flatten.take buffer.length),0⟩ := by
  have size : (reads.flatten.take buffer.length).length = buffer.length := by
    rw [List.length_take]; omega
  rw [responseMiss t buffer tries nonempty tail miss, loopEnd t buffer (by omega) _ (by omega),
    readEndHolding]

theorem responseClosed (miss : firstHit buffer.length (complete t) [] reads = none) :
    readResponse t (reads.map ReadEvent.data ++ .close :: tail) buffer maxRetries =
      ⟨verdict t (reads.flatten.take buffer.length) (decide (reads.flatten.length < buffer.length)),
        filled buffer (reads.flatten.take buffer.length),0⟩ := by
  have bound : (reads.flatten.take buffer.length).length ≤ buffer.length := List.length_take_le _ _
  rw [responseMiss t buffer tries nonempty _ miss, readLoopClose t buffer tries 0 tail bound]
  congr 3
  rw [List.length_take]
  exact propext (by omega)

end Response

theorem decodePlain {d : Bytes} (plain : chunked d = false) (bound : d.length ≤ buffer.length)
    (delays : Nat) :
    decodeResponse t ⟨.ok d.length,filled buffer d,delays⟩ = (do
      let response ← parseResp d
      .ok (response,d.length)) := by
  have room : d.length ≤ (filled buffer d).length := by rwa [filledLength bound]
  simp only [decodeResponse, dechunk, Outcome.okBind, sliceToFits room, filledTake, plain,
    Bool.not_false, if_true]

end Loop
end Nanofish.Receiving

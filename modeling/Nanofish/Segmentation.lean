import Nanofish.RequestFields

/-! One server connection under two ways of cutting the peer's bytes into reads. Only
the read boundary at which the frame is first complete can matter, and it matters
exactly when the request is accepted. -/
namespace Nanofish.Segmentation
open Rust Rust.Utf8 Rust.Reads
open Protocol Codes Response Codec HeaderBlock Client Request Server Accepting RequestFields

-- The handler got the same request, or neither run reached it and both failed alike.
def SameInvocation (a b : Served) : Prop :=
  (∃ request, a.handled = [request] ∧ b.handled = [request]) ∨
  (a.handled = [] ∧ b.handled = [] ∧ ∃ e, a.result = .err e ∧ b.result = .err e)

theorem sameRequests {a b : Served} {r s : HttpRequest} (left : a.handled = [r])
    (right : b.handled = [s]) :
    SameInvocation a b ↔ r = s := by
  constructor
  · rintro (⟨request,first,second⟩ | ⟨none,_⟩)
    · rw [left] at first
      rw [right] at second
      exact (List.cons.inj first).1.trans (List.cons.inj second).1.symm
    · rw [left] at none
      contradiction
  · rintro rfl
    exact .inl ⟨r,left,right⟩

section Run
variable (t : Target) {σ : Type} (REQ_SIZE MAX_RESPONSE_SIZE : Nat) (handler : Handler σ)
  (state : σ) (stream : Stream)

theorem servedFail {e : Error}
    (failed : (readRequest t stream.reads (List.replicate REQ_SIZE 0)).result = .err e) :
    (handleHttpConnectionWithSizes t REQ_SIZE MAX_RESPONSE_SIZE handler state stream).handled = [] ∧
      (handleHttpConnectionWithSizes t REQ_SIZE MAX_RESPONSE_SIZE handler state stream).result =
        .err e := by
  simp only [handleHttpConnectionWithSizes, failed, Outcome.errBind, and_self]

variable {d : Bytes} (run : readRequest t stream.reads (List.replicate REQ_SIZE 0) =
  ⟨.ok d.length,filled (List.replicate REQ_SIZE 0) d⟩) (bound : d.length ≤ REQ_SIZE)
include run bound

theorem servedReject {e : Error} (rejected : HttpRequest.tryFrom d = .err e) :
    (handleHttpConnectionWithSizes t REQ_SIZE MAX_RESPONSE_SIZE handler state stream).handled = [] ∧
      (handleHttpConnectionWithSizes t REQ_SIZE MAX_RESPONSE_SIZE handler state stream).result =
        .err e := by
  have room : d.length ≤ (filled (List.replicate REQ_SIZE 0) d).length := by
    rwa [filledLength (by simpa using bound), List.length_replicate]
  simp only [handleHttpConnectionWithSizes, run, Outcome.okBind, sliceToFits room, filledTake,
    rejected, and_self]

theorem servedAccept {request : HttpRequest} (accepted : HttpRequest.tryFrom d = .ok request) :
    (handleHttpConnectionWithSizes t REQ_SIZE MAX_RESPONSE_SIZE handler state stream).handled =
      [request] := by
  have room : d.length ≤ (filled (List.replicate REQ_SIZE 0) d).length := by
    rwa [filledLength (by simpa using bound), List.length_replicate]
  simp only [handleHttpConnectionWithSizes, run, Outcome.okBind, sliceToFits room, filledTake, accepted]
  split
  · rfl
  · rfl
  · rfl
  · split <;> rfl

end Run

/- A request accepted on one cut of a stream is accepted on every cut that holds the
head, with the bytes behind the head as its body; a rejected one fails alike. -/
theorem acceptedCut {stream d e : Bytes} {hdrEnd : Nat} {request : HttpRequest}
    (found : findDoubleCrlf stream = some hdrEnd) (first : d <+: stream) (second : e <+: stream)
    (long : hdrEnd + doubleCrlfLen ≤ d.length) (other : hdrEnd + doubleCrlfLen ≤ e.length)
    (accepted : HttpRequest.tryFrom d = .ok request) :
    request.body = d.drop (hdrEnd + doubleCrlfLen) ∧
      HttpRequest.tryFrom e = .ok { request with body := e.drop (hdrEnd + doubleCrlfLen) } := by
  obtain ⟨closes,size,whole⟩ := blockOf found
  rw [whole] at first second
  obtain ⟨x,rfl,_⟩ := blockReached closes first (by omega)
  obtain ⟨y,rfl,_⟩ := blockReached closes second (by omega)
  rw [tryFromBlock _ closes] at accepted ⊢
  obtain ⟨s,text,parsed⟩ := Outcome.bindOk.mp accepted
  rw [parseFromBody] at parsed
  obtain ⟨bare,fields,same⟩ := Outcome.bindOk.mp parsed
  cases same
  have behind (z : Bytes) : (Block (stream.take hdrEnd) z).drop (hdrEnd + doubleCrlfLen) = z := by
    have exactly := blockDrop (stream.take hdrEnd) z
    rwa [size] at exactly
  rw [text, Outcome.okBind, parseFromBody, fields, behind, behind]
  exact ⟨rfl,rfl⟩

theorem rejectedCut {stream d e : Bytes} {hdrEnd : Nat}
    (found : findDoubleCrlf stream = some hdrEnd) (first : d <+: stream) (second : e <+: stream)
    (long : hdrEnd + doubleCrlfLen ≤ d.length) (other : hdrEnd + doubleCrlfLen ≤ e.length)
    (rejected : ¬ ∃ request, HttpRequest.tryFrom d = .ok request) :
    ∃ error, HttpRequest.tryFrom d = .err error ∧ HttpRequest.tryFrom e = .err error := by
  obtain ⟨closes,size,whole⟩ := blockOf found
  rw [whole] at first second
  obtain ⟨x,rfl,_⟩ := blockReached closes first (by omega)
  obtain ⟨y,rfl,_⟩ := blockReached closes second (by omega)
  rw [tryFromBlock _ closes] at rejected ⊢
  rw [tryFromBlock _ closes]
  cases text : fromUtf8 (stream.take hdrEnd) with
  | none => exact ⟨_,rfl,rfl⟩
  | some s =>
    rw [text, Outcome.ofOptionSome, Outcome.okBind, parseFromBody] at rejected
    simp only [Outcome.ofOptionSome, Outcome.okBind]
    rw [parseFromBody s x, parseFromBody s y]
    have returns := parseFromReturns s []
    cases bare : HttpRequest.parseFrom s [] with
    | ok request => rw [bare] at rejected; exact absurd ⟨_,rfl⟩ rejected
    | err e => exact ⟨e,rfl,rfl⟩
    | panic => rw [bare] at returns; contradiction
    | pending => rw [bare] at returns; contradiction

section Streams
variable (t : Target) {stream : Bytes} {reads : List Bytes} {REQ_SIZE : Nat}
  (real : REQ_SIZE ≤ t.isizeMax)
  (nonempty : ∀ r ∈ reads, r ≠ []) (whole : reads.flatten = stream)
include real nonempty whole

theorem incompleteRun (short : ∀ n, frameEnd t stream = some n → REQ_SIZE < n ∨ stream.length < n) :
    (readRequest t (reads.map ReadEvent.data ++ [.close]) (List.replicate REQ_SIZE 0)).result =
      .err (if stream.length < REQ_SIZE then .invalidResponse "Incomplete request" else
        .bufferOverflow) := by
  have size : (List.replicate REQ_SIZE (0 : UInt8)).length = REQ_SIZE := List.length_replicate
  have miss := missFrame t REQ_SIZE (prefixOfEq whole) (whole ▸ short)
  split
  · exact requestClosed t (by rwa [size]) nonempty [] (by rwa [size]) (by rw [whole, size]; omega)
  · exact requestFull t (by rwa [size]) nonempty [.close] (by rwa [size]) (by rw [whole, size]; omega)

theorem completeRun {n : Nat} (frame : frameEnd t stream = some n) (inside : n ≤ stream.length)
    (room : n ≤ REQ_SIZE) :
    ∃ d, readRequest t (reads.map ReadEvent.data ++ [.close]) (List.replicate REQ_SIZE 0) =
        ⟨.ok d.length,filled (List.replicate REQ_SIZE 0) d⟩ ∧ d.length ≤ REQ_SIZE ∧
      d <+: stream ∧ n ≤ d.length ∧ firstReach REQ_SIZE n reads = some d.length := by
  have size : (List.replicate REQ_SIZE (0 : UInt8)).length = REQ_SIZE := List.length_replicate
  obtain ⟨d,hit,reach,start,long,bound⟩ := hitWhole t frame inside room whole
  exact ⟨d,requestHit t (by rwa [size]) nonempty [.close] (by rwa [size]),bound,start,long,reach⟩

variable (MAX_RESPONSE_SIZE : Nat) {σ : Type} (handler : Handler σ) (state : σ) {peer : Stream}
  (script : peer.reads = reads.map ReadEvent.data ++ [.close])
include script

theorem servedIncomplete (short : ∀ n, frameEnd t stream = some n → REQ_SIZE < n ∨ stream.length < n) :
    let served := handleHttpConnectionWithSizes t REQ_SIZE MAX_RESPONSE_SIZE handler state peer
    served.handled = [] ∧ served.result =
      .err (if stream.length < REQ_SIZE then .invalidResponse "Incomplete request" else
        .bufferOverflow) := by
  have run := incompleteRun t real nonempty whole short
  rw [← script] at run
  exact servedFail t REQ_SIZE MAX_RESPONSE_SIZE handler state peer run

variable {hdrEnd n : Nat} (found : findDoubleCrlf stream = some hdrEnd)
  (frame : frameEnd t stream = some n)
  (inside : n ≤ stream.length) (room : n ≤ REQ_SIZE)
include found frame inside room

theorem servedRequest {request : HttpRequest}
    (accepted : HttpRequest.tryFrom (stream.take n) = .ok request) :
    ∃ d, firstReach REQ_SIZE n reads = some d.length ∧ d <+: stream ∧ n ≤ d.length ∧
      (handleHttpConnectionWithSizes t REQ_SIZE MAX_RESPONSE_SIZE handler state peer).handled =
        [{ request with body := d.drop (hdrEnd + doubleCrlfLen) }] := by
  obtain ⟨d,run,bound,start,long,reach⟩ := completeRun t real nonempty whole frame inside room
  rw [← script] at run
  have above := frameAbove t found frame
  have own :=
    (acceptedCut found (List.take_prefix n stream) start (by rw [List.length_take]; omega)
      (by omega) accepted).2
  exact ⟨d,reach,start,long,servedAccept t REQ_SIZE MAX_RESPONSE_SIZE handler state peer run bound own⟩

theorem servedError (rejected : ¬ ∃ request, HttpRequest.tryFrom (stream.take n) = .ok request) :
    ∃ error, HttpRequest.tryFrom (stream.take n) = .err error ∧
      (handleHttpConnectionWithSizes t REQ_SIZE MAX_RESPONSE_SIZE handler state peer).handled = [] ∧
      (handleHttpConnectionWithSizes t REQ_SIZE MAX_RESPONSE_SIZE handler state peer).result =
        .err error := by
  obtain ⟨d,run,bound,start,long,reach⟩ := completeRun t real nonempty whole frame inside room
  rw [← script] at run
  have above := frameAbove t found frame
  obtain ⟨error,cut,own⟩ :=
    rejectedCut found (List.take_prefix n stream) start (by rw [List.length_take]; omega)
    (by omega) rejected
  exact ⟨error,cut,servedReject t REQ_SIZE MAX_RESPONSE_SIZE handler state peer run bound own⟩

end Streams

theorem cutBodies {stream d e : Bytes} {k : Nat} (first : d <+: stream) (second : e <+: stream)
    (long : k ≤ d.length) (other : k ≤ e.length) : d.drop k = e.drop k ↔ d.length = e.length := by
  constructor
  · intro same
    have lengths := congrArg List.length same
    rw [List.length_drop, List.length_drop] at lengths
    omega
  · intro same
    rw [(List.prefix_of_prefix_length_le first second (Nat.le_of_eq same)).eq_of_length same]

section Accepted
variable (t : Target) {stream : Bytes} {REQ_SIZE : Nat} (real : REQ_SIZE ≤ t.isizeMax)
  (MAX_RESPONSE_SIZE : Nat) {σ : Type}
  (handler : Handler σ) (state : σ) {n : Nat} {request : HttpRequest}
  (frame : frameEnd t stream = some n)
  (inside : n ≤ stream.length) (room : n ≤ REQ_SIZE)
  (accepted : HttpRequest.tryFrom (stream.take n) = .ok request)
  {left : List Bytes} (leftReads : ∀ r ∈ left, r ≠ []) (leftWhole : left.flatten = stream)
  {a : Stream} (leftScript : a.reads = left.map ReadEvent.data ++ [.close])
include real frame inside room accepted leftReads leftWhole leftScript

theorem servedExactly :
    (handleHttpConnectionWithSizes t REQ_SIZE MAX_RESPONSE_SIZE handler state a).handled = [request] ↔
    Stops REQ_SIZE n left := by
  obtain ⟨hdrEnd,found,_⟩ := Option.map_eq_some_iff.mp frame
  have above := frameAbove t found frame
  have cut : (stream.take n).length = n := by rw [List.length_take]; omega
  obtain ⟨d,reach,start,long,first⟩ :=
    servedRequest t real leftReads leftWhole MAX_RESPONSE_SIZE handler state leftScript
    found frame inside room accepted
  have own := (acceptedCut found (List.take_prefix n stream) start (by omega) (by omega) accepted).1
  have bodies :=
    cutBodies start (List.take_prefix n stream)
      (show hdrEnd + doubleCrlfLen ≤ _ by omega) (by omega)
  have positive : 0 < n := by simp only [doubleCrlfLen, doubleCrlf, List.length_cons] at above; omega
  rw [← reachStops positive room reach, reach, Option.some.injEq, ← cut, ← bodies, ← own, first,
    List.cons.injEq, and_iff_left rfl]
  exact ⟨fun same => congrArg HttpRequest.body same,fun same => by rw [same]⟩

variable {right : List Bytes} (rightReads : ∀ r ∈ right, r ≠ []) (rightWhole : right.flatten = stream)
  {b : Stream} (rightScript : b.reads = right.map ReadEvent.data ++ [.close])
include rightReads rightWhole rightScript

theorem servedAlike :
    SameInvocation (handleHttpConnectionWithSizes t REQ_SIZE MAX_RESPONSE_SIZE handler state a)
    (handleHttpConnectionWithSizes t REQ_SIZE MAX_RESPONSE_SIZE handler state b) ↔
      firstReach REQ_SIZE n left = firstReach REQ_SIZE n right := by
  obtain ⟨hdrEnd,found,_⟩ := Option.map_eq_some_iff.mp frame
  have above := frameAbove t found frame
  obtain ⟨d,leftReach,leftStart,leftLong,first⟩ :=
    servedRequest t real leftReads leftWhole MAX_RESPONSE_SIZE handler
    state leftScript found frame inside room accepted
  obtain ⟨e,rightReach,rightStart,rightLong,second⟩ :=
    servedRequest t real rightReads rightWhole MAX_RESPONSE_SIZE
    handler state rightScript found frame inside room accepted
  have bodies := cutBodies leftStart rightStart (show hdrEnd + doubleCrlfLen ≤ _ by omega) (by omega)
  -- Both runs hold the frame; what they can differ in is how much stands behind it.
  rw [sameRequests first second, HttpRequest.mk.injEq, leftReach, rightReach, Option.some.injEq,
    ← bodies]
  simp only [true_and]

end Accepted

theorem segmentation (t : Target) (REQ_SIZE MAX_RESPONSE_SIZE : Nat) (real : REQ_SIZE ≤ t.isizeMax)
    {σ : Type} (handler : Handler σ) (state : σ) (stream : Bytes) (left right : List Bytes)
    (leftReads : ∀ r ∈ left, r ≠ []) (rightReads : ∀ r ∈ right, r ≠ [])
    (leftWhole : left.flatten = stream) (rightWhole : right.flatten = stream) (a b : Stream)
    (leftScript : a.reads = left.map ReadEvent.data ++ [.close])
    (rightScript : b.reads = right.map ReadEvent.data ++ [.close]) :
    let served := handleHttpConnectionWithSizes t REQ_SIZE MAX_RESPONSE_SIZE handler state
    (SameInvocation (served a) (served b) ↔
      ¬ ∃ n request, frameEnd t stream = some n ∧ n ≤ stream.length ∧ n ≤ REQ_SIZE ∧
        HttpRequest.tryFrom (stream.take n) = .ok request ∧
          firstReach REQ_SIZE n left ≠ firstReach REQ_SIZE n right) ∧
    (∀ n request, frameEnd t stream = some n → n ≤ stream.length → n ≤ REQ_SIZE →
      HttpRequest.tryFrom (stream.take n) = .ok request →
        ((served a).handled = [request] ↔ Stops REQ_SIZE n left)) := by
  intro served
  refine ⟨?_,fun n request frame inside room accepted =>
    servedExactly t real MAX_RESPONSE_SIZE handler state frame inside room accepted leftReads
      leftWhole leftScript⟩
  by_cases framing : ∃ n, frameEnd t stream = some n ∧ n ≤ stream.length ∧ n ≤ REQ_SIZE
  · obtain ⟨n,frame,inside,room⟩ := framing
    by_cases accepted : ∃ request, HttpRequest.tryFrom (stream.take n) = .ok request
    · obtain ⟨request,accepted⟩ := accepted
      rw [servedAlike t real MAX_RESPONSE_SIZE handler state frame inside room accepted leftReads
        leftWhole leftScript
        rightReads rightWhole rightScript]
      constructor
      · rintro same ⟨m,_,frame',_,_,_,differ⟩
        cases Option.some.inj (frame.symm.trans frame')
        exact differ same
      · intro none
        exact Classical.byContradiction fun differ => none ⟨n,request,frame,inside,room,accepted,differ⟩
    · obtain ⟨hdrEnd,found,_⟩ := Option.map_eq_some_iff.mp frame
      obtain ⟨error,cut,first⟩ :=
        servedError t real leftReads leftWhole MAX_RESPONSE_SIZE handler state leftScript found
        frame inside room accepted
      obtain ⟨error',cut',second⟩ :=
        servedError t real rightReads rightWhole MAX_RESPONSE_SIZE handler state rightScript
        found frame inside room accepted
      cases Outcome.err.inj (cut.symm.trans cut')
      refine iff_of_true (.inr ⟨first.1,second.1,error,first.2,second.2⟩) ?_
      rintro ⟨m,r,frame',_,_,accepted',_⟩
      cases Option.some.inj (frame.symm.trans frame')
      exact accepted ⟨r,accepted'⟩
  · have short : ∀ n, frameEnd t stream = some n → REQ_SIZE < n ∨ stream.length < n := by
      intro n frame
      refine Classical.byContradiction fun within => framing ⟨n,frame,?_,?_⟩ <;> omega
    have first :=
      servedIncomplete t real leftReads leftWhole MAX_RESPONSE_SIZE handler state leftScript short
    have second :=
      servedIncomplete t real rightReads rightWhole MAX_RESPONSE_SIZE handler state
        rightScript short
    refine iff_of_true (.inr ⟨first.1,second.1,_,first.2,second.2⟩) ?_
    rintro ⟨n,_,frame,inside,room,_⟩
    exact framing ⟨n,frame,inside,room⟩

theorem segmentationTwoReads :
    let reads : List Bytes := [asBytes "GET /x HTTP/1.1\r".toList,asBytes "\n\r\n".toList]
    (handleHttpConnectionWithSizes .bits32 64 128 (fun (n : Nat) _ => (.error .noResponse,n)) 0
      ⟨reads.map ReadEvent.data ++ [.close],[],[]⟩).handled =
        [⟨.GET,"/x".toList,"HTTP/1.1".toList,⟨[],by decide⟩,[]⟩] := by
  rw [show "GET /x HTTP/1.1\r".toList = _ from String.toList_ofList]
  intro reads
  have served :=
    segmentation .bits32 64 128 (by decide) (fun (n : Nat) _ => (.error .noResponse,n)) 0
      reads.flatten
    reads [reads.flatten] (by decide +kernel) (by decide +kernel) rfl (by decide +kernel)
    ⟨reads.map ReadEvent.data ++ [.close],[],[]⟩ ⟨[reads.flatten].map ReadEvent.data ++ [.close],[],
      []⟩ rfl rfl
  exact (served.2 19 ⟨.GET,"/x".toList,"HTTP/1.1".toList,⟨[],by decide⟩,[]⟩ (by decide +kernel)
    (by decide +kernel) (by decide)
    (by decide +kernel)).mpr (.inr ⟨2,by decide +kernel⟩)

/- Three stray bytes behind a request without a body: alone in a read they are never
looked at, in the read that ends the head they are its body. -/
theorem segmentationStrayBytes :
    let head := asBytes "GET /x HTTP/1.1\r\n\r\n".toList
    let stray := asBytes "abc".toList
    let served (reads : List Bytes) :=
      handleHttpConnectionWithSizes .bits32 64 128 (fun (n : Nat) _ => (.error .noResponse,n)) 0
      ⟨reads.map ReadEvent.data ++ [.close],[],[]⟩
    ¬ SameInvocation (served [head ++ stray]) (served [head,stray]) := by
  rw [show "GET /x HTTP/1.1\r\n\r\n".toList = _ from String.toList_ofList]
  intro head stray served
  have joined : (served [head ++ stray]).handled =
      [⟨.GET,"/x".toList,"HTTP/1.1".toList,⟨[],by decide⟩,stray⟩] := by decide +kernel
  have apart : (served [head,stray]).handled =
      [⟨.GET,"/x".toList,"HTTP/1.1".toList,⟨[],by decide⟩,[]⟩] := by
    decide +kernel
  rw [sameRequests joined apart]
  decide

end Nanofish.Segmentation

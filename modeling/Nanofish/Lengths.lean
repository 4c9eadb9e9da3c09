import Nanofish.Receiving

/-! Responses that are not chunked: the body ends where `Content-Length` says, or
where the connection closes. Each of the three exits of the read loop has its cases. -/
namespace Nanofish.Lengths
open Rust Rust.Utf8 Rust.Pattern Rust.Reads
open Protocol Codes Response Codec HeaderBlock Parsing Client Receiving

section Framing
variable (t : Target) {head body : Bytes} (closes : Closes head) (plain : headChunked head = false)
include closes plain

theorem completeCounted {n : Nat} (declared : contentLength t head = some n) {d : Bytes}
    (start : d <+: Block head body) :
    complete t d = decide (head.length + doubleCrlfLen + n ≤ d.length) := by
  rcases blockPrefix closes start with ⟨short,none⟩ | ⟨part,rfl,_⟩
  · rw [completeOpen t none]
    exact (decide_eq_false (by omega)).symm
  · rw [completeBlock t closes, blockComplete, plain, declared, blockLength]
    simp only [Bool.false_eq_true, if_false, decide_eq_decide]
    omega

theorem completeUncounted (declared : contentLength t head = none) {d : Bytes}
    (start : d <+: Block head body) :
    complete t d = false := by
  rcases blockPrefix closes start with ⟨_,none⟩ | ⟨part,rfl,_⟩
  · exact completeOpen t none
  · rw [completeBlock t closes, blockComplete, plain, declared]
    rfl

theorem declaresPlain {d : Bytes} (start : d <+: Block head body) :
    declaresLength t d = (decide (head.length + doubleCrlfLen ≤ d.length) &&
      (contentLength t head).isSome) := by
  rcases blockPrefix closes start with ⟨short,none⟩ | ⟨part,rfl,_⟩
  · rw [declaresOpen t none, decide_eq_false (by omega), Bool.false_and]
  · rw [declaresBlock t closes, plain, Bool.false_or, decide_eq_true (by rw [blockLength]; omega),
      Bool.true_and]

end Framing

section Exits
variable (t : Target) {head body : Bytes} (buffer : Bytes) {maxRetries : Nat} {reads : List Bytes}
  (closes : Closes head) (plain : headChunked head = false) (tries : 0 < maxRetries)
  (nonempty : ∀ r ∈ reads, r ≠ []) (tail : List (ReadEvent UInt8))
include closes plain

theorem hitCounted {n : Nat} (declared : contentLength t head = some n)
    (whole : reads.flatten <+: Block head body) :
    firstHit buffer.length (complete t) [] reads =
      firstHit buffer.length (fun d => decide (head.length + doubleCrlfLen + n ≤ d.length)) []
        reads := by
  refine hitCongr (Nat.zero_le _) fun d start _ => ?_
  exact completeCounted t closes plain declared (start.trans (by simpa using whole))

theorem missShort {n : Nat} (declared : contentLength t head = some n)
    (whole : reads.flatten <+: Block head body)
    (short : buffer.length < head.length + doubleCrlfLen + n ∨
      reads.flatten.length < head.length + doubleCrlfLen + n) :
    firstHit buffer.length (complete t) [] reads = none := by
  rw [hitCounted t buffer closes plain declared whole]
  refine hitNever fun d start bound => decide_eq_false ?_
  have fits := start.length_le
  omega

theorem missUncounted (declared : contentLength t head = none)
    (whole : reads.flatten <+: Block head body) :
    firstHit buffer.length (complete t) [] reads = none := by
  exact hitNever fun d start _ => completeUncounted t closes plain declared (start.trans whole)

theorem hitReached {n : Nat} (declared : contentLength t head = some n)
    (whole : reads.flatten = Block head body) (enough : n ≤ body.length)
    (room : head.length + doubleCrlfLen + n ≤ buffer.length) :
    ∃ part, part <+: body ∧ n ≤ part.length ∧ (Block head part).length ≤ buffer.length ∧
      firstHit buffer.length (complete t) [] reads = some (Block head part) ∧
      firstReach buffer.length (head.length + doubleCrlfLen + n) reads =
        some (Block head part).length := by
  have some : reads ≠ [] := by rintro rfl; exact blockNe head body whole.symm
  have counted := hitCounted t buffer closes plain declared (prefixOfEq whole)
  cases hit : firstHit buffer.length
      (fun d => decide (head.length + doubleCrlfLen + n ≤ d.length)) [] reads with
  | none =>
    have short :=
      hitNone
        (by simp only [List.length_nil, doubleCrlfLen, doubleCrlf, List.length_cons] at *; omega)
        some hit
    have short := of_decide_eq_false short
    rw [List.nil_append, whole, List.length_take, blockLength] at short
    omega
  | some d =>
    obtain ⟨long,start,bound,_⟩ := hitSound (Nat.zero_le _) hit
    have long := of_decide_eq_true long
    rw [List.nil_append, whole] at start
    obtain ⟨part,rfl,front⟩ := blockReached closes start (by omega)
    refine ⟨part,front,?_,bound,counted.trans hit,by rw [firstReach, hit]; rfl⟩
    rw [blockLength] at long
    omega

include tries nonempty

theorem countedWhole (declared : contentLength t head = some body.length)
    (whole : reads.flatten = Block head body) (room : (Block head body).length ≤ buffer.length) :
    readResponse t (reads.map ReadEvent.data ++ tail) buffer maxRetries =
      ⟨.ok (Block head body).length,filled buffer (Block head body),0⟩ := by
  obtain ⟨part,front,long,_,hit,_⟩ := hitReached t buffer closes plain declared whole (Nat.le_refl _)
    (by rwa [blockLength] at room)
  rw [front.eq_of_length_le long] at hit
  exact responseHit t buffer tries nonempty tail hit

theorem countedFull (declared : contentLength t head = some body.length)
    (whole : reads.flatten = Block head body) (some : 0 < buffer.length)
    (small : buffer.length < (Block head body).length) :
    (readResponse t (reads.map ReadEvent.data ++ tail) buffer maxRetries).result =
      .err .bufferOverflow := by
  have size := blockLength head body
  have miss := missShort t buffer closes plain declared (prefixOfEq whole) (.inl (by omega))
  have start : (Block head body).take buffer.length <+: Block head body := List.take_prefix _ _
  have held : ((Block head body).take buffer.length).length = buffer.length := by
    rw [List.length_take]; omega
  have ne : (Block head body).take buffer.length ≠ [] := List.length_pos_iff.mp (by omega)
  rw [responseFull t buffer tries nonempty tail miss (by rw [whole]; omega), whole]
  simp only [verdict, ne, if_false, completeCounted t closes plain declared start, held]
  rw [decide_eq_false (by omega)]
  rfl

theorem countedCut (declared : contentLength t head = some body.length)
    (cut : reads.flatten <+: Block head body) (proper : reads.flatten ≠ Block head body) :
    ∃ e, decodeResponse t (readResponse t (reads.map ReadEvent.data ++ .close :: tail) buffer
      maxRetries) = .err e := by
  have size := blockLength head body
  have short : reads.flatten.length < (Block head body).length :=
    Nat.lt_of_not_le fun long => proper (cut.eq_of_length_le long)
  have miss := missShort t buffer closes plain declared cut (.inr (by omega))
  have start : reads.flatten.take buffer.length <+: Block head body := (List.take_prefix _ _).trans cut
  have bound : (reads.flatten.take buffer.length).length ≤ buffer.length := List.length_take_le _ _
  have behind : (reads.flatten.take buffer.length).length ≤ reads.flatten.length :=
    List.length_take_le' _ _
  rw [responseClosed t buffer tries nonempty tail miss]
  generalize reads.flatten.take buffer.length = d at start bound behind
  by_cases none : d = []
  · exact ⟨.noResponse,by simp [none,verdict,decodeResponse]⟩
  have unfinished : complete t d = false := by
    rw [completeCounted t closes plain declared start]
    exact decide_eq_false (by omega)
  by_cases eof : reads.flatten.length < buffer.length
  · rw [decide_eq_true eof]
    rcases blockPrefix closes start with ⟨_,inside⟩ | ⟨part,rfl,_⟩
    · have result : verdict t d true = .ok d.length := by
        simp [verdict,none,unfinished,declaresOpen t inside]
      rw [result, decodePlain t buffer (chunkedOpen inside) bound, parseRespOpen inside]
      exact ⟨_,rfl⟩
    · have result : verdict t (Block head part) true =
          .err (.invalidResponse "Incomplete response body") := by
        simp [verdict,none,unfinished,declaresBlock t closes,declared]
      rw [result]
      exact ⟨_,rfl⟩
  · rw [decide_eq_false eof]
    exact ⟨.bufferOverflow,by simp [verdict,none,unfinished,decodeResponse]⟩

theorem closedWhole (declared : contentLength t head = none) (whole : reads.flatten = Block head body)
    (room : (Block head body).length < buffer.length) :
    readResponse t (reads.map ReadEvent.data ++ .close :: tail) buffer maxRetries =
      ⟨.ok (Block head body).length,filled buffer (Block head body),0⟩ := by
  have miss := missUncounted t buffer closes plain declared (prefixOfEq whole)
  have all : (Block head body).take buffer.length = Block head body := List.take_of_length_le (by omega)
  rw [responseClosed t buffer tries nonempty tail miss, whole, all, decide_eq_true room]
  simp [verdict,blockNe,completeUncounted t closes plain declared
    (List.prefix_rfl (l := Block head body)),
    declaresPlain t closes plain (List.prefix_rfl (l := Block head body)),declared]

theorem closedFull (declared : contentLength t head = none) (whole : reads.flatten = Block head body)
    (some : 0 < buffer.length) (small : buffer.length ≤ (Block head body).length) :
    (readResponse t (reads.map ReadEvent.data ++ .close :: tail) buffer maxRetries).result =
      .err .bufferOverflow := by
  have miss := missUncounted t buffer closes plain declared (prefixOfEq whole)
  have start : (Block head body).take buffer.length <+: Block head body := List.take_prefix _ _
  have ne : (Block head body).take buffer.length ≠ [] :=
    List.length_pos_iff.mp (by rw [List.length_take]; omega)
  rw [responseFull t buffer tries nonempty _ miss (by rw [whole]; omega), whole]
  simp [verdict,ne,completeUncounted t closes plain declared start]

end Exits

theorem emptyBuffer (t : Target) {buffer : Bytes} (none : buffer.length = 0)
    (events : List (ReadEvent UInt8)) (maxRetries : Nat) :
    (readResponse t events buffer maxRetries).result = .err .noResponse := by
  rw [readResponse, readLoop.eq_def, if_neg (by simp [none])]
  rfl

theorem closedAtOnce (t : Target) (buffer : Bytes) (tail : List (ReadEvent UInt8)) (maxRetries : Nat) :
    (readResponse t (.close :: tail) buffer maxRetries).result = .err .noResponse := by
  rw [readResponse, readLoop.eq_def]
  split <;> rfl

theorem responseFraming (t : Target) (head body : Bytes) (closes : Closes head)
    (plain : chunked (Block head body) = false) (maxRetries : Nat) (tries : 0 < maxRetries)
    (reads : List Bytes) (nonempty : ∀ r ∈ reads, r ≠ []) (buffer : Bytes)
    (tail : List (ReadEvent UInt8)) :
    let R := Block head body
    let received := readResponse t (reads.map ReadEvent.data ++ tail) buffer maxRetries
    let closed := readResponse t (reads.map ReadEvent.data ++ .close :: tail) buffer maxRetries
    (contentLength t head = some body.length →
      (reads.flatten = R → R.length ≤ buffer.length →
        received.result = .ok R.length ∧ received.buffer.take R.length = R) ∧
      (reads.flatten = R → 0 < buffer.length → buffer.length < R.length →
        received.result = .err .bufferOverflow) ∧
      (reads.flatten <+: R → reads.flatten ≠ R →
        ∀ (RQ : Nat) (stream : Stream) (req : HttpClientRequest),
        stream.reads = reads.map ReadEvent.data ++ .close :: tail →
          ∃ e, request t RQ maxRetries stream req buffer = .err e)) ∧
    (contentLength t head = none → reads.flatten = R →
      (R.length < buffer.length → closed.result = .ok R.length ∧ closed.buffer.take R.length = R) ∧
      (0 < buffer.length → buffer.length ≤ R.length → closed.result = .err .bufferOverflow)) ∧
    (∀ events, buffer.length = 0 → (readResponse t events buffer maxRetries).result = .err .noResponse) ∧
    (readResponse t (.close :: tail) buffer maxRetries).result = .err .noResponse := by
  have plain : headChunked head = false := (chunkedBlock closes body).symm.trans plain
  refine ⟨fun declared => ⟨fun whole room => ?_,
    countedFull t buffer closes plain tries nonempty tail declared,?_⟩,
    fun declared whole => ⟨fun room => ?_,
      closedFull t buffer closes plain tries nonempty tail declared whole⟩,
    fun events none => emptyBuffer t none events maxRetries,closedAtOnce t buffer tail maxRetries⟩
  · rw [countedWhole t buffer closes plain tries nonempty tail declared whole room]
    exact ⟨rfl,filledTake _ _⟩
  · intro cut proper RQ stream req script
    cases done : sent RQ stream req with
    | false => exact requestUnsent t maxRetries stream req buffer done
    | true =>
      rw [requestSent t maxRetries stream req buffer done, script]
      exact countedCut t buffer closes plain tries nonempty tail declared cut proper
  · rw [closedWhole t buffer closes plain tries nonempty tail declared whole room]
    exact ⟨rfl,filledTake _ _⟩

theorem responseFramingTwoReads :
    (readResponse .bits32 [.data (asBytes "HTTP/1.1 200 OK\r\nContent-Length: 2\r".toList),
      .data (asBytes "\n\r\nhi".toList)] (List.replicate 64 0) 1).result = .ok 40 := by
  rw [show "HTTP/1.1 200 OK\r\nContent-Length: 2\r".toList = _ from String.toList_ofList]
  show let first := asBytes _; (readResponse .bits32 [.data first,.data (asBytes "\n\r\nhi".toList)]
    (List.replicate 64 0) 1).result = .ok 40
  intro first
  let head := first.take 34
  let body := asBytes "hi".toList
  let reads := [first,asBytes "\n\r\nhi".toList]
  obtain ⟨closes,plain,nonempty,declared,whole,room⟩ : Closes head ∧
      chunked (Block head body) = false ∧ (∀ r ∈ reads, r ≠ []) ∧
      contentLength .bits32 head = some body.length ∧ reads.flatten = Block head body ∧
      (Block head body).length ≤ (List.replicate 64 (0 : UInt8)).length := by decide
  have framing :=
    responseFraming .bits32 head body closes plain 1 (by decide) reads nonempty
      (List.replicate 64 0) []
  exact ((framing.1 declared).1 whole room).1

/- Over-read bytes become body bytes: the body is exact when some read ends exactly at
its declared end, and then the split no longer matters. -/
theorem declaredBody (t : Target) (head rest : Bytes) (n : Nat) (closes : Closes head)
    (plain : chunked (Block head rest) = false) (declared : contentLength t head = some n)
    (enough : n ≤ rest.length) (buffer : Bytes)
    (room : head.length + doubleCrlfLen + n ≤ buffer.length) (maxRetries : Nat)
    (tries : 0 < maxRetries) (reads : List Bytes) (nonempty : ∀ r ∈ reads, r ≠ [])
    (whole : reads.flatten = Block head rest) (stream : Stream) (tail : List (ReadEvent UInt8))
    (script : stream.reads = reads.map ReadEvent.data ++ tail) (RQ : Nat) (req : HttpClientRequest) :
    let result := request t RQ maxRetries stream req buffer
    let condition := sent RQ stream req = true ∧ ParsableHead head ∧
      Stops buffer.length (head.length + doubleCrlfLen + n) reads
    ((∃ response total, result = .ok (response,total) ∧ response.body.asBytes = rest.take n) ↔
      condition) ∧
    (condition → result = (do
      let response ← parseResp (Block head (rest.take n))
      .ok (response,head.length + doubleCrlfLen + n))) := by
  have plain : headChunked head = false := (chunkedBlock closes rest).symm.trans plain
  obtain ⟨part,front,long,bound,hit,reached⟩ :=
    hitReached t buffer closes plain declared whole enough room
  have delivered (done : sent RQ stream req = true) : request t RQ maxRetries stream req buffer = (do
      let response ← parseResp (Block head part)
      .ok (response,(Block head part).length)) := by
    rw [requestSent t maxRetries stream req buffer done, script,
      responseHit t buffer tries nonempty tail hit]
    exact decodePlain t buffer (by rw [chunkedBlock closes, plain]) bound 0
  have fits : (Block head part).length = head.length + doubleCrlfLen + n ↔ part = rest.take n := by
    rw [blockLength]
    constructor
    · intro same
      rw [List.prefix_iff_eq_take.mp front, show part.length = n by omega]
    · intro same
      rw [same, List.length_take]
      omega
  simp only [← reachStops (by simp only [doubleCrlfLen, doubleCrlf, List.length_cons]; omega) room
    reached, reached, Option.some.injEq]
  refine ⟨⟨?_,?_⟩,?_⟩
  · rintro ⟨response,total,ok,body⟩
    cases done : sent RQ stream req with
    | false =>
      obtain ⟨e,failed⟩ := requestUnsent t maxRetries stream req buffer done
      rw [ok] at failed
      contradiction
    | true =>
      rw [delivered done] at ok
      obtain ⟨r,parsed,same⟩ := Outcome.bindOk.mp ok
      cases same
      exact ⟨rfl,(parsesIff closes part).mp ⟨response,parsed⟩,
        fits.mpr ((parsedBody closes parsed).symm.trans body)⟩
  · rintro ⟨done,good,size⟩
    obtain ⟨r,parsed⟩ := (parsesIff closes part).mpr good
    refine ⟨r,(Block head part).length,?_,(parsedBody closes parsed).trans (fits.mp size)⟩
    rw [delivered done, parsed]
    rfl
  · rintro ⟨done,_,size⟩
    rw [delivered done, size, fits.mp size]

theorem declaredBodyTwoReads :
    let head := asBytes "HTTP/1.1 200 OK\r\nContent-Length: 2".toList
    let stream : Stream := ⟨[.data (Block head (asBytes "ab".toList)),.data (asBytes "cd".toList)],[],[]⟩
    ∃ response total, request .bits32 128 1 stream ⟨.GET,[],[],[],none⟩ (List.replicate 64 0) =
      .ok (response,total) ∧ response.body.asBytes = asBytes "ab".toList := by
  rw [show "HTTP/1.1 200 OK\r\nContent-Length: 2".toList = _ from String.toList_ofList]
  intro head stream
  let text := (fromUtf8 head).getD []
  let rest := asBytes "abcd".toList
  let reads := [Block head (asBytes "ab".toList),asBytes "cd".toList]
  have parsable : ParsableHead head := ⟨text,text.take 15,[text.drop 17],by decide,by decide,by decide,
    "200".toList,200,by decide,by decide⟩
  obtain ⟨closes,plain,declared,room,nonempty,whole,done,stops⟩ : Closes head ∧
      chunked (Block head rest) = false ∧ contentLength .bits32 head = some 2 ∧
      head.length + doubleCrlfLen + 2 ≤ (List.replicate 64 (0 : UInt8)).length ∧
      (∀ r ∈ reads, r ≠ []) ∧ reads.flatten = Block head rest ∧
      sent 128 stream ⟨.GET,[],[],[],none⟩ = true ∧
      (reads.take 1).flatten.length = head.length + doubleCrlfLen + 2 := by decide
  have body :=
    declaredBody .bits32 head rest 2 closes plain declared (by decide) (List.replicate 64 0) room
      1 (by decide)
    reads nonempty whole stream [] rfl 128 ⟨.GET,[],[],[],none⟩
  exact body.1.mpr ⟨done,parsable,.inr ⟨1,stops⟩⟩

theorem declaredBodyOneRead :
    let head := asBytes "HTTP/1.1 200 OK\r\nContent-Length: 2".toList
    let rest := asBytes "abcd".toList
    let stream : Stream := ⟨[.data (Block head rest)],[],[]⟩
    Closes head ∧ chunked (Block head rest) = false ∧ contentLength .bits32 head = some 2 ∧
    ∃ response total, request .bits32 128 1 stream ⟨.GET,[],[],[],none⟩ (List.replicate 64 0) =
      .ok (response,total) ∧
      response.body.asBytes = rest ∧ response.body.asBytes ≠ rest.take 2 := by
  rw [show "HTTP/1.1 200 OK\r\nContent-Length: 2".toList = _ from String.toList_ofList]
  intro head rest stream
  let response : HttpResponse :=
    ⟨.ok,⟨[⟨"Content-Length".toList,"2".toList⟩],by decide⟩,.text "abcd".toList⟩
  obtain ⟨closes,plain,declared,done⟩ : Closes head ∧ chunked (Block head rest) = false ∧
      contentLength .bits32 head = some 2 ∧
      request .bits32 128 1 stream ⟨.GET,[],[],[],none⟩ (List.replicate 64 0) =
        .ok (response,42) := by decide
  exact ⟨closes,plain,declared,response,42,done,by decide,by decide⟩

end Nanofish.Lengths

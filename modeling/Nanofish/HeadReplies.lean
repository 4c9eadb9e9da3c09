import Nanofish.Receiving

/-! Replies that end with their header block, as every reply to HEAD does. The read
loop knows nothing of the request's method: it takes such a reply for whole only when
the block itself declares no body, or happens to look complete. -/
namespace Nanofish.HeadReplies
open Rust Rust.Utf8 Rust.Text Rust.Pattern Rust.Reads
open Protocol Codes Response Codec HeaderBlock Parsing Client Receiving

theorem markerInHead {head : Bytes} (closes : Closes head) :
    contains chunkedEndMarker (Block head []) = true ↔ head.getLast? = some 48 := by
  have found := blockFound closes []
  have earliest := ((positionSome doubleCrlfNe).mp found).2
  have size := blockLength head []
  rw [contains, Option.isSome_iff_exists]
  constructor
  · rintro ⟨i,marked⟩
    obtain ⟨rest,window⟩ := ((positionSome (by decide)).mp marked).1
    have bound : i + chunkedEndMarker.length ≤ (Block head []).length := positionBound (by decide) marked
    have marker : chunkedEndMarker.length = 5 := rfl
    have ending : doubleCrlfLen = 4 := rfl
    have late : ¬ i + 1 < head.length := by
      intro early
      refine earliest (i + 1) early ⟨rest,?_⟩
      rw [← List.drop_drop, ← window]
      rfl
    have place : i + 1 = head.length := by rw [List.length_nil] at size; omega
    have here : (Block head [])[i]? = some 48 := by
      have front := congrArg List.head? window
      rw [List.head?_drop] at front
      exact front.symm
    rw [List.getLast?_eq_getElem?, ← place, Nat.add_sub_cancel, ← here]
    simp only [Block, List.append_nil]
    exact (List.getElem?_append_left (by omega)).symm
  · intro last
    obtain ⟨init,rfl⟩ := List.getLast?_eq_some_iff.mp last
    cases absent : position chunkedEndMarker (Block (init ++ [48]) []) with
    | some i => exact ⟨i,rfl⟩
    | none =>
      have never := (positionNone (by decide)).mp absent init.length
      refine absurd ⟨[],?_⟩ never
      have shape : Block (init ++ [48]) [] = init ++ chunkedEndMarker := by
        simp [Block,doubleCrlf,chunkedEndMarker]
      rw [shape, List.drop_left, List.append_nil]

section Width
variable (t : Target)

/- Where the code takes a reply that ends with its block for whole. -/
inductive Bodiless (head : Bytes) : Prop
  | undeclared : headChunked head = false → contentLength t head = none → Bodiless head
  | zero : headChunked head = false → contentLength t head = some 0 → Bodiless head
  | marked : headChunked head = true → head.getLast? = some 48 → Bodiless head

theorem bodilessIff {head : Bytes} (closes : Closes head) : Bodiless t head ↔
    complete t (Block head []) = true ∨ declaresLength t (Block head []) = false := by
  rw [completeBlock t closes, declaresBlock t closes, blockComplete]
  cases coded : headChunked head with
  | true =>
    simp only [if_true, markerInHead closes, Bool.true_or, Bool.true_eq_false, or_false]
    refine ⟨?_,.marked coded⟩
    rintro (⟨plain,_⟩ | ⟨plain,_⟩ | ⟨_,last⟩)
    · rw [plain] at coded; contradiction
    · rw [plain] at coded; contradiction
    · exact last
  | false =>
    cases declared : contentLength t head with
    | none => simpa using .undeclared coded declared
    | some n =>
      simp only [Bool.false_eq_true, if_false, List.length_nil, Nat.le_zero, decide_eq_true_eq,
        Option.isSome_some, Bool.or_true, Bool.true_eq_false, or_false]
      refine ⟨?_,fun none => .zero coded (by rw [declared, none])⟩
      rintro (⟨_,none⟩ | ⟨_,zero⟩ | ⟨chunked,_⟩)
      · rw [declared] at none; contradiction
      · rw [declared] at zero; exact Option.some.inj zero
      · rw [chunked] at coded; contradiction

variable {head : Bytes} (closes : Closes head) (buffer : Bytes)
include closes

theorem decodeBare (room : (Block head []).length ≤ buffer.length) :
    decodeResponse t ⟨.ok (Block head []).length,filled buffer (Block head []),0⟩ = (do
      let response ← parseResp (Block head [])
      .ok (response,(Block head []).length)) := by
  cases coded : headChunked head with
  | false => exact decodePlain t buffer (by rw [chunkedBlock closes, coded]) room 0
  | true =>
    have chunked : chunked (Block head []) = true := by rw [chunkedBlock closes, coded]
    have fits : (Block head []).length ≤ (filled buffer (Block head [])).length := by
      rwa [filledLength room]
    have place : head.length + doubleCrlfLen = (Block head []).length := by rw [blockLength]; rfl
    have stop (b : Bytes) : dechunkStep t (Block head []).length
        ⟨b,(Block head []).length,(Block head []).length⟩ = .ok .stop :=
      if_neg (Nat.lt_irrefl _)
    simp only [decodeResponse, dechunk, Outcome.okBind, sliceToFits fits, filledTake, chunked,
      Bool.not_true,
      Bool.false_eq_true, if_false, blockFound closes, Outcome.ofOptionSome, place, dechunkLoop, stop]

section Reply
variable {reads : List Bytes} (whole : reads.flatten = Block head [])
  (room : (Block head []).length < buffer.length)
include whole room

theorem headHit : firstHit buffer.length (complete t) [] reads =
    if complete t (Block head []) then some (Block head []) else none := by
  have filled : reads ≠ [] := by rintro rfl; exact blockNe head [] whole.symm
  cases hit : firstHit buffer.length (complete t) [] reads with
  | none =>
    have unseen :=
      hitNone (show ([] : Bytes).length < buffer.length from Nat.lt_of_le_of_lt (Nat.zero_le _)
        room) filled hit
    rw [List.nil_append, whole, List.take_of_length_le (Nat.le_of_lt room)] at unseen
    rw [unseen]
    rfl
  | some d =>
    obtain ⟨found,start,_,_⟩ := hitSound (Nat.zero_le _) hit
    rw [List.nil_append, whole] at start
    rcases blockPrefix closes start with ⟨_,unclosed⟩ | ⟨part,rfl,front⟩
    · rw [completeOpen t unclosed] at found; contradiction
    · rw [List.prefix_nil.mp front] at found ⊢
      rw [if_pos found]

variable {maxRetries : Nat} (tries : 0 < maxRetries) (nonempty : ∀ r ∈ reads, r ≠ [])
  (tail : List (ReadEvent UInt8))
include tries nonempty

theorem headRead :
    decodeResponse t (readResponse t (reads.map ReadEvent.data ++ .close :: tail) buffer maxRetries) =
    if complete t (Block head []) = true ∨ declaresLength t (Block head []) = false then (do
      let response ← parseResp (Block head [])
      .ok (response,(Block head []).length))
    else .err (.invalidResponse "Incomplete response body") := by
  have hit := headHit t closes buffer whole room
  have bound := Nat.le_of_lt room
  by_cases ready : complete t (Block head []) = true
  · rw [if_pos ready] at hit
    rw [responseHit t buffer tries nonempty _ hit, decodeBare t closes buffer bound, if_pos (.inl ready)]
  · rw [if_neg ready] at hit
    rw [responseClosed t buffer tries nonempty tail hit, whole, List.take_of_length_le bound,
      decide_eq_true room, verdict, if_neg (blockNe head []), if_neg ready, if_pos rfl]
    cases declared : declaresLength t (Block head []) with
    | false => rw [if_neg (by simp), if_pos (.inr rfl), decodeBare t closes buffer bound]
    | true =>
      rw [if_pos rfl, if_neg (by simp [ready])]
      rfl

end Reply
end Width

theorem headReply (t : Target) (s line : Str) (fields : List Str) (status : StatusCode)
    (closes : Closes (asBytes s)) (lines : splitCrlf s = line :: fields) (some : fields ≠ [])
    (valid : statusOf line = .ok status) (few : (fields.filterMap headerField).length ≤ maxHeaders)
    (buffer : Bytes) (room : (Block (asBytes s) []).length < buffer.length) (maxRetries : Nat)
    (tries : 0 < maxRetries) (reads : List Bytes) (nonempty : ∀ r ∈ reads, r ≠ [])
    (whole : reads.flatten = Block (asBytes s) []) (stream : Stream) (tail : List (ReadEvent UInt8))
    (script : stream.reads = reads.map ReadEvent.data ++ .close :: tail) (RQ : Nat)
    (req : HttpClientRequest) :
    (∃ response total, request t RQ maxRetries stream req buffer = .ok (response,total) ∧
      response.statusCode = status ∧
      response.headers.items = fields.filterMap headerField ∧ response.body = .empty) ↔
    sent RQ stream req = true ∧ Bodiless t (asBytes s) := by
  have parsed : parseResp (Block (asBytes s) []) = .ok ⟨status,fieldsOf fields,.empty⟩ := by
    obtain ⟨f,fs,rfl⟩ := List.exists_cons_of_ne_nil some
    rw [parseRespBlock closes, fromUtf8AsBytes, Outcome.ofOptionSome, Outcome.okBind, parseHead, lines]
    simp only [valid, Outcome.okBind, parseBody, List.isEmpty_nil, if_true]
  have items : (fieldsOf fields).items = fields.filterMap headerField := List.take_of_length_le few
  cases done : sent RQ stream req with
  | false =>
    obtain ⟨e,failed⟩ := requestUnsent t maxRetries stream req buffer done
    refine iff_of_false ?_ (by simp)
    rintro ⟨response,total,ok,_⟩
    rw [ok] at failed
    contradiction
  | true =>
    rw [requestSent t maxRetries stream req buffer done, script,
      headRead t closes buffer whole room tries nonempty tail, parsed, bodilessIff t closes]
    simp only [true_and, Outcome.okBind]
    by_cases ready : complete t (Block (asBytes s) []) = true ∨
      declaresLength t (Block (asBytes s) []) = false
    · rw [if_pos ready]
      exact iff_of_true ⟨_,_,rfl,rfl,items,rfl⟩ ready
    · rw [if_neg ready]
      refine iff_of_false ?_ ready
      rintro ⟨response,total,ok,_⟩
      contradiction

theorem headReplyUndeclared :
    let s := "HTTP/1.1 200 OK\r\nServer: x".toList
    let reads := [(asBytes s).take 9,(asBytes s).drop 9 ++ doubleCrlf]
    ∃ response total, request .bits32 128 1 ⟨reads.map ReadEvent.data ++ [.close],[],[]⟩
        ⟨.HEAD,"h".toList,"/".toList,[],none⟩ (List.replicate 64 0) = .ok (response,total) ∧
        response.statusCode = .ok ∧
      response.headers.items = ["Server: x".toList].filterMap headerField ∧ response.body = .empty := by
  rw [show "HTTP/1.1 200 OK\r\nServer: x".toList = _ from String.toList_ofList]
  intro s reads
  let line := "HTTP/1.1 200 OK".toList
  let fields := ["Server: x".toList]
  let stream : Stream := ⟨reads.map ReadEvent.data ++ [.close],[],[]⟩
  let req : HttpClientRequest := ⟨.HEAD,"h".toList,"/".toList,[],none⟩
  obtain ⟨closes,lines,valid,few,room,nonempty,whole,done,plain,undeclared⟩ : Closes (asBytes s) ∧
      splitCrlf s = line :: fields ∧
      statusOf line = .ok .ok ∧ (fields.filterMap headerField).length ≤ maxHeaders ∧
      (Block (asBytes s) []).length < (List.replicate 64 (0 : UInt8)).length ∧ (∀ r ∈ reads, r ≠ []) ∧
      reads.flatten = Block (asBytes s) [] ∧ sent 128 stream req = true ∧
      headChunked (asBytes s) = false ∧ contentLength .bits32 (asBytes s) = none := by decide
  have reply :=
    headReply .bits32 s line fields .ok closes lines (by decide) valid few (List.replicate 64 0)
      room 1 (by decide)
    reads nonempty whole stream [] rfl 128 req
  exact reply.mpr ⟨done,.undeclared plain undeclared⟩

-- The length a GET would have had is taken for the length of a body that never comes.
theorem headReplyRejected :
    let s := "HTTP/1.1 200 OK\r\nContent-Length: 5".toList
    Closes (asBytes s) ∧ splitCrlf s = ["HTTP/1.1 200 OK".toList,"Content-Length: 5".toList] ∧
    statusOf "HTTP/1.1 200 OK".toList = .ok .ok ∧
    request .bits32 128 1 ⟨[.data (Block (asBytes s) []),.close],[],[]⟩
      ⟨.HEAD,"h".toList,"/".toList,[],none⟩
      (List.replicate 64 0) = .err (.invalidResponse "Incomplete response body") := by
  repeat rw [String.toList_ofList]
  decide

end Nanofish.HeadReplies

import Nanofish.ChunkedMessage
import Nanofish.Dechunk
import Nanofish.Lengths

/-! What the client makes of a chunked response, cut anywhere. Reading stops at the
first read boundary whose bytes hold the head and, anywhere, the end marker; the
decoder then walks the chunks that have arrived, and ends without an error wherever
no size line is left to read. -/
namespace Nanofish.ChunkedReception
open Rust Rust.Utf8 Rust.Text Rust.Pattern Rust.Reads
open Protocol Codes Response Codec HeaderBlock Parsing Client Receiving Dechunk ChunkedMessage

def readable (line : Bytes) : Bool := (fromUtf8 line).isSome

section Walk
variable (t : Target)

def received (last : SizeLine) : Nat → List Chunk → Nat → Outcome Error Bytes
  | _, [], k =>
    if k < last.bytes.length + crlfLen then .ok []
    else if readable last.bytes then .ok []
    else .err (.invalidResponse "Invalid chunk size encoding")
  | pos, c :: cs, k =>
    let start := c.line.bytes.length + crlfLen
    if k < start then .ok []
    else if readable c.line.bytes = false then .err (.invalidResponse "Invalid chunk size encoding")
    else if t.usizeMax < c.data.length then .err (.invalidResponse "Invalid chunk size")
    else if t.usizeMax < pos + start + c.data.length then .panic
    else if k < start + c.data.length then .err (.invalidResponse "Incomplete chunked body")
    else do
      let more ← received last (pos + c.bytes.length) cs (k - c.bytes.length)
      .ok (c.data ++ more)

theorem lineCut (l : SizeLine) (x : Bytes) (k : Nat) : findCrlf ((l.bytes ++ (crlf ++ x)).take k) =
    if l.bytes.length + crlfLen ≤ k then some l.bytes.length else none := by
  have whole : position crlf (l.bytes ++ (crlf ++ x)) = some l.bytes.length := by
    rw [← List.append_assoc]
    exact positionAfter (sizeLinePlain l)
  exact positionTake (by decide) whole k

theorem nextCut (l : SizeLine) (x : Bytes) (pos k : Nat) :
    nextChunk t pos ((l.bytes ++ (crlf ++ x)).take k) =
    if k < l.bytes.length + crlfLen then .ok none
    else if readable l.bytes = false then .err (.invalidResponse "Invalid chunk size encoding")
    else if t.usizeMax < l.size then .err (.invalidResponse "Invalid chunk size")
    else if l.size = 0 then .ok none
    else if t.usizeMax < pos + l.bytes.length + crlfLen + l.size then .panic
    else if min k (l.bytes ++ (crlf ++ x)).length < l.bytes.length + crlfLen + l.size then
      .err (.invalidResponse "Incomplete chunked body")
    else .ok (some (l.bytes.length + crlfLen,l.size)) := by
  by_cases short : k < l.bytes.length + crlfLen
  · rw [if_pos short, nextChunk, lineCut, if_neg (by omega)]
  · have line : ((l.bytes ++ (crlf ++ x)).take k).take l.bytes.length = l.bytes := by
      rw [List.take_take, Nat.min_eq_left (by omega), List.take_left]
    rw [if_neg short, nextChunk, lineCut, if_pos (by omega)]
    have spec := chunkSizeLine l t
    cases text : fromUtf8 l.bytes with
    | none =>
      have unreadable : readable l.bytes = false := by rw [readable, text]; rfl
      rw [text] at spec
      simp only [line, spec, unreadable, if_true, Outcome.errBind]
    | some s =>
      have readable : readable l.bytes = true := by rw [readable, text]; rfl
      rw [text] at spec
      simp only [line, spec, readable, Bool.true_eq_false, if_false, List.length_take]
      by_cases large : t.usizeMax < l.size
      · simp only [large, if_true, show ¬ l.size ≤ t.usizeMax by omega, if_false, Outcome.errBind]
      · simp only [large, if_false, show l.size ≤ t.usizeMax by omega, if_true, Outcome.okBind]

theorem chunkLength (c : Chunk) :
    c.bytes.length = c.line.bytes.length + crlfLen + c.data.length + crlfLen := by
  simp only [Chunk.bytes, List.length_append, crlfLen]

theorem chunkShape (c : Chunk) (rest : Bytes) :
    c.bytes ++ rest = c.line.bytes ++ (crlf ++ (c.data ++ crlf ++ rest)) := by
  simp only [Chunk.bytes, List.append_assoc]

theorem chunkData (c : Chunk) (rest : Bytes) {k : Nat}
    (inside : c.line.bytes.length + crlfLen + c.data.length ≤ k) :
    (((c.bytes ++ rest).take k).drop (c.line.bytes.length + crlfLen)).take c.data.length = c.data := by
  have front : (c.line.bytes ++ crlf).length = c.line.bytes.length + crlfLen := by
    rw [List.length_append]; rfl
  rw [chunkShape, List.drop_take, List.take_take, Nat.min_eq_left (by omega), ← List.append_assoc,
    ← front, List.drop_left, List.append_assoc, List.take_left]

theorem chunkCut (c : Chunk) (rest : Bytes) (pos k : Nat) :
    let start := c.line.bytes.length + crlfLen
    nextChunk t pos ((c.bytes ++ rest).take k) =
      if k < start then .ok none
      else if readable c.line.bytes = false then .err (.invalidResponse "Invalid chunk size encoding")
      else if t.usizeMax < c.data.length then .err (.invalidResponse "Invalid chunk size")
      else if t.usizeMax < pos + start + c.data.length then .panic
      else if k < start + c.data.length then .err (.invalidResponse "Incomplete chunked body")
      else .ok (some (start,c.data.length)) := by
  have some : c.data.length ≠ 0 := fun none => c.nonempty (List.length_eq_zero_iff.mp none)
  have next := nextCut t c.line (c.data ++ crlf ++ rest) pos k
  have length := chunkLength c
  have held : min k (c.bytes ++ rest).length < c.line.bytes.length + crlfLen + c.data.length ↔
      k < c.line.bytes.length + crlfLen + c.data.length := by
    rw [List.length_append]
    omega
  rw [← chunkShape, c.size] at next
  simp only [some, if_false, held, Nat.add_assoc pos] at next ⊢
  exact next

theorem decodeReceived (last : SizeLine) (zero : last.size = 0) (x : Bytes) (chunks : List Chunk)
    (pos k : Nat) :
    decodeChunks t pos ((chunks.flatMap Chunk.bytes ++ (last.bytes ++ (crlf ++ x))).take k) =
      received t last pos chunks k := by
  induction chunks generalizing pos k with
  | nil =>
    have next := nextCut t last x pos k
    rw [List.flatMap_nil, List.nil_append, received]
    by_cases short : k < last.bytes.length + crlfLen
    · rw [if_pos short] at next ⊢
      exact decodeStop next
    · rw [if_neg short] at next ⊢
      cases text : readable last.bytes with
      | false => rw [text] at next; exact decodeErr next
      | true =>
        rw [text] at next
        exact decodeStop
          (by simpa only [zero, Nat.not_lt_zero, if_false, if_true, Bool.true_eq_false] using next)
  | cons c cs ih =>
    rw [List.flatMap_cons, List.append_assoc]
    generalize cs.flatMap Chunk.bytes ++ (last.bytes ++ (crlf ++ x)) = rest at ih
    -- The cases are the exits of one turn, in the order it tests them.
    have next := chunkCut t c rest pos k
    simp only [received] at next ⊢
    by_cases short : k < c.line.bytes.length + crlfLen
    · rw [if_pos short] at next ⊢
      exact decodeStop next
    rw [if_neg short] at next ⊢
    by_cases unreadable : readable c.line.bytes = false
    · rw [if_pos unreadable] at next ⊢
      exact decodeErr next
    rw [if_neg unreadable] at next ⊢
    by_cases large : t.usizeMax < c.data.length
    · rw [if_pos large] at next ⊢
      exact decodeErr next
    rw [if_neg large] at next ⊢
    by_cases beyond : t.usizeMax < pos + (c.line.bytes.length + crlfLen) + c.data.length
    · rw [if_pos beyond] at next ⊢
      exact decodePanic next
    rw [if_neg beyond] at next ⊢
    by_cases inside : k < c.line.bytes.length + crlfLen + c.data.length
    · rw [if_pos inside] at next ⊢
      exact decodeErr next
    rw [if_neg inside] at next ⊢
    rw [decodeNext next, chunkData c rest (by omega), ← chunkLength, List.drop_take, List.drop_left, ih]

/- The walk does not report the cut: it finds no whole size line where the bytes end,
or the chunk that is cut is so long that its end wraps. -/
def unnoticed : Nat → List Chunk → Nat → Bool
  | _, [], _ => true
  | pos, c :: cs, k =>
    let start := c.line.bytes.length + crlfLen
    decide (k < start) || (readable c.line.bytes &&
      if k < start + c.data.length then
      decide (c.data.length ≤ t.usizeMax ∧ t.usizeMax < pos + start + c.data.length)
      else unnoticed (pos + c.bytes.length) cs (k - c.bytes.length))

-- All chunk data is there, and every size line that is there can be read.
def delivered (last : SizeLine) : List Chunk → Nat → Bool
  | [], k => decide (k < last.bytes.length + crlfLen) || readable last.bytes
  | c :: cs, k => readable c.line.bytes && decide (c.line.bytes.length + crlfLen + c.data.length ≤ k) &&
      delivered last cs (k - c.bytes.length)

theorem receivedError {last : SizeLine} {chunks : List Chunk} {pos k : Nat}
    (real : k = 0 ∨ pos + k ≤ t.usizeMax)
    (early : k < (chunks.flatMap Chunk.bytes).length + last.bytes.length + crlfLen) :
    (∃ e, received t last pos chunks k = .err e) ↔ unnoticed t pos chunks k = false := by
  induction chunks generalizing pos k with
  | nil =>
    rw [List.flatMap_nil, List.length_nil, Nat.zero_add] at early
    simp [received,unnoticed,early]
  | cons c cs ih =>
    have size := chunkLength c
    have two : crlfLen = 2 := rfl
    rw [List.flatMap_cons, List.length_append] at early
    simp only [received, unnoticed]
    by_cases short : k < c.line.bytes.length + crlfLen
    · simp [short]
    simp only [short, if_false, decide_false, Bool.false_or]
    cases readable c.line.bytes with
    | false => simp
    | true =>
      simp only [Bool.true_eq_false, if_false, Bool.true_and]
      by_cases inside : k < c.line.bytes.length + crlfLen + c.data.length
      · by_cases large : t.usizeMax < c.data.length
        · simp [large,inside,show ¬ c.data.length ≤ t.usizeMax by omega]
        · by_cases beyond : t.usizeMax < pos + (c.line.bytes.length + crlfLen) + c.data.length
          · simp [large,inside,beyond,show c.data.length ≤ t.usizeMax by omega]
          · simp [large,inside,beyond]
      · have fits : ¬ t.usizeMax < c.data.length ∧
            ¬ t.usizeMax < pos + (c.line.bytes.length + crlfLen) + c.data.length := by
          omega
        have rest :=
          ih (show k - c.bytes.length = 0 ∨
            pos + c.bytes.length + (k - c.bytes.length) ≤ t.usizeMax by omega) (by omega)
        rw [if_neg fits.1, if_neg fits.2, if_neg inside, if_neg inside, ← rest]
        exact Outcome.bindOkErr

theorem receivedWhole {last : SizeLine} {chunks : List Chunk} {pos k : Nat}
    (real : k = 0 ∨ pos + k ≤ t.usizeMax) :
    received t last pos chunks k = .ok (chunks.flatMap Chunk.data) ↔ delivered last chunks k = true := by
  induction chunks generalizing pos k with
  | nil =>
    simp only [received, delivered, List.flatMap_nil]
    by_cases short : k < last.bytes.length + crlfLen
    · simp [short]
    · cases text : readable last.bytes <;> simp [short]
  | cons c cs ih =>
    have size := chunkLength c
    have two : crlfLen = 2 := rfl
    have some : c.data.length ≠ 0 := fun none => c.nonempty (List.length_eq_zero_iff.mp none)
    simp only [received, delivered]
    by_cases short : k < c.line.bytes.length + crlfLen
    · simp [short,c.nonempty,show ¬ c.line.bytes.length + crlfLen + c.data.length ≤ k by omega]
    cases readable c.line.bytes with
    | false => simp [short]
    | true =>
      simp only [short, Bool.true_eq_false, if_false, Bool.true_and]
      by_cases inside : k < c.line.bytes.length + crlfLen + c.data.length
      · rw [decide_eq_false (by omega), Bool.false_and]
        refine iff_of_false ?_ (by decide)
        split
        · simp
        · split
          · simp
          · simp
      · have fits : ¬ t.usizeMax < c.data.length ∧
            ¬ t.usizeMax < pos + (c.line.bytes.length + crlfLen) + c.data.length := by
          omega
        have rest :=
          ih (show k - c.bytes.length = 0 ∨
            pos + c.bytes.length + (k - c.bytes.length) ≤ t.usizeMax by omega)
        rw [if_neg fits.1, if_neg fits.2, if_neg inside, decide_eq_true (by omega), Bool.true_and,
          ← rest, List.flatMap_cons]
        constructor
        · intro ok
          obtain ⟨more,tail,same⟩ := Outcome.bindOk.mp ok
          rw [tail, List.append_cancel_left (Outcome.ok.inj same)]
        · intro ok
          rw [ok]
          rfl

end Walk

def marked (head d : Bytes) : Bool :=
  decide (head.length + doubleCrlfLen ≤ d.length) && contains chunkedEndMarker d

section Reading
variable (t : Target) {head body buffer : Bytes} {reads : List Bytes} (closes : Closes head)
include closes

theorem completeMarked (coded : headChunked head = true) {d : Bytes} (start : d <+: Block head body) :
    complete t d = marked head d := by
  rcases blockPrefix closes start with ⟨short,none⟩ | ⟨part,rfl,_⟩
  · rw [completeOpen t none, marked, decide_eq_false (by omega), Bool.false_and]
  · rw [completeBlock t closes, blockComplete, coded, marked,
      decide_eq_true (by rw [blockLength]; omega), Bool.true_and]
    rfl

theorem hitMarked (coded : headChunked head = true) (cut : reads.flatten <+: Block head body) :
    firstHit buffer.length (complete t) [] reads = firstHit buffer.length (marked head) [] reads :=
  hitCongr (Nat.zero_le _) fun _ start _ =>
    completeMarked t closes coded (start.trans (by simpa using cut))

theorem unreadableNever (text : fromUtf8 head = none) {d : Bytes} (start : d <+: Block head body) :
    complete t d = false := by
  refine Lengths.completeUncounted t closes ?_ ?_ start
  · simp only [headChunked, text]
  · simp only [contentLength, text, bind, Option.bind_none]

variable {maxRetries : Nat} (tries : 0 < maxRetries) (nonempty : ∀ r ∈ reads, r ≠ [])
  (cut : reads.flatten <+: Block head body) (tail : List (ReadEvent UInt8))
include tries nonempty cut

/- Where no read boundary is complete, the close is an error of the loop, or of the
parser when the head is not whole or cannot be read. -/
theorem missError (framing : fromUtf8 head = none ∨ headChunked head = true)
    (miss : firstHit buffer.length (complete t) [] reads = none) :
    ∃ e, decodeResponse t (readResponse t (reads.map ReadEvent.data ++ .close :: tail) buffer
      maxRetries) = .err e := by
  have start : reads.flatten.take buffer.length <+: Block head body := (List.take_prefix _ _).trans cut
  have bound : (reads.flatten.take buffer.length).length ≤ buffer.length := List.length_take_le _ _
  have unfinished : reads.flatten.take buffer.length ≠ [] →
      complete t (reads.flatten.take buffer.length) = false := by
    intro some
    have room : ([] : Bytes).length < buffer.length := by
      refine Nat.pos_of_ne_zero fun none => some ?_
      rw [none, List.take_zero]
    have present : reads ≠ [] := by rintro rfl; simp at some
    simpa using hitNone room present miss
  rw [responseClosed t buffer tries nonempty tail miss]
  generalize reads.flatten.take buffer.length = d at start bound unfinished
  by_cases none : d = []
  · exact ⟨.noResponse,by simp [none,verdict,decodeResponse]⟩
  have unfinished := unfinished none
  cases decide (reads.flatten.length < buffer.length) with
  | false => exact ⟨.bufferOverflow,by simp [verdict,none,unfinished,decodeResponse]⟩
  | true =>
    cases declared : declaresLength t d with
    | true => exact ⟨_,by simp [verdict,none,unfinished,declared,decodeResponse]; rfl⟩
    | false =>
      have result : verdict t d true = .ok d.length := by simp [verdict,none,unfinished,declared]
      rw [result]
      rcases blockPrefix closes start with ⟨_,inside⟩ | ⟨part,rfl,_⟩
      · rw [decodePlain t buffer (chunkedOpen inside) bound, parseRespOpen inside]
        exact ⟨_,rfl⟩
      · rw [declaresBlock t closes, Bool.or_eq_false_iff] at declared
        rcases framing with text | coded
        · rw [decodePlain t buffer (by rw [chunkedBlock closes, declared.1]) bound,
            parseRespBlock closes, text]
          exact ⟨_,rfl⟩
        · rw [coded] at declared
          exact absurd declared.1 (by decide)

end Reading

theorem decodeCoded (t : Target) {head part buffer : Bytes} (closes : Closes head)
    (coded : headChunked head = true) (real : buffer.length ≤ t.isizeMax)
    (bound : (Block head part).length ≤ buffer.length) (delays : Nat) :
    decodeResponse t ⟨.ok (Block head part).length,filled buffer (Block head part),delays⟩ = (do
      let payload ← decodeChunks t (head.length + doubleCrlfLen) part
      let response ← parseResp (Block head payload)
      .ok (response,(Block head payload).length)) := by
  have size := filledLength bound
  have ends :=
    dechunkBlock closes coded (size ▸ real) (size ▸ bound) (filledTake buffer (Block head part))
  simp only [decodeResponse, Outcome.okBind]
  cases walk : decodeChunks t (head.length + doubleCrlfLen) part with
  | err e => rw [walk] at ends; rw [show dechunk t _ _ = .err e from ends]; rfl
  | panic => rw [walk] at ends; rw [show dechunk t _ _ = .panic from ends]; rfl
  | pending => rw [walk] at ends; exact ends.elim
  | ok payload =>
    rw [walk] at ends
    obtain ⟨buffer',done,length,front⟩ := ends
    have short := decodeLength walk
    have room : (Block head payload).length ≤ buffer'.length := by
      rw [blockLength] at bound ⊢
      omega
    simp only [done, Outcome.okBind, sliceToFits room, front]

section Message
variable (t : Target) (m : Message) (buffer : Bytes) (real : buffer.length ≤ t.isizeMax)
  (maxRetries : Nat)
  (tries : 0 < maxRetries) (reads : List Bytes) (nonempty : ∀ r ∈ reads, r ≠ [])
  (cut : reads.flatten <+: m.bytes)
  (stream : Stream) (tail : List (ReadEvent UInt8))
  (script : stream.reads = reads.map ReadEvent.data ++ .close :: tail) (RQ : Nat)
  (req : HttpClientRequest)
  (done : sent RQ stream req = true)
include tries nonempty cut script done

theorem requestMissed
    (miss : ¬ (readable m.head = true ∧ ∃ d, firstHit buffer.length (marked m.head) [] reads = some d)) :
    ∃ e, request t RQ maxRetries stream req buffer = .err e := by
  have coded := messageChunked m
  rw [requestSent t maxRetries stream req buffer done, script]
  cases text : fromUtf8 m.head with
  | none =>
    refine missError t (messageCloses m) tries nonempty cut tail (.inl text) ?_
    exact hitNever fun d start _ => unreadableNever t (messageCloses m) text (start.trans cut)
  | some s =>
    rw [text] at coded
    refine missError t (messageCloses m) tries nonempty cut tail (.inr coded) ?_
    rw [hitMarked t (messageCloses m) coded cut]
    cases hit : firstHit buffer.length (marked m.head) [] reads with
    | none => rfl
    | some d => exact absurd ⟨by rw [readable, text]; rfl,d,hit⟩ miss

include real

theorem requestMarked (text : readable m.head = true) {d : Bytes}
    (hit : firstHit buffer.length (marked m.head) [] reads = some d) :
    m.head.length + doubleCrlfLen ≤ d.length ∧ d.length ≤ reads.flatten.length ∧
    d.length ≤ buffer.length ∧
    ∃ headers : Vec HttpHeader maxHeaders, request t RQ maxRetries stream req buffer = (do
      let payload ← received t m.last (m.head.length + doubleCrlfLen) m.chunks
        (d.length - (m.head.length + doubleCrlfLen))
      .ok (⟨.fromU16 (UInt16.ofNat m.code),headers,parseBody headers.items payload⟩,
        (Block m.head payload).length)) := by
  have closes := messageCloses m
  obtain ⟨s,decoded⟩ := Option.isSome_iff_exists.mp text
  have coded : headChunked m.head = true := by rw [messageChunked, decoded]; rfl
  obtain ⟨headers,parsed⟩ := messageHead m decoded
  obtain ⟨found,start,bound,_⟩ := hitSound (Nat.zero_le _) hit
  rw [List.nil_append] at start
  have long := of_decide_eq_true (Bool.and_eq_true_iff.mp found).1
  refine ⟨long,start.length_le,bound,headers,?_⟩
  rw [← hitMarked t closes coded cut] at hit
  obtain ⟨part,rfl,front⟩ := blockReached closes (start.trans cut) long
  have behind : (Block m.head part).length - (m.head.length + doubleCrlfLen) = part.length := by
    rw [blockLength]; omega
  have walk :=
    decodeReceived t m.last m.lastZero m.ending m.chunks (m.head.length + doubleCrlfLen) part.length
  rw [show m.chunks.flatMap Chunk.bytes ++ (m.last.bytes ++ (crlf ++ m.ending)) = m.body from rfl,
    ← List.prefix_iff_eq_take.mp front] at walk
  rw [requestSent t maxRetries stream req buffer done, script, responseHit t buffer tries nonempty _ hit,
    decodeCoded t closes coded real bound, walk, behind]
  congr 1
  funext payload
  rw [parseRespBlock closes, decoded, Outcome.ofOptionSome, Outcome.okBind, parsed]
  rfl

end Message

/- A cut response is accepted exactly when a read boundary shows the marker before the
end and the walk does not notice what is missing there. -/
theorem cutResponse (t : Target) (m : Message) (buffer : Bytes) (real : buffer.length ≤ t.isizeMax)
    (maxRetries : Nat) (tries : 0 < maxRetries) (reads : List Bytes)
    (nonempty : ∀ r ∈ reads, r ≠ []) (cut : reads.flatten <+: m.bytes)
    (early : reads.flatten.length < m.head.length + doubleCrlfLen + m.lastLineEnd) (stream : Stream)
    (tail : List (ReadEvent UInt8))
    (script : stream.reads = reads.map ReadEvent.data ++ .close :: tail) (RQ : Nat)
    (req : HttpClientRequest) :
    (∃ e, request t RQ maxRetries stream req buffer = .err e) ↔
      ¬ (sent RQ stream req = true ∧ readable m.head = true ∧
        ∃ d, firstHit buffer.length (marked m.head) [] reads = some d ∧
          unnoticed t (m.head.length + doubleCrlfLen) m.chunks
            (d.length - (m.head.length + doubleCrlfLen)) = true) := by
  cases done : sent RQ stream req with
  | false => exact iff_of_true (requestUnsent t maxRetries stream req buffer done) (by simp)
  | true =>
    by_cases hits : readable m.head = true ∧ ∃ d,
      firstHit buffer.length (marked m.head) [] reads = some d
    · obtain ⟨text,d,hit⟩ := hits
      obtain ⟨long,within,bound,headers,result⟩ :=
        requestMarked t m buffer real maxRetries tries reads nonempty cut stream
        tail script RQ req done text hit
      have wide := t.isizeBelowUsize
      have walk : (∃ e, received t m.last (m.head.length + doubleCrlfLen) m.chunks
          (d.length - (m.head.length + doubleCrlfLen)) = .err e) ↔ _ :=
        receivedError t (.inr (by omega)) (by simp only [Message.lastLineEnd] at early; omega)
      simp only [true_and, text, hit, Option.some.injEq, exists_eq_left', Bool.not_eq_true, ← walk,
        result]
      exact Outcome.bindOkErr
    · refine iff_of_true (requestMissed t m buffer maxRetries tries reads nonempty cut stream tail
        script RQ req done hits) ?_
      rintro ⟨_,text,d,hit,_⟩
      exact hits ⟨text,d,hit⟩

def codingField : Field := ⟨transferEncoding,asBytes " chunked".toList,by decide,by decide,by decide⟩

def plainLine (digits : Str) (nonempty : digits ≠ [])
    (hex : ∀ c ∈ digits, (digitValue 16 c).isSome = true) : SizeLine :=
  ⟨digits,none,nonempty,hex,by simp,by simp⟩

-- The end marker is the payload of the first chunk.
def markerPayload : Message where
  code := 200
  reason := asBytes "OK".toList
  reasonPlain := by decide
  fields := [codingField]
  coded := ⟨codingField,List.mem_singleton.mpr rfl,by decide⟩
  coding := by decide
  chunks := [⟨plainLine ['5'] (by decide) (by decide),chunkedEndMarker,by decide,by decide⟩,
    ⟨plainLine ['3'] (by decide) (by decide),asBytes "abc".toList,by decide,by decide⟩]
  last := plainLine ['0'] (by decide) (by decide)
  lastZero := by decide
  trailers := []

theorem cutResponseNoticed :
    let cut := markerPayload.bytes.take 62
    ∃ e, request .bits32 128 1 ⟨[.data cut,.close],[],[]⟩ ⟨.GET,[],[],[],none⟩
      (List.replicate 128 0) = .err e := by
  intro cut
  let start := markerPayload.head.length + doubleCrlfLen
  obtain ⟨nonempty,front,early,first,noticed⟩ : (∀ r ∈ [cut], r ≠ []) ∧
      [cut].flatten <+: markerPayload.bytes ∧
      [cut].flatten.length < start + markerPayload.lastLineEnd ∧
      firstHit (List.replicate 128 (0 : UInt8)).length (marked markerPayload.head) [] [cut] = some cut ∧
      unnoticed .bits32 start markerPayload.chunks (cut.length - start) = false := by decide +kernel
  refine (cutResponse .bits32 markerPayload (List.replicate 128 0) (by decide +kernel) 1
    (by decide) [cut] nonempty front early
    ⟨[.data cut,.close],[],[]⟩ [] rfl 128 ⟨.GET,[],[],[],none⟩).mpr ?_
  rintro ⟨_,_,d,hit,quiet⟩
  cases Option.some.inj (hit.symm.trans first)
  exact absurd (quiet.symm.trans noticed) (by decide)

/- The same message cut behind its first chunk: an answer, without the second one. -/
theorem cutResponseAccepted :
    let cut := markerPayload.bytes.take 57
    let answer :=
      request .bits32 128 1 ⟨[.data cut,.close],[],[]⟩ ⟨.GET,[],[],[],none⟩ (List.replicate 128 0)
    cut.length < markerPayload.head.length + doubleCrlfLen + markerPayload.lastLineEnd ∧
    markerPayload.payload = asBytes "0\r\n\r\nabc".toList ∧ (¬ ∃ e, answer = .err e) ∧
    ∃ response total, answer = .ok (response,total) ∧
    response.body.asBytes = asBytes "0\r\n\r\n".toList := by
  intro cut answer
  obtain ⟨early,payload,accepted⟩ :
      cut.length < markerPayload.head.length + doubleCrlfLen + markerPayload.lastLineEnd ∧
      markerPayload.payload = asBytes "0\r\n\r\nabc".toList ∧
      answer = .ok (⟨.ok,⟨[⟨"Transfer-Encoding".toList,"chunked".toList⟩],by decide⟩,
        .text "0\r\n\r\n".toList⟩,52) := by
    decide +kernel
  exact ⟨early,payload,by simp [accepted],_,_,accepted,by decide⟩

theorem wholeResponse (t : Target) (m : Message) (text : readable m.head = true) (buffer : Bytes)
    (real : buffer.length ≤ t.isizeMax) (room : m.bytes.length < buffer.length) (maxRetries : Nat)
    (tries : 0 < maxRetries) (reads : List Bytes) (nonempty : ∀ r ∈ reads, r ≠ [])
    (whole : reads.flatten = m.bytes) (stream : Stream) (tail : List (ReadEvent UInt8))
    (script : stream.reads = reads.map ReadEvent.data ++ .close :: tail) (RQ : Nat)
    (req : HttpClientRequest) :
    (∃ response total, request t RQ maxRetries stream req buffer = .ok (response,total) ∧
      response.statusCode = .fromU16 (UInt16.ofNat m.code) ∧ response.body.asBytes = m.payload) ↔
      sent RQ stream req = true ∧ ∃ d, firstHit buffer.length (marked m.head) [] reads = some d ∧
        delivered m.last m.chunks (d.length - (m.head.length + doubleCrlfLen)) = true := by
  cases done : sent RQ stream req with
  | false =>
    obtain ⟨e,failed⟩ := requestUnsent t maxRetries stream req buffer done
    simp [failed]
  | true =>
    have cut : reads.flatten <+: m.bytes := prefixOfEq whole
    cases hit : firstHit buffer.length (marked m.head) [] reads with
    | none =>
      obtain ⟨e,failed⟩ :=
        requestMissed t m buffer maxRetries tries reads nonempty cut stream tail script RQ req done
        (by simp [hit])
      simp [failed]
    | some d =>
      obtain ⟨long,within,bound,headers,result⟩ :=
        requestMarked t m buffer real maxRetries tries reads nonempty cut stream
        tail script RQ req done text hit
      have wide := t.isizeBelowUsize
      have walk : received t m.last (m.head.length + doubleCrlfLen) m.chunks
          (d.length - (m.head.length + doubleCrlfLen)) = .ok (m.chunks.flatMap Chunk.data) ↔ _ :=
        receivedWhole t (.inr (by omega))
      simp only [true_and, Option.some.injEq, exists_eq_left', ← walk, result]
      constructor
      · rintro ⟨response,total,ok,_,body⟩
        obtain ⟨payload,collected,same⟩ := Outcome.bindOk.mp ok
        cases same
        rw [collected, ← parseBodyBytes headers.items payload, body]
        rfl
      · intro collected
        rw [collected]
        exact ⟨_,_,rfl,rfl,parseBodyBytes _ _⟩

theorem wholeResponseOneRead :
    ∃ response total, request .bits32 128 1 ⟨[.data markerPayload.bytes,.close],[],[]⟩
      ⟨.GET,[],[],[],none⟩
        (List.replicate 128 0) = .ok (response,total) ∧
      response.statusCode = .fromU16 (UInt16.ofNat markerPayload.code) ∧
      response.body.asBytes = markerPayload.payload := by
  let reads := [markerPayload.bytes]
  let stream : Stream := ⟨[.data markerPayload.bytes,.close],[],[]⟩
  let req : HttpClientRequest := ⟨.GET,[],[],[],none⟩
  obtain ⟨text,real,room,nonempty,done,hit,delivers⟩ : readable markerPayload.head = true ∧
      (List.replicate 128 (0 : UInt8)).length ≤ Target.isizeMax .bits32 ∧
      markerPayload.bytes.length < (List.replicate 128 (0 : UInt8)).length ∧ (∀ r ∈ reads, r ≠ []) ∧
      sent 128 stream req = true ∧
      firstHit (List.replicate 128 (0 : UInt8)).length (marked markerPayload.head) [] reads =
        some markerPayload.bytes ∧
      delivered markerPayload.last markerPayload.chunks
        (markerPayload.bytes.length - (markerPayload.head.length + doubleCrlfLen)) = true := by
    decide +kernel
  have whole :=
    wholeResponse .bits32 markerPayload text (List.replicate 128 0) real room 1 (by decide)
      reads nonempty
    (List.append_nil _) stream [] rfl 128 req
  exact whole.mpr ⟨done,markerPayload.bytes,hit,delivers⟩

def trailerMessage : Message where
  code := 200
  reason := asBytes "OK".toList
  reasonPlain := by decide
  fields := [codingField]
  coded := ⟨codingField,List.mem_singleton.mpr rfl,by decide⟩
  coding := by decide
  chunks := [⟨plainLine ['2'] (by decide) (by decide),asBytes "hi".toList,by decide,by decide⟩]
  last := plainLine ['0'] (by decide) (by decide)
  lastZero := by decide
  trailers := [⟨"X".toList,asBytes " y".toList,by decide,by decide,by decide⟩]

/- A trailer separates the last chunk from the empty line, and no marker is received. -/
theorem wholeResponseTrailer :
    let answer :=
      request .bits32 128 1 ⟨[.data trailerMessage.bytes,.close],[],[]⟩ ⟨.GET,[],[],[],none⟩
        (List.replicate 128 0)
    readable trailerMessage.head = true ∧ trailerMessage.bytes.length < 128 ∧
    answer = .err (.invalidResponse "Incomplete response body") ∧ ¬ ∃ response total,
    answer = .ok (response,total) := by
  intro answer
  obtain ⟨text,room,refused⟩ : readable trailerMessage.head = true ∧ trailerMessage.bytes.length < 128 ∧
      answer = .err (.invalidResponse "Incomplete response body") := by decide +kernel
  exact ⟨text,room,refused,by simp [refused]⟩

end Nanofish.ChunkedReception

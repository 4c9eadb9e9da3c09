import Nanofish.ChunkedReception
import Nanofish.Retries
import Nanofish.Transport

/-! What the client computes, without its buffer: the bytes it gathers up to some number of
them, and what these decode to. The code reads into the caller's slice and decodes in
place there; nothing of it but its length has a part in what comes out. -/
namespace Nanofish.Reception
open Rust Rust.Utf8 Rust.Text Rust.Pattern Rust.Reads
open Protocol Codes Response Codec HeaderBlock Parsing Client
open Receiving Retries Dechunk ChunkedReception Transport

section Width
variable (t : Target)

def settle (held : Bytes) (sawEof : Bool) : Outcome Error Bytes := do
  let _ ← verdict t held sawEof
  .ok held

def gather (cap : Nat) : List (ReadEvent UInt8) → Bytes → Nat → Nat → Outcome Error Bytes × Nat
  | [], held, retries, delays =>
    if held.length < cap ∧ 0 < retries then (.pending,delays) else (settle t held false,delays)
  | event :: rest, held, retries, delays =>
    if held.length < cap ∧ 0 < retries then
      match event with
      | .close => (settle t held true,delays)
      | .fault =>
        if retries = 1 then (.err .tcpError,delays) else
          gather cap rest held (retries - 1) (delays + 1)
      | .data fragment =>
        if fragment = [] then (settle t held true,delays)
        else if complete t (grow cap held fragment) then (.ok (grow cap held fragment),delays)
        else gather cap rest (grow cap held fragment) retries delays
    else (settle t held false,delays)

-- The head as it came, the body without its chunk lines, and the number of bytes of both.
def decoded (d : Bytes) : Outcome Error (HttpResponse × Nat) := match findDoubleCrlf d with
  | none => .err (.invalidResponse "Invalid HTTP response format")
  | some pos => do
    let head := d.take pos
    let body := d.drop (pos + doubleCrlfLen)
    let payload ← if headChunked head then decodeChunks t (pos + doubleCrlfLen) body else .ok body
    let response ← parseResp (Block head payload)
    .ok (response,(Block head payload).length)

def requestAbstract (RQ maxRetries : Nat) (stream : Stream) (req : HttpClientRequest) (cap : Nat) :
    Exchange :=
  match buildReq RQ req.method req.host req.path req.headers req.body with
  | .err e => ⟨.err e,stream.written,0⟩
  | .panic => ⟨.panic,stream.written,0⟩
  | .pending => ⟨.pending,stream.written,0⟩
  | .ok head => match send stream head.items req.body with
    | (false,stream) => ⟨.err .tcpError,stream.written,0⟩
    | (true,stream) =>
      let (come,delays) := gather t cap stream.reads [] maxRetries 0
      ⟨come >>= decoded t,stream.written,delays⟩

variable (buffer : Bytes)

/- A run of the loop beside what is gathered: the same end, and where that is bytes, the
buffer begins with them. -/
def Gathers (run : ReadRun) (come : Outcome Error Bytes × Nat) : Prop :=
  run.delays = come.2 ∧ match come.1 with
    | .ok d => run.result = .ok d.length ∧ run.buffer = filled buffer d ∧ d.length ≤ buffer.length
    | .err e => run.result = .err e
    | .panic => run.result = .panic
    | .pending => run.result = .pending

theorem verdictSize {held : Bytes} {sawEof : Bool} {n : Nat} (ok : verdict t held sawEof = .ok n) :
    n = held.length :=
  (verdictOk t ok).1

theorem endGathers {held : Bytes} (bound : held.length ≤ buffer.length) (retries delays : Nat)
    (sawEof : Bool) :
    Gathers buffer (readEnd t (holding buffer held retries delays) sawEof)
      (settle t held sawEof,delays) := by
  rw [readEndHolding, settle]
  refine ⟨rfl,?_⟩
  cases verdicts : verdict t held sawEof with
  | ok n => exact ⟨congrArg Outcome.ok (verdictSize t verdicts),rfl,bound⟩
  | err e => rfl
  | panic => rfl
  | pending => rfl

theorem loopGathers (events : List (ReadEvent UInt8)) {held : Bytes}
    (bound : held.length ≤ buffer.length) (retries delays : Nat) :
    Gathers buffer (readLoop t events (holding buffer held retries delays))
      (gather t buffer.length events held retries delays) := by
  induction events generalizing held retries delays with
  | nil =>
    rw [gather]
    by_cases more : held.length < buffer.length ∧ 0 < retries
    · rw [if_pos more, loopWaits t buffer more.2 delays more.1]
      exact ⟨rfl,rfl⟩
    · rw [if_neg more, readLoop.eq_def, if_neg (by simpa only [holding, filledLength bound] using more)]
      exact endGathers t buffer bound retries delays false
  | cons event rest ih =>
    rw [gather.eq_def]
    dsimp only
    by_cases more : held.length < buffer.length ∧ 0 < retries
    · obtain ⟨room,tries⟩ := more
      rw [if_pos ⟨room,tries⟩]
      cases event with
      | close =>
        rw [loopClose t buffer tries delays rest room]
        exact endGathers t buffer bound retries delays true
      | fault =>
        rw [loopFault t buffer tries delays rest room]
        simp only
        split
        · exact ⟨rfl,rfl⟩
        · exact ih bound _ _
      | data fragment =>
        simp only
        by_cases empty : fragment = []
        · rw [if_pos empty, empty, loopEmpty t buffer tries delays rest room]
          exact endGathers t buffer bound retries delays true
        · have within := growLength buffer.length held fragment bound
          rw [if_neg empty, loopData t buffer tries delays empty rest room]
          split
          · exact ⟨rfl,rfl,rfl,within⟩
          · exact ih within retries delays
    · rw [if_neg more, readLoop.eq_def, if_neg (by simpa only [holding, filledLength bound] using more)]
      exact endGathers t buffer bound retries delays false

theorem decodeExact {d : Bytes} (real : buffer.length ≤ t.isizeMax)
    (bound : d.length ≤ buffer.length) (delays : Nat) :
    decodeResponse t ⟨.ok d.length,filled buffer d,delays⟩ = decoded t d := by
  unfold decoded
  cases found : findDoubleCrlf d with
  | none =>
    rw [decodePlain t buffer (chunkedOpen found) bound, parseRespOpen found]
    rfl
  | some pos =>
    obtain ⟨closes,size,whole⟩ := blockOf found
    have same := chunkedBlock closes (d.drop (pos + doubleCrlfLen))
    rw [← whole] at same
    simp only
    cases coded : headChunked (d.take pos) with
    | false =>
      rw [coded] at same
      rw [decodePlain t buffer same bound]
      simp only [Bool.false_eq_true, if_false, Outcome.okBind, ← whole]
    | true =>
      have front : (Block (d.take pos) (d.drop (pos + doubleCrlfLen))).length ≤ buffer.length := by
        rwa [← whole]
      have walk := decodeCoded t closes coded real front delays
      rw [← whole, size] at walk
      simpa only [if_true] using walk

theorem responseDecoded (real : buffer.length ≤ t.isizeMax) (events : List (ReadEvent UInt8))
    (maxRetries : Nat) :
    let run := readResponse t events buffer maxRetries
    let gathered := gather t buffer.length events [] maxRetries 0
    decodeResponse t run = gathered.1 >>= decoded t ∧ run.delays = gathered.2 := by
  intro run gathered
  have ends : Gathers buffer run gathered :=
    loopGathers t buffer events (show ([] : Bytes).length ≤ buffer.length from Nat.zero_le _)
      maxRetries 0
  obtain ⟨delays,ends⟩ := ends
  refine ⟨?_,delays⟩
  cases come : gathered.1 with
  | ok d =>
    rw [come] at ends
    obtain ⟨result,held,bound⟩ := ends
    have shape : run = ⟨.ok d.length,filled buffer d,run.delays⟩ := by rw [← result, ← held]
    rw [shape, decodeExact t buffer real bound, Outcome.okBind]
  | err e => rw [come] at ends; rw [decodeResponse, show run.result = .err e from ends]; rfl
  | panic => rw [come] at ends; rw [decodeResponse, show run.result = .panic from ends]; rfl
  | pending => rw [come] at ends; rw [decodeResponse, show run.result = .pending from ends]; rfl

theorem responseFrom (real : buffer.length ≤ t.isizeMax) {events : List (ReadEvent UInt8)}
    {maxRetries : Nat} {response : HttpResponse} {total : Nat}
    (ok : decodeResponse t (readResponse t events buffer maxRetries) = .ok (response,total)) :
    ∃ d, d <+: arrived events ∧ d.length ≤ buffer.length ∧ Settled t d ∧
    decoded t d = .ok (response,total) := by
  have reported := responseReported t buffer events maxRetries
  generalize readResponse t events buffer maxRetries = run at ok reported
  obtain ⟨result,held,delays⟩ := run
  obtain ⟨n,found,_⟩ := Outcome.bindOk.mp ok
  obtain ⟨d,rfl,rfl,bound,start,settled⟩ := reported n found
  cases found
  rw [decodeExact t buffer real bound] at ok
  exact ⟨d,start,bound,settled,ok⟩

theorem requestRefines (RQ maxRetries : Nat) (stream : Stream) (req : HttpClientRequest)
    (real : buffer.length ≤ t.isizeMax) :
    requestWithRetryDelay t RQ maxRetries stream req buffer =
      requestAbstract t RQ maxRetries stream req buffer.length := by
  unfold requestWithRetryDelay requestAbstract
  cases buildReq RQ req.method req.host req.path req.headers req.body with
  | err e => rfl
  | panic => rfl
  | pending => rfl
  | ok head =>
    rcases done : send stream head.items req.body with ⟨_ | _,u⟩
    · simp only [done]
    · obtain ⟨result,delays⟩ := responseDecoded t buffer real u.reads maxRetries
      simp only [done]
      rw [result, delays]

theorem gatherRoomy {cap wide : Nat} (events : List (ReadEvent UInt8)) {held : Bytes}
    (room : held.length + (arrived events).length < cap)
    (wider : held.length + (arrived events).length < wide) (retries delays : Nat) :
    gather t cap events held retries delays = gather t wide events held retries delays := by
  have inside : held.length < cap := by omega
  have outside : held.length < wide := by omega
  induction events generalizing held retries delays with
  | nil => simp only [gather, inside, outside]
  | cons event rest ih =>
    rw [gather.eq_def, gather.eq_def]
    dsimp only
    by_cases tries : 0 < retries
    · have goes : held.length < cap ∧ 0 < retries := ⟨inside,tries⟩
      have runs : held.length < wide ∧ 0 < retries := ⟨outside,tries⟩
      rw [if_pos goes, if_pos runs]
      cases event with
      | close => rfl
      | fault =>
        simp only
        split
        · rfl
        · exact ih room wider _ _ inside outside
      | data fragment =>
        simp only
        split
        · rfl
        · rename_i some
          rw [arrivedFragment some, List.length_append] at room wider
          have small : grow cap held fragment = held ++ fragment := by
            rw [grow, List.take_of_length_le (by omega)]
          have large : grow wide held fragment = held ++ fragment := by
            rw [grow, List.take_of_length_le (by omega)]
          have size : (held ++ fragment).length = held.length + fragment.length := List.length_append
          rw [small, large]
          split
          · rfl
          · exact ih (by omega) (by omega) _ _ (by omega) (by omega)
    · have stops (n : Nat) : ¬ (held.length < n ∧ 0 < retries) := fun more => tries more.2
      rw [if_neg (stops cap), if_neg (stops wide)]

end Width

theorem requestBlind (t : Target) (RQ maxRetries : Nat) (stream : Stream) (req : HttpClientRequest)
    (buffer other : Bytes) (real : buffer.length ≤ t.isizeMax)
    (otherReal : other.length ≤ t.isizeMax)
    (alike : other.length = buffer.length ∨ (arrived stream.reads).length < buffer.length ∧
      (arrived stream.reads).length < other.length) :
    requestWithRetryDelay t RQ maxRetries stream req buffer =
      requestAbstract t RQ maxRetries stream req buffer.length ∧
    requestWithRetryDelay t RQ maxRetries stream req other =
      requestWithRetryDelay t RQ maxRetries stream req buffer := by
  refine ⟨requestRefines t buffer RQ maxRetries stream req real,?_⟩
  rw [requestRefines t buffer RQ maxRetries stream req real,
    requestRefines t other RQ maxRetries stream req otherReal]
  rcases alike with same | ⟨room,wider⟩
  · rw [same]
  · unfold requestAbstract
    cases buildReq RQ req.method req.host req.path req.headers req.body with
    | err e => rfl
    | panic => rfl
    | pending => rfl
    | ok head =>
      have reads := sendReads stream head.items req.body
      rcases done : send stream head.items req.body with ⟨_ | _,u⟩
      · simp only [done]
      · rw [done] at reads
        simp only at reads
        simp only [done, reads]
        have wide : ([] : Bytes).length + (arrived stream.reads).length < buffer.length := by
          simpa using room
        have narrow : ([] : Bytes).length + (arrived stream.reads).length < other.length := by
          simpa using wider
        rw [gatherRoomy t stream.reads narrow wide]

theorem requestBlindStale :
    let stream : Stream := ⟨[.data (asBytes "HTTP/1.1 200 OK\r\nX: 1\r\n\r\nhi".toList),.close],[],[]⟩
    let req : HttpClientRequest := ⟨.GET,"h".toList,"/".toList,[],none⟩
    requestWithRetryDelay .bits32 64 1 stream req (List.replicate 40 48) =
      requestWithRetryDelay .bits32 64 1 stream req (List.replicate 64 0) := by
  intro stream req
  exact (requestBlind .bits32 64 1 stream req (List.replicate 64 0) (List.replicate 40 48)
    (by decide) (by decide)
    (.inr (by decide +kernel))).2

section Ends
variable (t : Target)

theorem parseHeadEnds (s : Str) :
    parseHead s ≠ .pending ∧ (parseHead s = .panic ↔ splitCrlf s = [s] ∧ IsStatusLine s) := by
  rcases firstLine s with ⟨whole,_⟩ | ⟨line,u,_,split,_⟩
  · rcases statusOfCases s with ⟨code,status,good⟩ | ⟨e,status,bad⟩
    · simp [parseHead,whole,status,good]
    · simp [parseHead,whole,status,bad]
  · obtain ⟨field,more,fields⟩ := List.exists_cons_of_ne_nil (splitPairNe (a := '\r') (b := '\n') u)
    have fields : splitCrlf u = field :: more := fields
    rcases statusOfCases line with ⟨code,status,_⟩
      | ⟨e,status,_⟩ <;> simp [parseHead,split,fields,status]

theorem parseBlockEnds {head : Bytes} (closes : Closes head) (body : Bytes) :
    parseResp (Block head body) ≠ .pending ∧
    (parseResp (Block head body) = .panic ↔ LoneStatusLine (Block head body)) := by
  rw [loneBlock closes, parseRespBlock closes]
  cases text : fromUtf8 head with
  | none => simp
  | some s =>
    obtain ⟨returns,panics⟩ := parseHeadEnds s
    simp only [Outcome.ofOptionSome, Outcome.okBind, Option.some.injEq, exists_eq_left', ← panics]
    cases parsed : parseHead s with
    | pending => exact absurd parsed returns
    | ok found => simp
    | err e => simp
    | panic => simp

theorem decodeReturns {pos : Nat} {rest : Bytes} : decodeChunks t pos rest ≠ .pending := by
  fun_induction decodeChunks t pos rest with
  | case1 pos rest next => simp
  | case2 pos rest start size next _ ih =>
    cases walk : decodeChunks t (pos + (start + size + crlfLen))
        (rest.drop (start + size + crlfLen)) with
    | pending => exact absurd walk ih
    | ok more => simp
    | err e => simp
    | panic => simp
  | case3 pos rest e next => simp
  | case4 pos rest next => simp
  | case5 pos rest next =>
    have view := nextChunkView t pos rest
    rw [next] at view
    cases view

/- The replies the client does not survive: a chunk that would end behind the last
address, and a head that is nothing but a status line. -/
def Crashes (d : Bytes) : Prop := ∃ pos, findDoubleCrlf d = some pos ∧
  let coded := headChunked (d.take pos)
  let chunks := d.drop (pos + doubleCrlfLen)
  (coded = true ∧ Overflows t (pos + doubleCrlfLen) chunks) ∨
    LoneStatusLine d ∧ (coded = true → ∃ payload,
      decodeChunks t (pos + doubleCrlfLen) chunks = .ok payload)

theorem decodedEnds (d : Bytes) : decoded t d ≠ .pending ∧ (decoded t d = .panic ↔ Crashes t d) := by
  unfold decoded Crashes
  cases found : findDoubleCrlf d with
  | none => simp
  | some pos =>
    obtain ⟨closes,size,whole⟩ := blockOf found
    have lone (payload : Bytes) : LoneStatusLine (Block (d.take pos) payload) ↔ LoneStatusLine d := by
      rw [loneBlock closes, ← loneBlock closes (d.drop (pos + doubleCrlfLen)), ← whole]
    have parses (payload : Bytes) : (parseResp (Block (d.take pos) payload) >>= fun response =>
        (.ok (response,(Block (d.take pos) payload).length) : Outcome Error (HttpResponse × Nat))) ≠
          .pending ∧
        ((parseResp (Block (d.take pos) payload) >>= fun response =>
          (.ok (response,(Block (d.take pos) payload).length) :
            Outcome Error (HttpResponse × Nat))) = .panic ↔
            LoneStatusLine d) := by
      obtain ⟨returns,panics⟩ := parseBlockEnds closes payload
      rw [lone] at panics
      rw [← panics]
      cases parsed : parseResp (Block (d.take pos) payload) with
      | pending => exact absurd parsed returns
      | ok r => simp
      | err e => simp
      | panic => simp
    simp only [Option.some.injEq, exists_eq_left']
    cases coded : headChunked (d.take pos) with
    | false => simpa using parses (d.drop (pos + doubleCrlfLen))
    | true =>
      have overflows : Overflows t (pos + doubleCrlfLen) (d.drop (pos + doubleCrlfLen)) ↔
          decodeChunks t (pos + doubleCrlfLen) (d.drop (pos + doubleCrlfLen)) = .panic :=
        ⟨overflowsPanic,panicOverflows⟩
      simp only [if_true, true_and, forall_const, overflows]
      cases walk : decodeChunks t (pos + doubleCrlfLen) (d.drop (pos + doubleCrlfLen)) with
      | pending => exact absurd walk (decodeReturns t)
      | panic => simp
      | err e => simp
      | ok payload => simpa using parses payload

theorem settleEnds (held : Bytes) (sawEof : Bool) :
    settle t held sawEof ≠ .pending ∧ settle t held sawEof ≠ .panic := by
  unfold settle verdict
  repeat' split
  all_goals simp

def fragments (events : List (ReadEvent UInt8)) : List Bytes := events.filterMap fun
  | .data fragment => some fragment
  | _ => none

/- A peer that keeps the client waiting: it neither ends nor fails too often, and no
read leaves a complete reply or a full buffer. -/
structure Waits (cap : Nat) (events : List (ReadEvent UInt8)) (held : Bytes) (retries : Nat) : Prop where
  unended : ∀ event ∈ events, event ≠ .close ∧ event ≠ .data []
  faults : events.count .fault < retries
  room : held.length + (arrived events).length < cap
  unfinished : firstHit cap (complete t) held (fragments events) = none

section Events
variable {cap retries : Nat} {rest : List (ReadEvent UInt8)} {held : Bytes}

theorem waitsFault (several : 1 < retries) :
    Waits t cap (.fault :: rest) held retries ↔ Waits t cap rest held (retries - 1) := by
  constructor
  · rintro ⟨unended,faults,room,unfinished⟩
    rw [List.count_cons_self] at faults
    exact ⟨fun event mem => unended event (List.mem_cons_of_mem _ mem),by omega,room,unfinished⟩
  · rintro ⟨unended,faults,room,unfinished⟩
    refine ⟨fun event mem => ?_,by rw [List.count_cons_self]; omega,room,unfinished⟩
    rcases List.mem_cons.mp mem with rfl | mem
    · simp
    · exact unended event mem

theorem waitsLast : ¬ Waits t cap (.fault :: rest) held 1 := by
  rintro ⟨_,faults,_,_⟩
  rw [List.count_cons_self] at faults
  omega

variable {fragment : Bytes} (free : held.length < cap)
include free

theorem fragmentHit : firstHit cap (complete t) held (fragments (.data fragment :: rest)) =
    if complete t (grow cap held fragment) then some (grow cap held fragment)
    else firstHit cap (complete t) (grow cap held fragment) (fragments rest) := by
  rw [show fragments (.data fragment :: rest) = fragment :: fragments rest from rfl, firstHit,
    if_pos free]

theorem waitsDone (done : complete t (grow cap held fragment) = true) :
    ¬ Waits t cap (.data fragment :: rest) held retries := by
  intro waits
  have unfinished := waits.unfinished
  rw [fragmentHit t free, if_pos done] at unfinished
  contradiction

theorem waitsData (solid : fragment ≠ []) (short : ¬ complete t (grow cap held fragment) = true) :
    Waits t cap (.data fragment :: rest) held retries ↔
    Waits t cap rest (grow cap held fragment) retries := by
  have size : held.length + (arrived (.data fragment :: rest)).length < cap ↔
      (grow cap held fragment).length + (arrived rest).length < cap := by
    rw [arrivedFragment solid, List.length_append, grow, List.length_append, List.length_take]
    omega
  constructor
  · rintro ⟨unended,faults,room,unfinished⟩
    rw [List.count_cons_of_ne (by simp)] at faults
    rw [fragmentHit t free, if_neg short] at unfinished
    exact ⟨fun event mem => unended event (List.mem_cons_of_mem _ mem),faults,size.mp room,unfinished⟩
  · rintro ⟨unended,faults,room,unfinished⟩
    refine ⟨fun event mem => ?_,
      by rwa [List.count_cons_of_ne (by simp)],size.mpr room,by rwa [fragmentHit t free, if_neg short]⟩
    rcases List.mem_cons.mp mem with rfl | mem
    · simpa using solid
    · exact unended event mem

end Events

theorem gatherWaits (cap : Nat) (events : List (ReadEvent UInt8)) {held : Bytes}
    (bound : held.length ≤ cap) (retries delays : Nat) :
    (gather t cap events held retries delays).1 = .pending ↔ Waits t cap events held retries := by
  induction events generalizing held retries delays with
  | nil =>
    rw [gather]
    constructor
    · intro waits
      split at waits
      · rename_i more
        exact ⟨by simp,by simpa using more.2,by simpa [arrived] using more.1,rfl⟩
      · exact absurd waits (settleEnds t held false).1
    · intro waits
      have more : held.length < cap ∧ 0 < retries :=
        ⟨by simpa [arrived] using waits.room,by simpa using waits.faults⟩
      rw [if_pos more]
  | cons event rest ih =>
    rw [gather.eq_def]
    dsimp only
    by_cases more : held.length < cap ∧ 0 < retries
    · rw [if_pos more]
      cases event with
      | close =>
        refine iff_of_false (settleEnds t held true).1 fun waits => ?_
        exact (waits.unended .close List.mem_cons_self).1 rfl
      | fault =>
        by_cases last : retries = 1
        · rw [last]
          exact iff_of_false (by simp) (waitsLast t)
        · simp only [last, if_false]
          rw [ih bound, waitsFault t (by omega)]
      | data fragment =>
        by_cases empty : fragment = []
        · simp only [empty, if_true]
          refine iff_of_false (settleEnds t held true).1 fun waits => ?_
          exact (waits.unended (.data []) List.mem_cons_self).2 rfl
        · simp only [empty, if_false]
          by_cases done : complete t (grow cap held fragment) = true
          · rw [if_pos done]
            exact iff_of_false (by simp) (waitsDone t more.1 done)
          · rw [if_neg done, ih (growLength cap held fragment bound), waitsData t more.1 empty done]
    · rw [if_neg more]
      refine iff_of_false (settleEnds t held false).1 fun waits => more ⟨?_,?_⟩
      · exact Nat.lt_of_le_of_lt (Nat.le_add_right _ _) waits.room
      · exact Nat.lt_of_le_of_lt (Nat.zero_le _) waits.faults

theorem gatherSafe (cap : Nat) (events : List (ReadEvent UInt8)) (held : Bytes) (retries delays : Nat) :
    (gather t cap events held retries delays).1 ≠ .panic := by
  induction events generalizing held retries delays with
  | nil =>
    rw [gather]
    split
    · simp
    · exact (settleEnds t held false).2
  | cons event rest ih =>
    rw [gather.eq_def]
    dsimp only
    split
    · cases event with
      | close => exact (settleEnds t held true).2
      | fault =>
        simp only
        split
        · simp
        · exact ih _ _ _
      | data fragment =>
        simp only
        split
        · exact (settleEnds t held true).2
        · split
          · simp
          · exact ih _ _ _
    · exact (settleEnds t held false).2

end Ends

theorem requestSurvives (t : Target) (RQ maxRetries : Nat) (stream : Stream)
    (req : HttpClientRequest) (buffer : Bytes) (real : buffer.length ≤ t.isizeMax) :
    let result := (requestWithRetryDelay t RQ maxRetries stream req buffer).result
    let come := (gather t buffer.length stream.reads [] maxRetries 0).1
    (result = .panic ↔ sent RQ stream req = true ∧ ∃ d, come = .ok d ∧ Crashes t d) ∧
    (result = .pending ↔ sent RQ stream req = true ∧
      Waits t buffer.length stream.reads [] maxRetries) := by
  intro result come
  have waits :=
    gatherWaits t buffer.length stream.reads
      (show ([] : Bytes).length ≤ buffer.length from Nat.zero_le _) maxRetries 0
  have safe := gatherSafe t buffer.length stream.reads [] maxRetries 0
  cases done : sent RQ stream req with
  | false =>
    obtain ⟨e,failed⟩ := requestUnsent t maxRetries stream req buffer done
    have failed : result = .err e := failed
    simp [failed]
  | true =>
    have decodes : result = come >>= decoded t :=
      (requestSent t maxRetries stream req buffer done).trans
        (responseDecoded t buffer real stream.reads maxRetries).1
    rw [decodes, ← waits]
    cases gathered : come with
    | panic => exact absurd gathered safe
    | pending =>
      simp [show (gather t buffer.length stream.reads [] maxRetries 0).1 = .pending from gathered]
    | err e => simp [show (gather t buffer.length stream.reads [] maxRetries 0).1 = .err e from gathered]
    | ok d =>
      obtain ⟨returns,panics⟩ := decodedEnds t d
      simp [show (gather t buffer.length stream.reads [] maxRetries 0).1 = .ok d from gathered,
        returns,panics]

theorem requestSurvivesNot :
    let reply := asBytes "HTTP/1.1 204 No Content\r\n\r\n".toList
    let req : HttpClientRequest := ⟨.GET,"h".toList,"/".toList,[],none⟩
    (requestWithRetryDelay .bits32 64 1 ⟨[.data reply,.close],[],[]⟩ req
      (List.replicate 64 0)).result = .panic ∧
    (requestWithRetryDelay .bits32 64 1 ⟨[.data reply],[],[]⟩ req (List.replicate 64 0)).result =
      .pending := by
  rw [String.toList_ofList]
  intro reply req
  obtain ⟨sent,gathered,found,plain,first,text,words,code⟩ :
      sent 64 ⟨[.data reply,.close],[],[]⟩ req = true ∧
      (gather .bits32 64 [.data reply,.close] [] 1 0).1 = .ok reply ∧ findDoubleCrlf reply = some 23 ∧
      headChunked (reply.take 23) = false ∧ findCrlf reply = some 23 ∧
      fromUtf8 (reply.take 23) = some ((fromUtf8 (reply.take 23)).getD []) ∧
      (splitWhitespace ((fromUtf8 (reply.take 23)).getD []))[1]? = some "204".toList ∧
      fromStrRadix 10 maxU16 "204".toList = some 204 := by decide +kernel
  have lone : LoneStatusLine reply := ⟨23,_,found,first,text,_,204,words,code⟩
  have crashes : Crashes .bits32 reply :=
    ⟨23,found,.inr ⟨lone,fun coded => by rw [plain] at coded; contradiction⟩⟩
  have waits : Waits .bits32 64 [.data reply] [] 1 := by
    obtain ⟨unended,faults,room,unfinished⟩ :
        (∀ event ∈ [ReadEvent.data reply], event ≠ .close ∧ event ≠ .data []) ∧
        [ReadEvent.data reply].count .fault < 1 ∧
        ([] : Bytes).length + (arrived [ReadEvent.data reply]).length < 64 ∧
        firstHit 64 (complete .bits32) [] (fragments [ReadEvent.data reply]) = none := by decide +kernel
    exact ⟨unended,faults,room,unfinished⟩
  exact ⟨((requestSurvives .bits32 64 1 ⟨[.data reply,.close],[],[]⟩ req (List.replicate 64 0)
      (by decide)).1).mpr
      ⟨sent,reply,gathered,crashes⟩,
    ((requestSurvives .bits32 64 1 ⟨[.data reply],[],[]⟩ req (List.replicate 64 0)
      (by decide)).2).mpr ⟨sent,waits⟩⟩

end Nanofish.Reception

import Nanofish.Server
import Nanofish.Receiving

/-! The server's read loop. The cached header end is always the one a fresh search
of the held bytes would find, so the loop tests one predicate of the bytes held, and
ends at the first read boundary where it is true. -/
namespace Nanofish.Accepting
open Rust Rust.Utf8 Rust.Text Rust.Pattern Rust.Reads
open Protocol Codes Response Codec HeaderBlock Client Receiving Request Server

section Loop
variable (t : Target)

def declaredLength (head : Bytes) : Nat := (contentLength t head).getD 0

def framed (held : Bytes) : Bool := match findDoubleCrlf held with
  | none => false
  | some hdrEnd => decide (hdrEnd + doubleCrlfLen + declaredLength t (held.take hdrEnd) ≤ held.length)

theorem framedBlock {head : Bytes} (closes : Closes head) (body : Bytes) :
    framed t (Block head body) = decide (declaredLength t head ≤ body.length) := by
  have cut : (Block head body).take head.length = head := by simp [Block]
  simp only [framed, blockFound closes, cut, blockLength, decide_eq_decide]
  omega

theorem framedPrefix {head body d : Bytes} (closes : Closes head) (start : d <+: Block head body) :
    framed t d = decide (head.length + doubleCrlfLen + declaredLength t head ≤ d.length) := by
  rcases blockPrefix closes start with ⟨short,none⟩ | ⟨part,rfl,_⟩
  · simp only [framed, none]
    exact (decide_eq_false (by omega)).symm
  · rw [framedBlock t closes, blockLength, decide_eq_decide]
    omega

variable {t} in
/- The completion test on bytes a slice can really hold: no addition overflows and
saturation is never what decides. -/
theorem requestCompleteExact {buf : Bytes} {totalRead hdrEnd : Nat} (real : buf.length ≤ t.isizeMax)
    (held : totalRead ≤ buf.length) (inside : hdrEnd + doubleCrlfLen ≤ totalRead) :
    requestComplete t buf totalRead hdrEnd =
      .ok (decide (hdrEnd + doubleCrlfLen + declaredLength t (buf.take hdrEnd) ≤ totalRead)) := by
  have wide := t.isizeBelowUsize
  rw [requestComplete, Target.addFits (by omega), Outcome.okBind, sliceToFits (by omega), Outcome.okBind]
  cases declared : contentLength t (buf.take hdrEnd) with
  | none => simp [declaredLength,declared,inside]
  | some n =>
    simp [declaredLength,declared,
      Target.saturatingReached (t := t) (show totalRead ≤ t.isizeMax by omega)]

-- A request is reported within the buffer, also at a length no slice can have.
theorem requestInside (events : List (ReadEvent UInt8)) {s : RequestState}
    (bound : s.totalRead ≤ s.buf.length) :
    ∀ total, (readRequestLoop t events s).result = .ok total →
    total ≤ (readRequestLoop t events s).buf.length := by
  induction events generalizing s with
  | nil => intro total ok; rw [readRequestLoop] at ok; split at ok <;> cases ok
  | cons event rest ih =>
    intro total
    rw [readRequestLoop.eq_def]
    by_cases room : s.totalRead < s.buf.length
    · rw [if_pos room]
      cases event with
      | close => exact fun ok => by cases ok
      | fault => exact fun ok => by cases ok
      | data fragment =>
        have fits : s.totalRead + (fragment.take (s.buf.length - s.totalRead)).length ≤
            s.buf.length := by
          rw [List.length_take]; omega
        have inside : s.totalRead + (fragment.take (s.buf.length - s.totalRead)).length ≤
            (overwrite s.buf s.totalRead (fragment.take (s.buf.length - s.totalRead))).length := by
          rw [overwriteLength fits]
          exact fits
        simp only
        split
        · exact fun ok => by cases ok
        · split
          · exact ih inside total
          · split
            · intro ok
              cases ok
              exact inside
            · exact ih inside total
            all_goals exact fun ok => by cases ok
    · rw [if_neg room]
      exact fun ok => by cases ok

def accepting (buf held : Bytes) : RequestState := ⟨filled buf held,held.length,findDoubleCrlf held⟩

variable {buf : Bytes}

-- The search is not repeated once it succeeded; its result would be the same.
theorem headerEndCached {held : Bytes} {hdrEnd : Nat} (found : findDoubleCrlf held = some hdrEnd)
    (r : Bytes) :
    findDoubleCrlf (grow buf.length held r) = some hdrEnd := positionAppend doubleCrlfNe found _

theorem requestTest (real : buf.length ≤ t.isizeMax) {g : Bytes} {pos : Nat}
    (within : g.length ≤ buf.length) (found : findDoubleCrlf g = some pos) :
    requestComplete t (filled buf g) g.length pos = .ok (framed t g) := by
  have inside : pos + doubleCrlfLen ≤ g.length := positionBound doubleCrlfNe found
  have front : (filled buf g).take pos = g.take pos := by
    rw [filled, List.take_append_of_le_length (by omega)]
  rw [requestCompleteExact (by rwa [filledLength within]) (by rwa [filledLength within]) inside, front]
  simp only [framed, found]

theorem requestLoopStep (real : buf.length ≤ t.isizeMax) {held r : Bytes}
    (room : held.length < buf.length) (some : r ≠ []) (rest : List (ReadEvent UInt8)) :
    readRequestLoop t (.data r :: rest) (accepting buf held) =
      if framed t (grow buf.length held r) then
        ⟨.ok (grow buf.length held r).length,filled buf (grow buf.length held r)⟩
      else readRequestLoop t rest (accepting buf (grow buf.length held r)) := by
  have bound := Nat.le_of_lt room
  have positive := List.length_pos_iff.mpr some
  have got : ¬ (r.take (buf.length - held.length)).length = 0 := by rw [List.length_take]; omega
  have within := growLength buf.length held r bound
  have size : held.length + (r.take (buf.length - held.length)).length =
      (grow buf.length held r).length := by
    rw [grow, List.length_append]
  have step : overwrite (filled buf held) held.length (r.take (buf.length - held.length)) =
      filled buf (grow buf.length held r) := filledOverwrite buf held _
  have cached := fun hdrEnd (found : findDoubleCrlf held = Option.some hdrEnd) =>
    (headerEndCached found r : findDoubleCrlf (grow buf.length held r) = _)
  rw [readRequestLoop, if_pos (by rwa [accepting, filledLength bound])]
  simp only [accepting, filledLength bound, got, if_false, size, step, filledTake]
  generalize grow buf.length held r = g at cached within
  cases old : findDoubleCrlf held with
  | none =>
    cases found : findDoubleCrlf g with
    | none => simp only [framed, found, Bool.false_eq_true, if_false]
    | some pos =>
      simp only [requestTest t real within found]
      cases framed t g <;> rfl
  | some pos =>
    have found := cached pos old
    simp only [requestTest t real within found, found]
    cases framed t g <;> rfl

theorem requestLoopFull {held : Bytes} (bound : held.length ≤ buf.length)
    (full : ¬ held.length < buf.length) (events : List (ReadEvent UInt8)) :
    readRequestLoop t events (accepting buf held) = ⟨.err .bufferOverflow,filled buf held⟩ := by
  rw [readRequestLoop.eq_def, if_neg (by rwa [accepting, filledLength bound])]
  rfl

theorem requestLoopClose {held : Bytes} (bound : held.length ≤ buf.length)
    (room : held.length < buf.length) (tail : List (ReadEvent UInt8)) :
    readRequestLoop t (.close :: tail) (accepting buf held) =
      ⟨.err (.invalidResponse "Incomplete request"),filled buf held⟩ := by
  rw [readRequestLoop.eq_def, if_pos (by rwa [accepting, filledLength bound])]
  rfl

theorem requestLoopReads (real : buf.length ≤ t.isizeMax) (tail : List (ReadEvent UInt8))
    {reads : List Bytes} (nonempty : ∀ r ∈ reads, r ≠ []) {held : Bytes}
    (bound : held.length ≤ buf.length) :
    readRequestLoop t (reads.map ReadEvent.data ++ tail) (accepting buf held) =
      match firstHit buf.length (framed t) held reads with
      | some d => ⟨.ok d.length,filled buf d⟩
      | none => readRequestLoop t tail (accepting buf ((held ++ reads.flatten).take buf.length)) := by
  induction reads generalizing held with
  | nil =>
    simp only [List.map_nil, List.nil_append, firstHit, List.flatten_nil, List.append_nil,
      List.take_of_length_le bound]
  | cons r rs ih =>
    by_cases room : held.length < buf.length
    · have next :=
        ih (fun s mem => nonempty s (List.mem_cons_of_mem r mem))
          (growLength buf.length held r bound)
      rw [List.map_cons, List.cons_append, requestLoopStep t real room (nonempty r List.mem_cons_self)]
      simp only [firstHit, room, if_true]
      split
      · rfl
      · rw [next, List.flatten_cons, growFlatten bound]
    · have cut : (held ++ (r :: rs).flatten).take buf.length = held := by
        rw [List.take_append_of_le_length (by omega), List.take_of_length_le bound]
      rw [hitFull room, requestLoopFull t bound room]
      simp only [cut, requestLoopFull t bound room]

theorem requestLoopSound (real : buf.length ≤ t.isizeMax) (events : List (ReadEvent UInt8))
    {held : Bytes} (bound : held.length ≤ buf.length) :
    let run := readRequestLoop t events (accepting buf held)
    run.result ≠ .panic ∧ run.buf.length = buf.length ∧
      ∀ total, run.result = .ok total → total ≤ buf.length ∧ framed t (run.buf.take total) = true := by
  induction events generalizing held with
  | nil =>
    rw [readRequestLoop.eq_def]
    split <;> simp [accepting,filledLength bound]
  | cons event rest ih =>
    by_cases room : held.length < buf.length
    · cases event with
      | close => simp [requestLoopClose t bound room,filledLength bound]
      | fault =>
        rw [readRequestLoop.eq_def, if_pos (by rwa [accepting, filledLength bound])]
        simp [accepting,filledLength bound]
      | data r =>
        by_cases none : r = []
        · rw [readRequestLoop.eq_def, if_pos (by rwa [accepting, filledLength bound])]
          simp [none,accepting,filledLength bound]
        · have within := growLength buf.length held r bound
          rw [requestLoopStep t real room none]
          split
          · rename_i found
            refine ⟨by simp,filledLength within,fun total ok => ?_⟩
            cases ok
            exact ⟨within,by rwa [filledTake]⟩
          · exact ih within
    · simp [requestLoopFull t bound room,filledLength bound]

theorem readRequestSound (real : buf.length ≤ t.isizeMax) (events : List (ReadEvent UInt8)) :
    let run := readRequest t events buf
    run.result ≠ .panic ∧ run.buf.length = buf.length ∧
      ∀ total, run.result = .ok total → total ≤ buf.length ∧ framed t (run.buf.take total) = true :=
  requestLoopSound t real events (show ([] : Bytes).length ≤ buf.length from Nat.zero_le _)

section Reads
variable (real : buf.length ≤ t.isizeMax) {reads : List Bytes} (nonempty : ∀ r ∈ reads, r ≠ [])
  (tail : List (ReadEvent UInt8))
include real nonempty

theorem requestHit {d : Bytes} (hit : firstHit buf.length (framed t) [] reads = some d) :
    readRequest t (reads.map ReadEvent.data ++ tail) buf = ⟨.ok d.length,filled buf d⟩ := by
  have run :=
    requestLoopReads t real tail nonempty (show ([] : Bytes).length ≤ buf.length from Nat.zero_le _)
  rw [hit] at run
  exact run

theorem requestMiss (miss : firstHit buf.length (framed t) [] reads = none) :
    readRequest t (reads.map ReadEvent.data ++ tail) buf =
      readRequestLoop t tail (accepting buf (reads.flatten.take buf.length)) := by
  have run :=
    requestLoopReads t real tail nonempty (show ([] : Bytes).length ≤ buf.length from Nat.zero_le _)
  rw [miss] at run
  exact run

theorem requestFull (miss : firstHit buf.length (framed t) [] reads = none)
    (full : buf.length ≤ reads.flatten.length) :
    (readRequest t (reads.map ReadEvent.data ++ tail) buf).result = .err .bufferOverflow := by
  have size : (reads.flatten.take buf.length).length = buf.length := by rw [List.length_take]; omega
  rw [requestMiss t real nonempty tail miss, requestLoopFull t (by omega) (by omega)]

theorem requestClosed (miss : firstHit buf.length (framed t) [] reads = none)
    (room : reads.flatten.length < buf.length) :
    (readRequest t (reads.map ReadEvent.data ++ .close :: tail) buf).result =
      .err (.invalidResponse "Incomplete request") := by
  have all : reads.flatten.take buf.length = reads.flatten := List.take_of_length_le (by omega)
  rw [requestMiss t real nonempty _ miss, all, requestLoopClose t (by omega) room]

end Reads

def frameEnd (stream : Bytes) : Option Nat :=
  (findDoubleCrlf stream).map fun hdrEnd =>
    hdrEnd + doubleCrlfLen + declaredLength t (stream.take hdrEnd)

theorem frameEndBlock {head : Bytes} (closes : Closes head) (body : Bytes) :
    frameEnd t (Block head body) = some (head.length + doubleCrlfLen + declaredLength t head) := by
  have cut : (Block head body).take head.length = head := by simp [Block]
  simp only [frameEnd, blockFound closes, Option.map_some, cut]

theorem frameAbove {stream : Bytes} {hdrEnd n : Nat} (found : findDoubleCrlf stream = some hdrEnd)
    (frame : frameEnd t stream = some n) : hdrEnd + doubleCrlfLen ≤ n := by
  simp only [frameEnd, found, Option.map_some, Option.some.injEq] at frame
  omega

theorem framedStream {stream d : Bytes} (start : d <+: stream) :
    framed t d = match frameEnd t stream with
      | none => false
      | some n => decide (n ≤ d.length) := by
  cases found : findDoubleCrlf stream with
  | none =>
    have inside : findDoubleCrlf d = none := by
      cases early : findDoubleCrlf d with
      | none => rfl
      | some pos =>
        obtain ⟨rest,same⟩ := start
        have grown := positionAppend doubleCrlfNe early rest
        rw [same] at grown
        rw [findDoubleCrlf, grown] at found
        contradiction
    simp only [framed, inside, frameEnd, found, Option.map_none]
  | some pos =>
    obtain ⟨closes,size,whole⟩ := blockOf found
    rw [whole] at start
    rw [framedPrefix t closes start, size, frameEnd, found]
    rfl

theorem hitFrame {stream : Bytes} (cap : Nat) {n : Nat} (frame : frameEnd t stream = some n)
    {reads : List Bytes} (whole : reads.flatten <+: stream) : firstHit cap (framed t) [] reads =
      firstHit cap (fun d => decide (n ≤ d.length)) [] reads := by
  refine hitCongr (Nat.zero_le _) fun d start _ => ?_
  rw [framedStream t (start.trans (by simpa using whole)), frame]

theorem missFrame {stream : Bytes} (cap : Nat) {reads : List Bytes} (whole : reads.flatten <+: stream)
    (short : ∀ n, frameEnd t stream = some n → cap < n ∨ reads.flatten.length < n) :
    firstHit cap (framed t) [] reads = none := by
  cases hit : firstHit cap (framed t) [] reads with
  | none => rfl
  | some d =>
    obtain ⟨found,start,bound,_⟩ := hitSound (Nat.zero_le _) hit
    rw [List.nil_append] at start
    have fits := start.length_le
    rw [framedStream t (start.trans whole)] at found
    cases frame : frameEnd t stream with
    | none => simp [frame] at found
    | some n =>
      have short := short n frame
      simp only [frame, decide_eq_true_eq] at found
      omega

theorem hitWhole {stream : Bytes} {cap n : Nat} (frame : frameEnd t stream = some n)
    (inside : n ≤ stream.length) (room : n ≤ cap) {reads : List Bytes}
    (whole : reads.flatten = stream) :
    ∃ d, firstHit cap (framed t) [] reads = some d ∧ firstReach cap n reads = some d.length ∧
      d <+: stream ∧ n ≤ d.length ∧ d.length ≤ cap := by
  have positive : 0 < n := by
    obtain ⟨pos,_,rfl⟩ := Option.map_eq_some_iff.mp frame
    simp only [doubleCrlfLen, doubleCrlf, List.length_cons]
    omega
  have some : reads ≠ [] := by
    rintro rfl; rw [← whole, List.flatten_nil, List.length_nil] at inside; omega
  have counted := hitFrame t cap frame (prefixOfEq whole)
  cases hit : firstHit cap (fun d => decide (n ≤ d.length)) [] reads with
  | none =>
    have short := of_decide_eq_false (hitNone (by simp only [List.length_nil]; omega) some hit)
    rw [List.nil_append, whole, List.length_take] at short
    omega
  | some d =>
    obtain ⟨long,start,bound,_⟩ := hitSound (Nat.zero_le _) hit
    rw [List.nil_append, whole] at start
    exact ⟨d,counted.trans hit,by rw [firstReach, hit]; rfl,start,of_decide_eq_true long,bound⟩

end Loop

theorem requestFraming (t : Target) (head body : Bytes) (closes : Closes head)
    (declared : contentLength t head = some body.length ∨ contentLength t head = none ∧ body = [])
    (buf : Bytes) (real : buf.length ≤ t.isizeMax) (reads : List Bytes) (nonempty : ∀ r ∈ reads, r ≠ [])
    (tail : List (ReadEvent UInt8)) :
    let R := Block head body
    let received := readRequest t (reads.map ReadEvent.data ++ tail) buf
    let closed := readRequest t (reads.map ReadEvent.data ++ .close :: tail) buf
    (reads.flatten = R → R.length ≤ buf.length → received.result = .ok R.length ∧
      received.buf.take R.length = R) ∧
    (reads.flatten = R → buf.length < R.length → received.result = .err .bufferOverflow) ∧
    (reads.flatten <+: R → reads.flatten ≠ R → R.length ≤ buf.length →
      closed.result = .err (.invalidResponse "Incomplete request")) ∧
    (∀ data hdrEnd totalRead n, data.length ≤ t.isizeMax → totalRead ≤ data.length →
      hdrEnd + doubleCrlfLen ≤ totalRead → contentLength t (data.take hdrEnd) = some n →
        requestComplete t data totalRead hdrEnd =
          .ok (decide (hdrEnd + doubleCrlfLen + n ≤ totalRead))) ∧
    ∀ events, (readRequest t events buf).result ≠ .panic ∧ ∀ total hdrEnd n,
      (readRequest t events buf).result = .ok total →
      findDoubleCrlf ((readRequest t events buf).buf.take total) = some hdrEnd →
      contentLength t ((readRequest t events buf).buf.take hdrEnd) = some n →
      hdrEnd + doubleCrlfLen + n ≤ total := by
  have length : declaredLength t head = body.length := by
    rcases declared with counted | ⟨uncounted,rfl⟩
    · simp [declaredLength,counted]
    · simp [declaredLength,uncounted]
  -- Under both framings of the head the frame ends where the body does.
  have frame : frameEnd t (Block head body) = some (Block head body).length := by
    rw [frameEndBlock t closes, length, blockLength]
  refine ⟨fun whole room => ?_,fun whole small => ?_,fun cut proper room => ?_,?_,fun events => ?_⟩
  · obtain ⟨d,hit,_,start,long,_⟩ := hitWhole t frame (Nat.le_refl _) room whole
    rw [start.eq_of_length_le long] at hit
    simp only [requestHit t real nonempty tail hit, filledTake, and_self]
  · have miss := missFrame t buf.length (prefixOfEq whole) fun n same => .inl (by simp_all)
    exact requestFull t real nonempty tail miss (by rw [whole]; omega)
  · have short : reads.flatten.length < (Block head body).length :=
      Nat.lt_of_not_le fun long => proper (cut.eq_of_length_le long)
    have miss := missFrame t buf.length cut fun n same => .inr (by simp_all)
    exact requestClosed t real nonempty tail miss (by omega)
  · intro data hdrEnd totalRead n real held inside counted
    rw [requestCompleteExact real held inside, declaredLength, counted]
    rfl
  · obtain ⟨calm,size,sound⟩ := readRequestSound t real events
    refine ⟨calm,fun total hdrEnd n ok found counted => ?_⟩
    obtain ⟨bound,complete⟩ := sound total ok
    have inside : hdrEnd + doubleCrlfLen ≤ _ := positionBound doubleCrlfNe found
    rw [List.length_take] at inside
    have front : ((readRequest t events buf).buf.take total).take hdrEnd =
        (readRequest t events buf).buf.take hdrEnd := by
      rw [List.take_take]
      congr 1
      omega
    simp only [framed, found, front, declaredLength, counted, Option.getD_some, decide_eq_true_eq,
      List.length_take] at complete
    omega

theorem requestFramingTwoReads :
    (readRequest .bits32 [.data (asBytes "POST / HTTP/1.1\r\nContent-Length: 2\r".toList),
      .data (asBytes "\n\r\nhi".toList)] (List.replicate 64 0)).result = .ok 40 := by
  rw [show "POST / HTTP/1.1\r\nContent-Length: 2\r".toList = _ from String.toList_ofList]
  show let first := asBytes _; (readRequest .bits32 [.data first,.data (asBytes "\n\r\nhi".toList)]
    (List.replicate 64 0)).result = .ok 40
  intro first
  have framing :=
    requestFraming .bits32 (first.take 34) (asBytes "hi".toList) (by decide +kernel)
      (by decide +kernel)
    (List.replicate 64 0) (by decide +kernel) [first,asBytes "\n\r\nhi".toList] (by decide +kernel) []
  exact (framing.1 (by decide +kernel) (by decide +kernel)).1

end Nanofish.Accepting

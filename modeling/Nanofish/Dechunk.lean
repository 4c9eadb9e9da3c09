import Mathlib.Logic.Relation
import Nanofish.Receiving

/-! In-place decoding refines a walk over the unread bytes. Each turn moves a chunk
down onto the bytes already decoded, so what is not yet read never changes, and the
walk needs to know nothing of the buffer but the position it is at. -/
namespace Nanofish.Dechunk
open Rust Rust.Utf8 Rust.Text Rust.Pattern Rust.Reads
open Protocol Codec HeaderBlock

def unread (totalRead : Nat) (s : DechunkState) : Bytes := (s.buffer.take totalRead).drop s.readPos

section Walk
variable (t : Target)

/- The next chunk of the bytes unread at `pos`: where its data starts and how long it
is. `none` is the quiet end: no size line is left, or its size is zero. -/
def nextChunk (pos : Nat) (rest : Bytes) : Outcome Error (Option (Nat × Nat)) := match findCrlf rest with
  | none => .ok none
  | some line => do
    let size ← chunkSize t (rest.take line)
    if size = 0 then .ok none
    else if t.usizeMax < pos + line + crlfLen + size then .panic
    else if rest.length < line + crlfLen + size then .err (.invalidResponse "Incomplete chunked body")
    else .ok (some (line + crlfLen,size))

inductive Next (pos : Nat) (rest : Bytes) : Outcome Error (Option (Nat × Nat)) → Prop
  | quiet : findCrlf rest = none → Next pos rest (.ok none)
  | refused {line : Nat} {e : Error} : findCrlf rest = some line →
      chunkSize t (rest.take line) = .err e → Next pos rest (.err e)
  | zero {line : Nat} : findCrlf rest = some line → chunkSize t (rest.take line) = .ok 0 →
      Next pos rest (.ok none)
  | beyond {line size : Nat} : findCrlf rest = some line → chunkSize t (rest.take line) = .ok size →
      size ≠ 0 → t.usizeMax < pos + line + crlfLen + size → Next pos rest .panic
  | short {line size : Nat} : findCrlf rest = some line → chunkSize t (rest.take line) = .ok size →
      size ≠ 0 → pos + line + crlfLen + size ≤ t.usizeMax → rest.length < line + crlfLen + size →
      Next pos rest (.err (.invalidResponse "Incomplete chunked body"))
  | behind {line size : Nat} : findCrlf rest = some line → chunkSize t (rest.take line) = .ok size →
      size ≠ 0 → pos + line + crlfLen + size ≤ t.usizeMax → line + crlfLen + size ≤ rest.length →
      Next pos rest (.ok (some (line + crlfLen,size)))

theorem chunkSizeReturns (line : Bytes) : (chunkSize t line).Returns := by
  unfold chunkSize
  exact Outcome.bindReturns (Outcome.ofOptionReturns _ _) fun _ => Outcome.ofOptionReturns _ _

theorem nextChunkView (pos : Nat) (rest : Bytes) : Next t pos rest (nextChunk t pos rest) := by
  unfold nextChunk
  cases found : findCrlf rest with
  | none => exact .quiet found
  | some line =>
    have returns := chunkSizeReturns t (rest.take line)
    cases announced : chunkSize t (rest.take line) with
    | panic => rw [announced] at returns; contradiction
    | pending => rw [announced] at returns; contradiction
    | err e => simp only [announced, Outcome.errBind]; exact .refused found announced
    | ok size =>
      simp only [announced, Outcome.okBind]
      by_cases last : size = 0
      · rw [if_pos last]
        exact .zero found (last ▸ announced)
      by_cases beyond : t.usizeMax < pos + line + crlfLen + size
      · rw [if_neg last, if_pos beyond]
        exact .beyond found announced last beyond
      by_cases short : rest.length < line + crlfLen + size
      · rw [if_neg last, if_neg beyond, if_pos short]
        exact .short found announced last (Nat.not_lt.mp beyond) short
      · rw [if_neg last, if_neg beyond, if_neg short]
        exact .behind found announced last (Nat.not_lt.mp beyond) (Nat.not_lt.mp short)

variable {t} in
theorem nextExact {pos : Nat} {rest : Bytes} {r : Outcome Error (Option (Nat × Nat))}
    (next : Next t pos rest r) :
    nextChunk t pos rest = r := by
  cases next with
  | quiet found => simp only [nextChunk, found]
  | refused found announced => simp only [nextChunk, found, announced, Outcome.errBind]
  | zero found announced => simp only [nextChunk, found, announced, Outcome.okBind, if_true]
  | beyond found announced positive beyond =>
    simp only [nextChunk, found, announced, Outcome.okBind, positive, beyond, if_true, if_false]
  | short found announced positive fits short =>
    simp only [nextChunk, found, announced, Outcome.okBind, positive, Nat.not_lt.mpr fits, short,
      if_true, if_false]
  | behind found announced positive fits inside =>
    simp only [nextChunk, found, announced, Outcome.okBind, positive, Nat.not_lt.mpr fits,
      Nat.not_lt.mpr inside, if_false]

theorem nextChunkSome {pos start size : Nat} {rest : Bytes}
    (next : nextChunk t pos rest = .ok (some (start,size))) :
    crlfLen ≤ start ∧ 0 < size ∧ start + size ≤ rest.length := by
  unfold nextChunk at next
  split at next
  · simp at next
  · obtain ⟨n,_,next⟩ := Outcome.bindOk.mp next
    repeat' split at next
    all_goals cases next
    omega

def decodeChunks (pos : Nat) (rest : Bytes) : Outcome Error Bytes :=
  match h : nextChunk t pos rest with
  | .ok none => .ok []
  | .ok (some (start,size)) =>
    have : rest.length - (start + size + crlfLen) < rest.length := by
      have := nextChunkSome t h
      simp only [crlfLen, crlf, List.length_cons] at this ⊢
      omega
    decodeChunks (pos + (start + size + crlfLen)) (rest.drop (start + size + crlfLen)) >>= fun more =>
      .ok ((rest.drop start).take size ++ more)
  | .err e => .err e
  | .panic => .panic
  | .pending => .pending
termination_by rest.length
decreasing_by simpa using this

variable {t}

theorem decodeStop {pos : Nat} {rest : Bytes} (next : nextChunk t pos rest = .ok none) :
    decodeChunks t pos rest = .ok [] := by
  rw [decodeChunks]; split <;> simp_all

theorem decodeErr {pos : Nat} {rest : Bytes} {e : Error} (next : nextChunk t pos rest = .err e) :
    decodeChunks t pos rest = .err e := by
  rw [decodeChunks]; split <;> simp_all

theorem decodePanic {pos : Nat} {rest : Bytes} (next : nextChunk t pos rest = .panic) :
    decodeChunks t pos rest = .panic := by
  rw [decodeChunks]; split <;> simp_all

theorem decodeNext {pos start size : Nat} {rest : Bytes}
    (next : nextChunk t pos rest = .ok (some (start,size))) :
    decodeChunks t pos rest =
      decodeChunks t (pos + (start + size + crlfLen)) (rest.drop (start + size + crlfLen)) >>=
        fun more =>
        .ok ((rest.drop start).take size ++ more) := by
  rw [decodeChunks]; split <;> simp_all

structure Moved (totalRead start size : Nat) (s s' : DechunkState) : Prop where
  length : s'.buffer.length = s.buffer.length
  readPos : s'.readPos = s.readPos + (start + size + crlfLen)
  writePos : s'.writePos = s.writePos + size
  written : s'.buffer.take s'.writePos = s.buffer.take s.writePos ++
    ((unread totalRead s).drop start).take size
  kept : unread totalRead s' = (unread totalRead s).drop (start + size + crlfLen)

variable (t) in
def Turn (totalRead : Nat) (s : DechunkState) : Outcome Error (Option (Nat × Nat)) → Prop
  | .ok none => dechunkStep t totalRead s = .ok .stop
  | .ok (some (start,size)) =>
    ∃ s', dechunkStep t totalRead s = .ok (.next s') ∧ Moved totalRead start size s s'
  | .err e => dechunkStep t totalRead s = .err e
  | .panic => dechunkStep t totalRead s = .panic
  | .pending => False

theorem moveChunk {totalRead start size : Nat} {s : DechunkState}
    (held : totalRead ≤ s.buffer.length) (order : s.writePos ≤ s.readPos)
    (inside : s.readPos + start + size ≤ totalRead) (behind : 0 < start) :
    s.writePos ≠ s.readPos + start ∧ ∃ buffer,
      (copyWithin s.buffer (s.readPos + start) (s.readPos + start + size) s.writePos :
        Outcome Error Bytes) = .ok buffer ∧
      Moved totalRead start size s ⟨buffer,s.readPos + start + size + crlfLen,s.writePos + size⟩ := by
  obtain ⟨buffer,moved,length,front,back⟩ :=
    copyWithinDown Error (show s.readPos + start ≤ s.readPos + start + size by omega)
    (show s.readPos + start + size ≤ s.buffer.length by omega)
    (show s.writePos ≤ s.readPos + start by omega)
  refine ⟨by omega,buffer,moved,⟨length,by simp only [Nat.add_assoc],rfl,?_,?_⟩⟩
  · have source : (s.buffer.take (s.readPos + start + size)).drop (s.readPos + start) =
        ((unread totalRead s).drop start).take size := by
      rw [unread, List.drop_drop, List.drop_take, List.drop_take, List.take_take]
      congr 1
      omega
    rwa [Nat.add_sub_cancel_left, source] at front
  · have same := back (s.readPos + start + size + crlfLen) (by omega)
    have place : s.readPos + start + size + crlfLen = s.readPos + (start + size + crlfLen) := by omega
    simp only [unread, List.drop_drop]
    rw [List.drop_take, List.drop_take, same, place]

theorem dechunkTurn {totalRead : Nat} {s : DechunkState} (real : s.buffer.length ≤ t.isizeMax)
    (held : totalRead ≤ s.buffer.length) (order : s.writePos ≤ s.readPos) :
    Turn t totalRead s (nextChunk t s.readPos (unread totalRead s)) := by
  have wide := t.isizeBelowUsize
  by_cases room : s.readPos < totalRead
  · have cut : (unread totalRead s).length = totalRead - s.readPos := by
      rw [unread, List.length_drop, List.length_take]; omega
    have first : (slice s.buffer s.readPos totalRead : Outcome Error Bytes) = .ok (unread totalRead s) :=
      sliceFits (by omega) held
    cases found : findCrlf (unread totalRead s) with
    | none => simp only [nextChunk, found, Turn, dechunkStep, room, if_true, first, Outcome.okBind]
    | some line =>
      have bound : line + crlfLen ≤ (unread totalRead s).length := positionBound (by decide) found
      have text : (slice s.buffer s.readPos (s.readPos + line) : Outcome Error Bytes) =
          .ok ((unread totalRead s).take line) := by
        rw [sliceFits (by omega) (by omega), unread, List.drop_take, List.drop_take, List.take_take]
        congr 2
        omega
      -- The line was received whole, so only the announced size can pass the last address.
      have start : (t.add (s.readPos + line) crlfLen : Outcome Error Nat) =
          .ok (s.readPos + line + crlfLen) :=
        Target.addFits (by omega)
      simp only [nextChunk, found]
      have returns := chunkSizeReturns t ((unread totalRead s).take line)
      cases size : chunkSize t ((unread totalRead s).take line) with
      | panic => rw [size] at returns; contradiction
      | pending => rw [size] at returns; contradiction
      | err e =>
        simp only [Outcome.errBind, Turn, dechunkStep, room, if_true, first, Outcome.okBind, found,
          text, size]
      | ok n =>
        simp only [Outcome.okBind]
        by_cases last : n = 0
        · simp only [last, if_true, Turn, dechunkStep, room, first, Outcome.okBind, found, text, size]
        · by_cases beyond : t.usizeMax < s.readPos + line + crlfLen + n
          · have sum : (t.add (s.readPos + line + crlfLen) n : Outcome Error Nat) = .panic :=
              Target.addOverflows beyond
            simp only [last, if_false, beyond, if_true, Turn, dechunkStep, room, first,
              Outcome.okBind, found, text, size, start, sum, Outcome.panicBind]
          · have sum : (t.add (s.readPos + line + crlfLen) n : Outcome Error Nat) =
                .ok (s.readPos + line + crlfLen + n) :=
              Target.addFits (by omega)
            by_cases short : (unread totalRead s).length < line + crlfLen + n
            · have cutShort : totalRead < s.readPos + line + crlfLen + n := by omega
              simp only [last, if_false, beyond, short, if_true, Turn, dechunkStep, room, first,
                Outcome.okBind, found, text, size, start, sum, cutShort]
            · have whole : ¬ totalRead < s.readPos + line + crlfLen + n := by omega
              obtain ⟨apart,buffer,copied,moved⟩ := moveChunk held order
                (show s.readPos + (line + crlfLen) + n ≤ totalRead by omega)
                (by simp only [crlfLen, crlf, List.length_cons]; omega)
              rw [← Nat.add_assoc] at apart copied moved
              have write : (t.add s.writePos n : Outcome Error Nat) = .ok (s.writePos + n) :=
                Target.addFits (by omega)
              have small : crlfLen = 2 := rfl
              have read : (t.add (s.readPos + line + crlfLen + n) crlfLen : Outcome Error Nat) =
                  .ok (s.readPos + line + crlfLen + n + crlfLen) := Target.addFits (by omega)
              simp only [last, if_false, beyond, short, Turn]
              refine ⟨_,?_,moved⟩
              simp only [dechunkStep, room, if_true, first, Outcome.okBind, found, text, size, last,
                if_false, start, sum, whole, apart, ne_eq, not_false_eq_true, copied, write, read]
  · have none : unread totalRead s = [] := List.drop_eq_nil_of_le (by rw [List.length_take]; omega)
    simp only [none, nextChunk, findCrlf, position, Turn, dechunkStep, room, if_false]

theorem decodeLength {pos : Nat} {rest payload : Bytes} (ok : decodeChunks t pos rest = .ok payload) :
    payload.length ≤ rest.length := by
  fun_induction decodeChunks t pos rest generalizing payload with
  | case1 pos rest next => cases ok; exact Nat.zero_le _
  | case2 pos rest start size next _ ih =>
    obtain ⟨small,_,inside⟩ := nextChunkSome t next
    simp only [crlfLen, crlf, List.length_cons] at small
    obtain ⟨more,tail,same⟩ := Outcome.bindOk.mp ok
    cases same
    have shorter := ih tail
    simp only [List.length_append, List.length_take, List.length_drop] at shorter ⊢
    omega
  | case3 pos rest e next => contradiction
  | case4 pos rest next => contradiction
  | case5 pos rest next => contradiction

variable (t) in
/- How a run of the loop ends, by what the walk finds. -/
def RunEnds (totalRead fuel : Nat) (s : DechunkState) : Outcome Error Bytes → Prop
  | .ok payload => ∃ s', dechunkLoop t totalRead fuel s = .ok s' ∧ s'.buffer.length = s.buffer.length ∧
      s'.writePos = s.writePos + payload.length ∧
      s'.buffer.take s'.writePos = s.buffer.take s.writePos ++ payload
  | .err e => dechunkLoop t totalRead fuel s = .err e
  | .panic => dechunkLoop t totalRead fuel s = .panic
  | .pending => False

/- The loop's run; every turn leaves fewer bytes unread, so there is fuel enough. -/
theorem dechunkRun {totalRead fuel : Nat} {s : DechunkState} (real : s.buffer.length ≤ t.isizeMax)
    (held : totalRead ≤ s.buffer.length) (order : s.writePos ≤ s.readPos)
    (enough : (unread totalRead s).length < fuel) :
    RunEnds t totalRead fuel s (decodeChunks t s.readPos (unread totalRead s)) := by
  induction fuel generalizing s with
  | zero => omega
  | succ fuel ih =>
    have turn := dechunkTurn real held order
    cases next : nextChunk t s.readPos (unread totalRead s) with
    | err e =>
      rw [next] at turn
      have turn : dechunkStep t totalRead s = .err e := turn
      rw [decodeErr next]
      simp only [RunEnds, dechunkLoop, turn, Outcome.errBind]
    | panic =>
      rw [next] at turn
      have turn : dechunkStep t totalRead s = .panic := turn
      rw [decodePanic next]
      simp only [RunEnds, dechunkLoop, turn, Outcome.panicBind]
    | pending => rw [next] at turn; exact turn.elim
    | ok found => match found with
      | none =>
        rw [next] at turn
        have turn : dechunkStep t totalRead s = .ok .stop := turn
        rw [decodeStop next]
        exact ⟨s,by simp only [dechunkLoop, turn, Outcome.okBind],rfl,rfl,by simp⟩
      | some (start,size) =>
        rw [next] at turn
        obtain ⟨s',turn,moved⟩ := turn
        -- The chunk and its line ending are behind the new read position.
        obtain ⟨_,_,inside⟩ := nextChunkSome t next
        have small : crlfLen = 2 := rfl
        have later :=
          ih (s := s') (moved.length ▸ real) (moved.length ▸ held)
            (by rw [moved.readPos, moved.writePos]; omega)
          (by rw [moved.kept, List.length_drop]; omega)
        rw [moved.readPos, moved.kept] at later
        rw [decodeNext next]
        cases rest : decodeChunks t (s.readPos + (start + size + crlfLen))
            ((unread totalRead s).drop (start + size + crlfLen)) with
        | err e =>
          rw [rest] at later; simpa only [RunEnds, dechunkLoop, turn, Outcome.okBind,
            Outcome.errBind] using later
        | panic =>
          rw [rest] at later; simpa only [RunEnds, dechunkLoop, turn, Outcome.okBind,
            Outcome.panicBind] using later
        | pending => rw [rest] at later; exact later.elim
        | ok payload =>
          rw [rest] at later
          obtain ⟨s'',run,length,writePos,written⟩ := later
          refine ⟨s'',
            by simpa only [dechunkLoop, turn, Outcome.okBind] using run,length.trans moved.length,?_,?_⟩
          · rw [writePos, moved.writePos]
            simp only [List.length_append, List.length_take, List.length_drop]
            omega
          · rw [written, moved.written, List.append_assoc]

variable (t) in
def Runs (totalRead : Nat) (s s' : DechunkState) : Prop := dechunkStep t totalRead s = .ok (.next s')

structure InPlace (headersEnd length : Nat) (s : DechunkState) : Prop where
  above : headersEnd ≤ s.writePos
  order : s.writePos ≤ s.readPos
  length : s.buffer.length = length

theorem runsMoved {totalRead : Nat} {s s' : DechunkState} (real : s.buffer.length ≤ t.isizeMax)
    (held : totalRead ≤ s.buffer.length) (order : s.writePos ≤ s.readPos)
    (runs : Runs t totalRead s s') :
    ∃ start size, Moved totalRead start size s s' := by
  have turn := dechunkTurn real held order
  unfold Runs at runs
  cases next : nextChunk t s.readPos (unread totalRead s) with
  | err e => rw [next] at turn; simp [Turn,runs] at turn
  | panic => rw [next] at turn; simp [Turn,runs] at turn
  | pending => rw [next] at turn; exact turn.elim
  | ok found => match found with
    | none => rw [next] at turn; simp [Turn,runs] at turn
    | some (start,size) =>
      rw [next] at turn
      obtain ⟨s'',turn,moved⟩ := turn
      cases turn.symm.trans runs
      exact ⟨start,size,moved⟩

theorem inPlaceTurn {totalRead headersEnd length : Nat} {s s' : DechunkState}
    (real : length ≤ t.isizeMax) (held : totalRead ≤ length) (inv : InPlace headersEnd length s)
    (runs : Runs t totalRead s s') :
    InPlace headersEnd length s' := by
  obtain ⟨start,size,moved⟩ := runsMoved (inv.length ▸ real) (inv.length ▸ held) inv.order runs
  have above := inv.above
  have order := inv.order
  exact ⟨by rw [moved.writePos]; omega,by rw [moved.writePos, moved.readPos]; omega,
    moved.length.trans inv.length⟩

theorem inPlaceRun {totalRead headersEnd length : Nat} {s s' : DechunkState} (real : length ≤ t.isizeMax)
    (held : totalRead ≤ length) (inv : InPlace headersEnd length s)
    (run : Relation.ReflTransGen (Runs t totalRead) s s') : InPlace headersEnd length s' := by
  induction run with
  | refl => exact inv
  | tail _ runs ih => exact inPlaceTurn real held ih runs

theorem turnTail {totalRead : Nat} {s s' : DechunkState} (order : s.writePos ≤ s.readPos)
    (runs : Runs t totalRead s s') :
    s'.buffer.drop totalRead = s.buffer.drop totalRead := by
  unfold Runs dechunkStep at runs
  split at runs
  · obtain ⟨rest,_,runs⟩ := Outcome.bindOk.mp runs
    split at runs
    · cases runs
    · rename_i pos _
      obtain ⟨line,_,runs⟩ := Outcome.bindOk.mp runs
      obtain ⟨size,_,runs⟩ := Outcome.bindOk.mp runs
      split at runs
      · cases runs
      · obtain ⟨start,first,runs⟩ := Outcome.bindOk.mp runs
        obtain ⟨stop,second,runs⟩ := Outcome.bindOk.mp runs
        have first := Target.addOk first
        have second := Target.addOk second
        split at runs
        · cases runs
        · rename_i inside
          dsimp only at runs
          split at runs
          · obtain ⟨buffer,moved,runs⟩ := Outcome.bindOk.mp runs
            obtain ⟨writePos,_,runs⟩ := Outcome.bindOk.mp runs
            obtain ⟨readPos,_,runs⟩ := Outcome.bindOk.mp runs
            cases runs
            exact copyWithinBehind moved (by omega)
          · rw [Outcome.okBind] at runs
            obtain ⟨writePos,_,runs⟩ := Outcome.bindOk.mp runs
            obtain ⟨readPos,_,runs⟩ := Outcome.bindOk.mp runs
            cases runs
            rfl
  · cases runs

theorem runTail {totalRead headersEnd length : Nat} {s s' : DechunkState}
    (real : length ≤ t.isizeMax) (held : totalRead ≤ length) (inv : InPlace headersEnd length s)
    (run : Relation.ReflTransGen (Runs t totalRead) s s') :
    s'.buffer.drop totalRead = s.buffer.drop totalRead := by
  induction run with
  | refl => rfl
  | tail before turn ih => rw [turnTail (inPlaceRun real held inv before).order turn, ih]

theorem loopRuns {totalRead fuel : Nat} {s s' : DechunkState}
    (done : dechunkLoop t totalRead fuel s = .ok s') :
    Relation.ReflTransGen (Runs t totalRead) s s' := by
  induction fuel generalizing s with
  | zero => contradiction
  | succ fuel ih =>
    rw [dechunkLoop] at done
    obtain ⟨step,turn,done⟩ := Outcome.bindOk.mp done
    cases step with
    | stop => cases done; exact .refl
    | next s₁ => exact .head turn (ih done)

variable (t) in
/- A size line that is reached over whole chunks announces a size whose end is behind
the last address. -/
inductive Overflows : Nat → Bytes → Prop
  | here {pos line size : Nat} {rest : Bytes} : findCrlf rest = some line →
      chunkSize t (rest.take line) = .ok size →
      size ≠ 0 → t.usizeMax < pos + line + crlfLen + size → Overflows pos rest
  | behind {pos line size : Nat} {rest : Bytes} : findCrlf rest = some line →
      chunkSize t (rest.take line) = .ok size →
      size ≠ 0 → pos + line + crlfLen + size ≤ t.usizeMax → line + crlfLen + size ≤ rest.length →
      Overflows (pos + (line + crlfLen + size + crlfLen))
        (rest.drop (line + crlfLen + size + crlfLen)) → Overflows pos rest

theorem overflowsPanic {pos : Nat} {rest : Bytes} (beyond : Overflows t pos rest) :
    decodeChunks t pos rest = .panic := by
  induction beyond with
  | here found announced positive beyond =>
    exact decodePanic (nextExact (.beyond found announced positive beyond))
  | behind found announced positive fits inside _ ih =>
    rw [decodeNext (nextExact (.behind found announced positive fits inside)), ih]
    rfl

theorem panicOverflows {pos : Nat} {rest : Bytes} (panics : decodeChunks t pos rest = .panic) :
    Overflows t pos rest := by
  fun_induction decodeChunks t pos rest with
  | case1 pos rest next => contradiction
  | case2 pos rest start size next _ ih =>
    have view := nextChunkView t pos rest
    rw [next] at view
    cases view with
    | behind found announced positive fits inside =>
      rcases Outcome.bindPanic.mp panics with later | ⟨_,_,same⟩
      · exact .behind found announced positive fits inside (ih later)
      · contradiction
  | case3 pos rest e next => contradiction
  | case4 pos rest next =>
    have view := nextChunkView t pos rest
    rw [next] at view
    cases view with
    | beyond found announced positive beyond => exact .here found announced positive beyond
  | case5 pos rest next => contradiction

variable (t) in
def DechunkEnds (buffer : Bytes) (totalRead : Nat) (head : Bytes) : Outcome Error Bytes → Prop
  | .ok payload => ∃ buffer', dechunk t buffer totalRead = .ok ((Block head payload).length,buffer') ∧
      buffer'.length = buffer.length ∧ buffer'.take (Block head payload).length = Block head payload
  | .err e => dechunk t buffer totalRead = .err e
  | .panic => dechunk t buffer totalRead = .panic
  | .pending => False

theorem dechunkBlock {head body buffer : Bytes} {totalRead : Nat} (closes : Closes head)
    (coded : headChunked head = true) (real : buffer.length ≤ t.isizeMax)
    (held : totalRead ≤ buffer.length) (data : buffer.take totalRead = Block head body) :
    DechunkEnds t buffer totalRead head (decodeChunks t (head.length + doubleCrlfLen) body) := by
  have coded : chunked (Block head body) = true := by rw [chunkedBlock closes, coded]
  have size := blockLength head body
  have total : totalRead = (Block head body).length := by rw [← data, List.length_take]; omega
  have start : unread totalRead ⟨buffer,head.length + doubleCrlfLen,head.length + doubleCrlfLen⟩ =
      body := by
    rw [unread, data, blockDrop]
  have front : buffer.take (head.length + doubleCrlfLen) = head ++ doubleCrlf := by
    have cut := congrArg (List.take (head.length + doubleCrlfLen)) data
    rwa [blockTake, List.take_take, Nat.min_eq_left (by omega)] at cut
  have run : RunEnds t totalRead (totalRead + 1) ⟨buffer,head.length + doubleCrlfLen,
      head.length + doubleCrlfLen⟩ _ :=
    dechunkRun real held (Nat.le_refl _) (by rw [start]; omega)
  rw [start] at run
  have entry : dechunk t buffer totalRead = (do
      let s ← dechunkLoop t totalRead (totalRead + 1) ⟨buffer,head.length + doubleCrlfLen,
        head.length + doubleCrlfLen⟩
      .ok (s.writePos,s.buffer)) := by
    simp only [dechunk, sliceToFits held, Outcome.okBind, data, coded, Bool.not_true,
      Bool.false_eq_true, if_false, blockFound closes, Outcome.ofOptionSome]
  cases walk : decodeChunks t (head.length + doubleCrlfLen) body with
  | err e =>
    rw [walk] at run; simp only [DechunkEnds, entry, show dechunkLoop t _ _ _ = _ from run,
      Outcome.errBind]
  | panic =>
    rw [walk] at run; simp only [DechunkEnds, entry, show dechunkLoop t _ _ _ = _ from run,
      Outcome.panicBind]
  | pending => rw [walk] at run; exact run.elim
  | ok payload =>
    rw [walk] at run
    obtain ⟨s,loop,length,writePos,written⟩ := run
    simp only [front] at written
    have place : s.writePos = (Block head payload).length := by rw [writePos, blockLength]
    refine ⟨s.buffer,?_,length,?_⟩
    · simp only [entry, loop, Outcome.okBind, place]
    · rw [← place, written]
      rfl

theorem dechunkTail {buffer buffer' : Bytes} {totalRead n : Nat} (real : buffer.length ≤ t.isizeMax)
    (held : totalRead ≤ buffer.length) (done : dechunk t buffer totalRead = .ok (n,buffer')) :
    buffer'.drop totalRead = buffer.drop totalRead := by
  unfold dechunk at done
  obtain ⟨data,_,done⟩ := Outcome.bindOk.mp done
  split at done
  · cases done; rfl
  · obtain ⟨pos,_,done⟩ := Outcome.bindOk.mp done
    obtain ⟨s,loop,same⟩ := Outcome.bindOk.mp done
    cases same
    exact runTail real held ⟨Nat.le_refl _,Nat.le_refl _,rfl⟩ (loopRuns loop)

theorem dechunkPlain {buffer : Bytes} {totalRead : Nat} (held : totalRead ≤ buffer.length)
    (plain : chunked (buffer.take totalRead) = false) :
    dechunk t buffer totalRead = .ok (totalRead,buffer) := by
  simp only [dechunk, sliceToFits held, Outcome.okBind, plain, Bool.not_false, if_true]

variable (t) in
def Decodes (buffer : Bytes) (totalRead : Nat) : Prop :=
  (∃ n buffer', dechunk t buffer totalRead = .ok (n,buffer') ∧ n ≤ totalRead ∧
    buffer'.length = buffer.length) ∨ ∃ e, dechunk t buffer totalRead = .err e

theorem decodesBlock {head body buffer : Bytes} {totalRead : Nat} (closes : Closes head)
    (coded : headChunked head = true) (real : buffer.length ≤ t.isizeMax)
    (held : totalRead ≤ buffer.length) (data : buffer.take totalRead = Block head body) :
    Decodes t buffer totalRead ↔ ¬ Overflows t (head.length + doubleCrlfLen) body := by
  have ends := dechunkBlock closes coded real held data
  have total : totalRead = (Block head body).length := by rw [← data, List.length_take]; omega
  cases walk : decodeChunks t (head.length + doubleCrlfLen) body with
  | pending => rw [walk] at ends; exact ends.elim
  | err e =>
    rw [walk] at ends
    refine iff_of_true (.inr ⟨e,ends⟩) fun beyond => ?_
    rw [overflowsPanic beyond] at walk
    contradiction
  | ok payload =>
    rw [walk] at ends
    obtain ⟨buffer',done,length,_⟩ := ends
    have short := decodeLength walk
    refine iff_of_true (.inl ⟨_,buffer',done,?_,length⟩) fun beyond => ?_
    · rw [blockLength] at total ⊢
      omega
    · rw [overflowsPanic beyond] at walk
      contradiction
  | panic =>
    rw [walk] at ends
    have ends : dechunk t buffer totalRead = .panic := ends
    refine iff_of_false ?_ fun calm => calm (panicOverflows walk)
    rintro (⟨n,buffer',ok,_⟩ | ⟨e,failed⟩)
    · rw [ends] at ok; contradiction
    · rw [ends] at failed; contradiction

end Walk

theorem dechunkSafe (t : Target) (buffer : Bytes) (real : buffer.length ≤ t.isizeMax) (totalRead : Nat)
    (held : totalRead ≤ buffer.length) :
    let data := buffer.take totalRead
    (((∃ n buffer', dechunk t buffer totalRead = .ok (n,buffer') ∧ n ≤ totalRead ∧
      buffer'.length = buffer.length) ∨
        ∃ e, dechunk t buffer totalRead = .err e) ∧
      ∀ pos s, findDoubleCrlf data = some pos →
        Relation.ReflTransGen (Runs t totalRead) ⟨buffer,pos + doubleCrlfLen,pos + doubleCrlfLen⟩ s →
        pos + doubleCrlfLen ≤ s.writePos ∧ s.writePos ≤ s.readPos) ↔
    ¬ (chunked data = true ∧ ∃ pos, findDoubleCrlf data = some pos ∧
      Overflows t (pos + doubleCrlfLen) (data.drop (pos + doubleCrlfLen))) := by
  intro data
  have inPlace : ∀ pos s, findDoubleCrlf data = some pos →
      Relation.ReflTransGen (Runs t totalRead) ⟨buffer,pos + doubleCrlfLen,pos + doubleCrlfLen⟩ s →
      pos + doubleCrlfLen ≤ s.writePos ∧ s.writePos ≤ s.readPos := by
    intro pos s _ run
    have inv := inPlaceRun real held ⟨Nat.le_refl _,Nat.le_refl _,rfl⟩ run
    exact ⟨inv.above,inv.order⟩
  rw [and_iff_left inPlace]
  cases coded : chunked data with
  | false => simpa using .inl ⟨totalRead,buffer,dechunkPlain held coded,Nat.le_refl _,rfl⟩
  | true =>
    cases found : findDoubleCrlf data with
    | none => rw [chunkedOpen found] at coded; contradiction
    | some pos =>
      obtain ⟨closes,size,whole⟩ := blockOf found
      have decodes := decodesBlock closes (by rw [← chunkedBlock closes, ← whole, coded]) real held whole
      rw [size] at decodes
      simp only [Option.some.injEq, exists_eq_left', true_and]
      exact decodes

theorem dechunkSafeOneChunk :
    let buffer :=
      asBytes "HTTP/1.1 200 OK\r\nTransfer-Encoding: chunked\r\n\r\n2\r\nhi\r\n0\r\n\r\n".toList
    (∃ n buffer', dechunk .bits32 buffer 59 = .ok (n,buffer') ∧ n ≤ 59 ∧
      buffer'.length = buffer.length) ∨ ∃ e, dechunk .bits32 buffer 59 = .err e := by
  rw [String.toList_ofList]
  intro buffer
  refine ((dechunkSafe .bits32 buffer (by decide +kernel) 59 (by decide +kernel)).mpr ?_).1
  rintro ⟨_,pos,found,beyond⟩
  obtain rfl : pos = 43 := Option.some.inj (found.symm.trans (by decide +kernel))
  have walk := overflowsPanic beyond
  rw [decodeNext (show nextChunk _ _ _ = .ok (some (3,2)) by decide +kernel),
    decodeStop (by decide +kernel)] at walk
  contradiction

/- The announced size and the position behind its line add up to more than an address. -/
theorem dechunkOverflow :
    let buffer :=
      asBytes "HTTP/1.1 200 OK\r\nTransfer-Encoding: chunked\r\n\r\nFFFFFFFFFFFFFFFF\r\nhi".toList
    dechunk .bits64 buffer buffer.length = .panic ∧
    ¬ (dechunk .bits64 buffer buffer.length).Returns := by
  rw [String.toList_ofList]
  decide +kernel

end Nanofish.Dechunk

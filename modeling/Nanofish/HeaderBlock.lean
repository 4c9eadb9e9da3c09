import Nanofish.Codec

/-! The block of bytes before the first empty line. Every framing decision of the
client reads this block only, so it is the same on all data that continue it. -/
namespace Nanofish.HeaderBlock
open Rust Rust.Utf8 Rust.Text Rust.Pattern
open Protocol Codec

def Block (head body : Bytes) : Bytes := head ++ doubleCrlf ++ body

def Closes (head : Bytes) : Prop := findDoubleCrlf (head ++ doubleCrlf) = some head.length
instance (head : Bytes) : Decidable (Closes head) := by unfold Closes; infer_instance

theorem doubleCrlfNe : doubleCrlf ≠ [] := by decide

theorem blockFound {head : Bytes} (closes : Closes head) (body : Bytes) :
    findDoubleCrlf (Block head body) = some head.length := positionAppend doubleCrlfNe closes body

theorem blockLength (head body : Bytes) :
    (Block head body).length = head.length + doubleCrlfLen + body.length := by
  simp [Block,doubleCrlfLen,Nat.add_assoc]

theorem blockTake (head body : Bytes) :
    (Block head body).take (head.length + doubleCrlfLen) = head ++ doubleCrlf := by
  rw [Block, show head.length + doubleCrlfLen =
    (head ++ doubleCrlf).length by simp [doubleCrlfLen], List.take_left]

theorem blockDrop (head body : Bytes) : (Block head body).drop (head.length + doubleCrlfLen) = body := by
  rw [Block, show head.length + doubleCrlfLen =
    (head ++ doubleCrlf).length by simp [doubleCrlfLen], List.drop_left]

theorem blockOf {data : Bytes} {pos : Nat} (found : findDoubleCrlf data = some pos) :
    Closes (data.take pos) ∧ (data.take pos).length = pos ∧
      data = Block (data.take pos) (data.drop (pos + doubleCrlfLen)) := by
  have bound : pos + doubleCrlfLen ≤ data.length := positionBound doubleCrlfNe found
  have size : (data.take pos).length = pos := by rw [List.length_take]; omega
  have whole : data = Block (data.take pos) (data.drop (pos + doubleCrlfLen)) :=
    (positionParts doubleCrlfNe found).symm
  refine ⟨?_,size,whole⟩
  have cut := positionTake doubleCrlfNe found (pos + doubleCrlfLen)
  rw [if_pos (show pos + doubleCrlf.length ≤ pos + doubleCrlfLen from Nat.le_refl _)] at cut
  have block := blockTake (data.take pos) (data.drop (pos + doubleCrlfLen))
  rw [size, ← whole] at block
  rw [Closes, findDoubleCrlf, ← block, cut, size]

theorem blockCut {head : Bytes} (closes : Closes head) (body : Bytes) (n : Nat) :
    findDoubleCrlf ((Block head body).take n) = if head.length + doubleCrlfLen ≤ n then
    some head.length else none :=
  positionTake doubleCrlfNe (blockFound closes body) n

theorem blockTakeLong {head : Bytes} (body : Bytes) {n : Nat} (long : head.length + doubleCrlfLen ≤ n) :
    (Block head body).take n = Block head (body.take (n - (head.length + doubleCrlfLen))) := by
  have size : (head ++ doubleCrlf).length = head.length + doubleCrlfLen := by simp [doubleCrlfLen]
  rw [Block, List.take_append, size, List.take_of_length_le (by omega)]
  rfl

theorem blockPrefix {head body d : Bytes} (closes : Closes head) (start : d <+: Block head body) :
    (d.length < head.length + doubleCrlfLen ∧ findDoubleCrlf d = none) ∨ ∃ part,
    d = Block head part ∧ part <+: body := by
  have cut := blockCut closes body d.length
  rw [← List.prefix_iff_eq_take.mp start] at cut
  by_cases long : head.length + doubleCrlfLen ≤ d.length
  · refine .inr ⟨body.take (d.length - (head.length + doubleCrlfLen)),?_,List.take_prefix _ _⟩
    rw [← blockTakeLong body long]
    exact List.prefix_iff_eq_take.mp start
  · rw [if_neg long] at cut
    exact .inl ⟨by omega,cut⟩

theorem blockReached {head body d : Bytes} (closes : Closes head) (start : d <+: Block head body)
    (long : head.length + doubleCrlfLen ≤ d.length) : ∃ part, d = Block head part ∧ part <+: body :=
  (blockPrefix closes start).resolve_left fun short => absurd long (Nat.not_le.mpr short.1)

theorem blockNe (head body : Bytes) : Block head body ≠ [] := by simp [Block,doubleCrlf]

theorem closesBytes : asBytes "\r\n\r\n".toList = doubleCrlf := by decide

theorem joinEncoded (lines : List Str) :
    asBytes (joinPair '\r' '\n' lines) = joinPair 13 10 (lines.map asBytes) := by
  induction lines with
  | nil => rfl
  | cons line lines ih =>
    cases lines with
    | nil => simp only [joinPairSingle, List.map_cons, List.map_nil]
    | cons next lines =>
      have more : (next :: lines).map asBytes ≠ [] := by simp
      rw [List.map_cons, joinPairCons (asBytes line) more, joinPairCons line (by simp), ← ih,
        asBytesAppend, asBytesAscii (by decide), asBytesAscii (by decide), crlfBytes.1, crlfBytes.2]

theorem textCloses {lines : List Str} (ne : lines ≠ [])
    (plain : ∀ l ∈ lines, l ≠ [] ∧ position ['\r','\n'] l = none) :
    Closes (asBytes (joinPair '\r' '\n' lines)) := by
  have encoded : ∀ l ∈ lines.map asBytes, l ≠ [] ∧ position [13,10] l = none := by
    intro l mem
    obtain ⟨line,inside,rfl⟩ := List.mem_map.mp mem
    obtain ⟨solid,single⟩ := plain line inside
    exact ⟨fun none => solid (asBytesInjective none),(pairAbsent (by decide) (by decide)).mp single⟩
  have empty :=
    positionEmptyLine (a := (13 : UInt8)) (b := 10) (by decide) (by simpa using ne) encoded []
  rw [List.append_nil] at empty
  rw [Closes, findDoubleCrlf, joinEncoded]
  exact empty

theorem fromUtf8Closed (head : Bytes) :
    fromUtf8 (head ++ doubleCrlf) = (fromUtf8 head).map (· ++ "\r\n\r\n".toList) := by
  cases h : fromUtf8 head with
  | some s =>
    have bytes := fromUtf8Iff.mp h
    exact fromUtf8Iff.mpr (by rw [asBytesAppend, bytes, closesBytes])
  | none =>
    cases whole : fromUtf8 (head ++ doubleCrlf) with
    | none => rfl
    | some s =>
      obtain ⟨u,v,_,front,_⟩ :=
        asciiSplitAt (c := '\r') (y := [10,13,10]) (by decide) (fromUtf8Iff.mp whole)
      rw [fromUtf8Iff.mpr front] at h
      contradiction

/- `read_request` looks up the block without its closing line, the client with it. -/
theorem contentLengthClosed (t : Target) (head : Bytes) :
    contentLength t (head ++ doubleCrlf) = contentLength t head := by
  simp only [contentLength, fromUtf8Closed]
  cases fromUtf8 head with
  | none => rfl
  | some s => simp only [Option.map_some, bind, Option.bind_some, findHeaderValueClosed]

def headChunked (head : Bytes) : Bool := match fromUtf8 head with
  | none => false
  | some headersStr => match findHeaderValue headersStr transferEncoding with
    | none => false
    | some value =>
      (value.splitOn ',').any fun encoding => eqIgnoreAsciiCase (trim encoding) chunkedCoding

theorem chunkedBlock {head : Bytes} (closes : Closes head) (body : Bytes) :
    chunked (Block head body) = headChunked head := by
  simp only [chunked, blockFound closes, blockTake, fromUtf8Closed, headChunked]
  cases text : fromUtf8 head with
  | none => rfl
  | some s =>
    cases found : findHeaderValue s transferEncoding <;>
      simp only [Option.map_some, findHeaderValueClosed, found]

theorem chunkedOpen {data : Bytes} (none : findDoubleCrlf data = none) : chunked data = false := by
  simp only [chunked, none]

section Width
variable (t : Target)

def blockComplete (head : Bytes) (data : Bytes) (received : Nat) : Bool :=
  if headChunked head then contains chunkedEndMarker data
  else match contentLength t head with
    | none => false
    | some n => decide (n ≤ received)

theorem completeBlock {head : Bytes} (closes : Closes head) (body : Bytes) :
    complete t (Block head body) = blockComplete t head (Block head body) body.length := by
  have behind : (Block head body).length - (head.length + doubleCrlfLen) = body.length := by
    rw [blockLength]; omega
  cases declared : contentLength t head <;>
    simp only [complete, blockFound closes, chunkedBlock closes, blockTake, contentLengthClosed,
      blockComplete, behind, declared]

theorem completeOpen {data : Bytes} (none : findDoubleCrlf data = none) : complete t data = false := by
  simp only [complete, none]

theorem declaresBlock {head : Bytes} (closes : Closes head) (body : Bytes) :
    declaresLength t (Block head body) = (headChunked head || (contentLength t head).isSome) := by
  simp only [declaresLength, blockFound closes, chunkedBlock closes, blockTake, contentLengthClosed]

theorem declaresOpen {data : Bytes} (none : findDoubleCrlf data = none) :
    declaresLength t data = false := by
  simp only [declaresLength, none]

end Width

/- Bytes that arrive later change no decision that was taken: they only lengthen the
body behind the block, and no empty line of theirs comes before its own. -/
theorem blockGrows (head body more : Bytes) : Block head body ++ more = Block head (body ++ more) :=
  List.append_assoc _ _ _

theorem completeGrows (t : Target) {head : Bytes} (closes : Closes head) (body : Bytes) {more : Bytes}
    (done : complete t (Block head body) = true) : complete t (Block head (body ++ more)) = true := by
  rw [completeBlock t closes, blockComplete] at done ⊢
  split
  · rename_i coded
    rw [if_pos coded] at done
    rw [← blockGrows]
    exact containsAppend (by decide) done more
  · rename_i plain
    rw [if_neg plain] at done
    cases declared : contentLength t head with
    | none => simp [declared] at done
    | some n =>
      simp only [declared, decide_eq_true_eq, List.length_append] at done ⊢
      omega

theorem framingStable (t : Target) (d e : Bytes) :
    (∀ i, findDoubleCrlf d = some i → findDoubleCrlf (d ++ e) = some i ∧ chunked (d ++ e) = chunked d ∧
      declaresLength t (d ++ e) = declaresLength t d) ∧
    (complete t d = true → complete t (d ++ e) = true) ∧
    ∀ i, findDoubleCrlf (d ++ e) = some i → i + doubleCrlfLen ≤ d.length →
    findDoubleCrlf d = some i := by
  refine ⟨fun i found => ?_,fun done => ?_,fun i found inside => ?_⟩
  · obtain ⟨closes,_,whole⟩ := blockOf found
    refine ⟨positionAppend doubleCrlfNe found e,?_,?_⟩
    · rw [whole, blockGrows, chunkedBlock closes, chunkedBlock closes]
    · rw [whole, blockGrows, declaresBlock t closes, declaresBlock t closes]
  · cases found : findDoubleCrlf d with
    | none => simp [completeOpen t found] at done
    | some i =>
      obtain ⟨closes,_,whole⟩ := blockOf found
      rw [whole] at done ⊢
      rw [blockGrows]
      exact completeGrows t closes _ done
  · have cut := positionTake doubleCrlfNe found d.length
    rw [List.take_left] at cut
    exact cut.trans (if_pos inside)

theorem framingStableReply :
    let reply := asBytes "HTTP/1.1 200 OK\r\nContent-Length: 2\r\n\r\nhi".toList
    let next := asBytes "HTTP/1.1 204 No Content\r\n\r\n".toList
    complete .bits32 (reply ++ next) = true ∧ findDoubleCrlf (reply ++ next) = some 34 := by
  rw [String.toList_ofList, String.toList_ofList]
  exact ⟨(framingStable .bits32 _ _).2.1 (by decide +kernel),
    ((framingStable .bits32 _ _).1 34 (by decide +kernel)).1⟩

end Nanofish.HeaderBlock

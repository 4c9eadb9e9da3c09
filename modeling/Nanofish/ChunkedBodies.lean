import Nanofish.ChunkedMessage
import Nanofish.Dechunk

/-! Chunked bodies as the coding defines them, against the in-place decoder: what an
encoder writes is decoded to its chunks, and what the decoder takes for a body is one,
but for the deviations it passes over. -/
namespace Nanofish.ChunkedBodies
open Rust Rust.Utf8 Rust.Text Rust.Pattern
open Protocol Codec HeaderBlock Dechunk ChunkedMessage

theorem crlfFound {line : Bytes} (single : findCrlf line = none) (rest : Bytes) :
    findCrlf (line ++ crlf ++ rest) = some line.length := by
  have behind := positionBehind (a := (13 : UInt8)) (b := 10) (by decide) single rest
  rw [List.append_assoc]
  exact behind

structure SizeText where
  digits : Str
  ext : Option Str
  nonempty : digits ≠ []
  hex : ∀ c ∈ digits, (digitValue 16 c).isSome = true
  plain : ∀ e ∈ ext, position ['\r','\n'] e = none

def SizeText.text (l : SizeText) : Str := match l.ext with
  | none => l.digits
  | some e => l.digits ++ ';' :: e

def SizeText.bytes (l : SizeText) : Bytes := asBytes l.text

def SizeText.size (l : SizeText) : Nat := digitsValue 16 0 l.digits

structure Piece where
  line : SizeText
  data : Bytes
  nonempty : data ≠ []
  size : line.size = data.length

def Piece.bytes (c : Piece) : Bytes := c.line.bytes ++ crlf ++ c.data ++ crlf

def dataLength : List Piece → Nat
  | [] => 0
  | c :: cs => c.data.length + dataLength cs

theorem dataLengthFlat (pieces : List Piece) :
    (pieces.flatMap Piece.data).length = dataLength pieces := by
  induction pieces with
  | nil => rfl
  | cons c cs ih => rw [List.flatMap_cons, List.length_append, ih, dataLength]

section Encoded
variable (t : Target)

theorem sizeTextSingle (l : SizeText) : findCrlf l.bytes = none := by
  have carriage : '\r' ∉ l.digits := fun mem => absurd (hexSolid (l.hex '\r' mem)).1 (by decide)
  have single : position ['\r','\n'] l.text = none := by
    unfold SizeText.text
    split
    · exact positionAbsent carriage
    · rename_i e same
      exact (positionApart (by decide) (by decide) l.digits e).mpr
        ⟨positionAbsent carriage,l.plain e same⟩
  exact (pairAbsent (by decide) (by decide)).mp single

theorem chunkSizePiece (l : SizeText) (fits : l.size ≤ t.usizeMax) :
    chunkSize t l.bytes = .ok l.size := by
  have part : trim (((trim l.text).splitOn ';').headD "0".toList) = l.digits := by
    unfold SizeText.text
    split
    · exact sizePartBare l.hex
    · rename_i e same
      have extended :=
        sizePartExtended l.hex l.nonempty (show ∀ c ∈ ([] : Str), isWhitespace c = true by simp) e
      rwa [List.append_nil] at extended
  have read := chunkSizeText l.hex l.nonempty t part
  rwa [if_pos (show digitsValue 16 0 l.digits ≤ t.usizeMax from fits)] at read

theorem lineFirst (l : SizeText) (fits : l.size ≤ t.usizeMax) (rest : Bytes) :
    findCrlf (l.bytes ++ crlf ++ rest) = some l.bytes.length ∧
    (l.bytes ++ crlf ++ rest).take l.bytes.length = l.bytes ∧
      chunkSize t ((l.bytes ++ crlf ++ rest).take l.bytes.length) = .ok l.size := by
  have line : (l.bytes ++ crlf ++ rest).take l.bytes.length = l.bytes := by
    rw [List.append_assoc, List.take_left]
  refine ⟨crlfFound (sizeTextSingle l) rest,line,?_⟩
  rw [line, chunkSizePiece t l fits]

theorem pieceLine (c : Piece) (rest : Bytes) :
    c.bytes ++ rest = c.line.bytes ++ crlf ++ (c.data ++ crlf ++ rest) := by
  simp only [Piece.bytes, List.append_assoc]

theorem pieceLength (c : Piece) :
    c.bytes.length = c.line.bytes.length + crlfLen + c.data.length + crlfLen := by
  simp only [Piece.bytes, List.length_append, crlfLen]

theorem pieceBehind (c : Piece) (rest : Bytes) :
    (c.bytes ++ rest).drop (c.line.bytes.length + crlfLen) = c.data ++ crlf ++ rest := by
  have front : (c.line.bytes ++ crlf).length = c.line.bytes.length + crlfLen := by
    rw [List.length_append]; rfl
  rw [pieceLine, ← front, List.drop_left]

theorem pieceFilled (c : Piece) : c.data.length ≠ 0 :=
  fun blank => c.nonempty (List.length_eq_zero_iff.mp blank)

theorem pieceFirst (c : Piece) (rest : Bytes) (fits : c.data.length ≤ t.usizeMax) :
    findCrlf (c.bytes ++ rest) = some c.line.bytes.length ∧
    (c.bytes ++ rest).take c.line.bytes.length = c.line.bytes ∧
      chunkSize t ((c.bytes ++ rest).take c.line.bytes.length) = .ok c.data.length := by
  rw [← c.size] at fits ⊢
  rw [pieceLine]
  exact lineFirst t c.line fits _

theorem nextPiece (c : Piece) (rest : Bytes) {pos : Nat}
    (fits : pos + (c.bytes ++ rest).length ≤ t.usizeMax) :
    nextChunk t pos (c.bytes ++ rest) = .ok (some (c.line.bytes.length + crlfLen,c.data.length)) := by
  have size := pieceLength c
  rw [List.length_append] at fits
  obtain ⟨found,_,announced⟩ := pieceFirst t c rest (by omega)
  exact nextExact (.behind found announced (pieceFilled c) (by omega)
    (by rw [List.length_append]; omega))

theorem nextLast (last : SizeText) (zero : last.size = 0) (rest : Bytes) (pos : Nat) :
    nextChunk t pos (last.bytes ++ crlf ++ rest) = .ok none := by
  obtain ⟨found,_,announced⟩ := lineFirst t last (by omega) rest
  exact nextExact (.zero found (zero ▸ announced))

theorem decodePieces (last : SizeText) (zero : last.size = 0) (rest : Bytes) (pieces : List Piece)
    {pos : Nat}
    (fits : pos + (pieces.flatMap Piece.bytes ++ (last.bytes ++ crlf ++ rest)).length ≤ t.usizeMax) :
    decodeChunks t pos (pieces.flatMap Piece.bytes ++ (last.bytes ++ crlf ++ rest)) =
      .ok (pieces.flatMap Piece.data) := by
  induction pieces generalizing pos with
  | nil =>
    rw [List.flatMap_nil, List.nil_append]
    exact decodeStop (nextLast t last zero rest pos)
  | cons c cs ih =>
    have size := pieceLength c
    rw [List.flatMap_cons, List.append_assoc] at fits ⊢
    have next := nextPiece t c _ fits
    have total : c.line.bytes.length + crlfLen + c.data.length + crlfLen = c.bytes.length := size.symm
    have data : ((c.bytes ++ (cs.flatMap Piece.bytes ++ (last.bytes ++ crlf ++ rest))).drop
        (c.line.bytes.length + crlfLen)).take c.data.length = c.data := by
      rw [pieceBehind, List.append_assoc, List.take_left]
    rw [decodeNext next, total, List.drop_left, ih (by rw [List.length_append] at fits; omega),
      Outcome.okBind, data, List.flatMap_cons]

end Encoded

theorem dechunkEncoded (t : Target) (head : Bytes) (closes : Closes head)
    (coded : headChunked head = true) (pieces : List Piece) (last : SizeText) (zero : last.size = 0)
    (rest : Bytes) (buffer : Bytes) (real : buffer.length ≤ t.isizeMax) (totalRead : Nat)
    (held : totalRead ≤ buffer.length)
    (message : buffer.take totalRead =
      Block head (pieces.flatMap Piece.bytes ++ (last.bytes ++ crlf ++ rest))) :
    ∃ buffer', dechunk t buffer totalRead =
      .ok ((head ++ doubleCrlf).length + dataLength pieces,buffer') ∧
      buffer'.take ((head ++ doubleCrlf).length + dataLength pieces) =
        head ++ doubleCrlf ++ pieces.flatMap Piece.data ∧
      buffer'.drop totalRead = buffer.drop totalRead := by
  have wide := t.isizeBelowUsize
  have total :
      totalRead = (Block head (pieces.flatMap Piece.bytes ++
        (last.bytes ++ crlf ++ rest))).length := by
    rw [← message, List.length_take]; omega
  have ends := dechunkBlock closes coded real held message
  rw [blockLength] at total
  rw [decodePieces t last zero rest pieces (by omega)] at ends
  obtain ⟨buffer',done,_,front⟩ := ends
  have size : (Block head (pieces.flatMap Piece.data)).length = (head ++ doubleCrlf).length +
      dataLength pieces := by
    rw [Block, List.length_append, dataLengthFlat]
  rw [size] at done front
  exact ⟨buffer',done,front,dechunkTail real held done⟩

theorem dechunkEncodedTwo :
    let head := asBytes "HTTP/1.1 200 OK\r\nTransfer-Encoding: chunked".toList
    let buffer :=
      head ++ doubleCrlf ++ asBytes "02\r\nhi\r\n1;q=a\r\n!\r\n0\r\nX: y\r\n\r\n".toList ++ [7,7]
    ∃ buffer', dechunk .bits32 buffer 76 = .ok (50,buffer') ∧
      buffer'.take 50 = head ++ doubleCrlf ++ asBytes "hi!".toList ∧ buffer'.drop 76 = [7,7] := by
  repeat rw [String.toList_ofList]
  intro head buffer
  let first : SizeText := ⟨"02".toList,none,by decide,by decide,by decide⟩
  let second : SizeText := ⟨"1".toList,some "q=a".toList,by decide,by decide,by decide⟩
  let last : SizeText := ⟨"0".toList,none,by decide,by decide,by decide⟩
  exact dechunkEncoded .bits32 head (by decide +kernel) (by decide +kernel)
    [⟨first,asBytes "hi".toList,by decide,by decide⟩,
      ⟨second,asBytes "!".toList,by decide,by decide⟩] last (by decide)
    (asBytes "X: y\r\n\r\n".toList) buffer (by decide +kernel) 76 (by decide +kernel) (by decide +kernel)

section Accepted
variable (t : Target)

/- What the decoder takes for the size of a line: blanks are cut off around it and a
plus sign may stand before the digits. -/
def SizeRead (line : Bytes) (n : Nat) : Prop :=
  n ≤ t.usizeMax ∧ ∃ s digits, fromUtf8 line = some s ∧ Numeral 16 digits n ∧
    (trim (((trim s).splitOn ';').headD "0".toList) = digits ∨
      trim (((trim s).splitOn ';').headD "0".toList) = '+' :: digits)

def PlainSize (line : Bytes) (n : Nat) : Prop := ∃ l : SizeText, l.bytes = line ∧ l.size = n

/- Chunks up to a size line of zero; `sum` is the length of their data. -/
inductive WellDelimited : Bytes → Nat → Prop
  | last (l : SizeText) (zero : l.size = 0) (rest : Bytes) : WellDelimited (l.bytes ++ crlf ++ rest) 0
  | chunk (c : Piece) {rest : Bytes} {sum : Nat} : WellDelimited rest sum →
      WellDelimited (c.bytes ++ rest) (c.data.length + sum)

inductive Reaches : Nat → Bytes → Nat → Bytes → Prop
  | here {pos : Nat} {rest : Bytes} : Reaches pos rest pos rest
  | behind {pos line size pos' : Nat} {rest rest' : Bytes} : findCrlf rest = some line →
      SizeRead t (rest.take line) size →
      size ≠ 0 → pos + line + crlfLen + size ≤ t.usizeMax → line + crlfLen + size ≤ rest.length →
      Reaches (pos + (line + crlfLen + size + crlfLen))
        (rest.drop (line + crlfLen + size + crlfLen)) pos' rest' →
      Reaches pos rest pos' rest'

/- What an encoder never writes and the decoder does not refuse. -/
inductive Loose (pos : Nat) (rest : Bytes) : Prop
  | unlined : findCrlf rest = none → Loose pos rest
  | irregular {line size : Nat} : findCrlf rest = some line → SizeRead t (rest.take line) size →
      ¬ PlainSize (rest.take line) size → Loose pos rest
  | beyond {line size : Nat} : findCrlf rest = some line → SizeRead t (rest.take line) size → size ≠ 0 →
      t.usizeMax < pos + line + crlfLen + size → Loose pos rest
  | unclosed {line size : Nat} : findCrlf rest = some line → SizeRead t (rest.take line) size →
      size ≠ 0 → (rest.drop (line + crlfLen + size)).take crlfLen ≠ crlf → Loose pos rest

inductive Unreadable (pos : Nat) (rest : Bytes) : Prop
  | size {line : Nat} : findCrlf rest = some line → (¬ ∃ size, SizeRead t (rest.take line) size) →
      Unreadable pos rest
  | short {line size : Nat} : findCrlf rest = some line → SizeRead t (rest.take line) size → size ≠ 0 →
      pos + line + crlfLen + size ≤ t.usizeMax → rest.length < line + crlfLen + size →
      Unreadable pos rest

def Refused (pos : Nat) (rest : Bytes) : Prop :=
  ∃ pos' rest', Reaches t pos rest pos' rest' ∧ Unreadable t pos' rest'

def Slips (pos : Nat) (rest : Bytes) : Prop :=
  ¬ Refused t pos rest ∧ ∃ pos' rest', Reaches t pos rest pos' rest' ∧ Loose t pos' rest'

variable {t}

theorem sizeRead {line : Bytes} {n : Nat} : chunkSize t line = .ok n ↔ SizeRead t line n := by
  unfold chunkSize SizeRead
  cases text : fromUtf8 line with
  | none => exact iff_of_false nofun fun both => by obtain ⟨_,s,_,read,_⟩ := both; contradiction
  | some s =>
    rw [Outcome.ofOptionSome, Outcome.okBind, Outcome.ofOptionOk, fromStrRadixIff (by decide)]
    simp only [Option.some.injEq, exists_and_left, exists_eq_left']

theorem sizeFor {line : Bytes} {n m : Nat} (one : SizeRead t line n) (other : SizeRead t line m) :
    n = m :=
  Outcome.ok.inj ((sizeRead.mpr one).symm.trans (sizeRead.mpr other))

theorem reachedErr {pos pos' : Nat} {rest rest' : Bytes} (reaches : Reaches t pos rest pos' rest')
    {e : Error} (failed : decodeChunks t pos' rest' = .err e) :
    decodeChunks t pos rest = .err e := by
  induction reaches with
  | here => exact failed
  | behind found read positive fits inside _ ih =>
    rw [decodeNext (nextExact (.behind found (sizeRead.mpr read) positive fits inside)), ih failed]
    rfl

theorem refusedErr {pos : Nat} {rest : Bytes} (refused : Refused t pos rest) :
    ∃ e, decodeChunks t pos rest = .err e := by
  obtain ⟨pos',rest',reaches,unreadable⟩ := refused
  have failed : ∃ e, decodeChunks t pos' rest' = .err e := by
    cases unreadable with
    | @size line found unread =>
      have returns := chunkSizeReturns t (rest'.take line)
      cases announced : chunkSize t (rest'.take line) with
      | ok n => exact absurd ⟨n,sizeRead.mp announced⟩ unread
      | err e => exact ⟨e,decodeErr (nextExact (.refused found announced))⟩
      | panic => rw [announced] at returns; contradiction
      | pending => rw [announced] at returns; contradiction
    | short found read positive fits short =>
      exact ⟨_,decodeErr (nextExact (.short found (sizeRead.mpr read) positive fits short))⟩
  obtain ⟨e,failed⟩ := failed
  exact ⟨e,reachedErr reaches failed⟩

theorem errRefused {pos : Nat} {rest : Bytes} {e : Error}
    (failed : decodeChunks t pos rest = .err e) : Refused t pos rest := by
  fun_induction decodeChunks t pos rest with
  | case1 pos rest next => contradiction
  | case2 pos rest start size next _ ih =>
    have view := nextChunkView t pos rest
    rw [next] at view
    cases view with
    | behind found announced positive fits inside =>
      rcases Outcome.bindErr.mp failed with later | ⟨_,_,same⟩
      · obtain ⟨pos',rest',reaches,unreadable⟩ := ih later
        exact ⟨pos',rest',.behind found (sizeRead.mp announced) positive fits inside reaches,unreadable⟩
      · contradiction
  | case3 pos rest e' next =>
    have view := nextChunkView t pos rest
    rw [next] at view
    cases view with
    | refused found announced =>
      refine ⟨pos,rest,.here,.size found fun read => ?_⟩
      obtain ⟨size,read⟩ := read
      have ok := announced.symm.trans (sizeRead.mpr read)
      contradiction
    | short found announced positive fits short =>
      exact ⟨pos,rest,.here,.short found (sizeRead.mp announced) positive fits short⟩
  | case4 pos rest next => contradiction
  | case5 pos rest next => contradiction

theorem overflowsLoose {pos : Nat} {rest : Bytes} (overflows : Overflows t pos rest) :
    ∃ pos' rest', Reaches t pos rest pos' rest' ∧ Loose t pos' rest' := by
  induction overflows with
  | here found announced positive beyond =>
    exact ⟨_,_,.here,.beyond found (sizeRead.mp announced) positive beyond⟩
  | behind found announced positive fits inside _ ih =>
    obtain ⟨pos',rest',reaches,loose⟩ := ih
    exact ⟨pos',rest',.behind found (sizeRead.mp announced) positive fits inside reaches,loose⟩

theorem looseBehind {pos line size : Nat} {rest : Bytes} (found : findCrlf rest = some line)
    (read : SizeRead t (rest.take line) size) (plain : PlainSize (rest.take line) size)
    (loose : Loose t pos rest) :
    size ≠ 0 ∧ (t.usizeMax < pos + line + crlfLen + size ∨
      (rest.drop (line + crlfLen + size)).take crlfLen ≠ crlf) := by
  cases loose with
  | unlined none => rw [none] at found; contradiction
  | irregular found' read' irregular =>
    cases found.symm.trans found'
    exact absurd (sizeFor read read' ▸ plain) irregular
  | beyond found' read' positive beyond =>
    cases found.symm.trans found'
    cases sizeFor read read'
    exact ⟨positive,.inl beyond⟩
  | unclosed found' read' positive unclosed =>
    cases found.symm.trans found'
    cases sizeFor read read'
    exact ⟨positive,.inr unclosed⟩

theorem delimitedTight {pos sum : Nat} {rest : Bytes} (delimited : WellDelimited rest sum)
    (fits : pos + rest.length ≤ t.usizeMax) {pos' : Nat} {rest' : Bytes}
    (reaches : Reaches t pos rest pos' rest') :
    ¬ Loose t pos' rest' := by
  induction delimited generalizing pos with
  | last l zero rest =>
    obtain ⟨found,line,announced⟩ := lineFirst t l (by omega) rest
    have read := sizeRead.mp announced
    cases reaches with
    | here => exact fun loose => (looseBehind found read ⟨l,line.symm,rfl⟩ loose).1 zero
    | behind found' read' positive =>
      cases found.symm.trans found'
      exact absurd ((sizeFor read read').symm.trans zero) positive
  | @chunk c rest sum delimited ih =>
    have size := pieceLength c
    rw [List.length_append] at fits
    obtain ⟨found,line,announced⟩ := pieceFirst t c rest (by omega)
    have read := sizeRead.mp announced
    cases reaches with
    | here =>
      intro loose
      rcases (looseBehind found read ⟨c.line,line.symm,c.size⟩ loose).2 with beyond | unclosed
      · omega
      · refine unclosed ?_
        rw [← List.drop_drop, pieceBehind, List.append_assoc, List.drop_left, crlfLen, List.take_left]
    | behind found' read' positive _ _ later =>
      cases found.symm.trans found'
      cases sizeFor read read'
      have total : c.line.bytes.length + crlfLen + c.data.length + crlfLen = c.bytes.length := size.symm
      rw [total, List.drop_left] at later
      exact ih (by omega) later

theorem chunkParts {rest : Bytes} {line size : Nat} (found : findCrlf rest = some line)
    (closed : (rest.drop (line + crlfLen + size)).take crlfLen = crlf) :
    rest.take line ++ crlf ++ ((rest.drop (line + crlfLen)).take size ++ crlf ++
      rest.drop (line + crlfLen + size + crlfLen)) = rest := by
  have close : crlf ++ rest.drop (line + crlfLen + size + crlfLen) =
      rest.drop (line + crlfLen + size) := by
    rw [← List.drop_drop (i := crlfLen)]
    conv => lhs; rw [← closed]
    exact List.take_append_drop crlfLen _
  rw [List.append_assoc ((rest.drop _).take size), close, ← List.drop_drop (i := size),
    List.take_append_drop]
  exact positionParts (by decide) found

theorem chunkDelimited {rest : Bytes} {line size sum : Nat} (found : findCrlf rest = some line)
    (plain : PlainSize (rest.take line) size) (positive : size ≠ 0)
    (inside : line + crlfLen + size ≤ rest.length)
    (closed : (rest.drop (line + crlfLen + size)).take crlfLen = crlf)
    (later : WellDelimited (rest.drop (line + crlfLen + size + crlfLen)) sum) :
    WellDelimited rest (size + sum) := by
  obtain ⟨l,same,sized⟩ := plain
  have length : ((rest.drop (line + crlfLen)).take size).length = size := by
    rw [List.length_take, List.length_drop]; omega
  have filled : (rest.drop (line + crlfLen)).take size ≠ [] := by
    rw [← List.length_pos_iff, length]; omega
  let c : Piece := ⟨l,(rest.drop (line + crlfLen)).take size,filled,by rw [length, sized]⟩
  have shape : c.bytes ++ rest.drop (line + crlfLen + size + crlfLen) = rest := by
    rw [pieceLine, show c.line.bytes = rest.take line from same]
    exact chunkParts found closed
  have chunk := WellDelimited.chunk c later
  rwa [shape, show c.data.length = size from length] at chunk

theorem tightDelimited {pos : Nat} {rest payload : Bytes}
    (ok : decodeChunks t pos rest = .ok payload)
    (tight : ∀ pos' rest', Reaches t pos rest pos' rest' → ¬ Loose t pos' rest') :
    WellDelimited rest payload.length := by
  fun_induction decodeChunks t pos rest generalizing payload with
  | case1 pos rest next =>
    cases ok
    have here := tight pos rest .here
    have view := nextChunkView t pos rest
    rw [next] at view
    cases view with
    | quiet none => exact absurd (.unlined none) here
    | @zero line found announced =>
      by_cases plain : PlainSize (rest.take line) 0
      · obtain ⟨l,same,zero⟩ := plain
        have whole := positionParts (by decide) found
        rw [← same] at whole
        exact whole ▸ .last l zero _
      · exact absurd (.irregular found (sizeRead.mp announced) plain) here
  | case2 pos rest start size next _ ih =>
    have here := tight pos rest .here
    have view := nextChunkView t pos rest
    rw [next] at view
    cases view with
    | @behind line size found announced positive fits inside =>
      obtain ⟨more,tail,same⟩ := Outcome.bindOk.mp ok
      cases same
      have later : WellDelimited (rest.drop (line + crlfLen + size + crlfLen)) more.length := by
        refine ih tail fun pos' rest' reaches => ?_
        exact tight pos' rest' (.behind found (sizeRead.mp announced) positive fits inside reaches)
      by_cases plain : PlainSize (rest.take line) size
      · by_cases closed : (rest.drop (line + crlfLen + size)).take crlfLen = crlf
        · have length : ((rest.drop (line + crlfLen)).take size).length = size := by
            rw [List.length_take, List.length_drop]; omega
          rw [List.length_append, length]
          exact chunkDelimited found plain positive inside closed later
        · exact absurd (.unclosed found (sizeRead.mp announced) positive closed) here
      · exact absurd (.irregular found (sizeRead.mp announced) plain) here
  | case3 pos rest e next => contradiction
  | case4 pos rest next => contradiction
  | case5 pos rest next => contradiction

theorem delimitedCalm {pos sum : Nat} {rest : Bytes} (delimited : WellDelimited rest sum)
    (fits : pos + rest.length ≤ t.usizeMax) : ¬ Slips t pos rest := by
  rintro ⟨_,pos',rest',reaches,loose⟩
  exact delimitedTight delimited fits reaches loose

theorem errCalm {pos : Nat} {rest : Bytes} {e : Error} (walk : decodeChunks t pos rest = .err e) :
    ¬ Slips t pos rest :=
  fun slips => slips.1 (errRefused walk)

theorem neverRefused {pos : Nat} {rest : Bytes} (walk : ∀ e, decodeChunks t pos rest ≠ .err e) :
    ¬ Refused t pos rest := by
  intro refused
  obtain ⟨e,failed⟩ := refusedErr refused
  exact walk e failed

theorem panicSlips {pos : Nat} {rest : Bytes} (walk : decodeChunks t pos rest = .panic) :
    Slips t pos rest :=
  ⟨neverRefused fun e => by rw [walk]; simp,overflowsLoose (panicOverflows walk)⟩

theorem okCalm {pos : Nat} {rest payload : Bytes} (walk : decodeChunks t pos rest = .ok payload)
    (fits : pos + rest.length ≤ t.usizeMax) :
    WellDelimited rest payload.length ↔ ¬ Slips t pos rest := by
  refine ⟨fun delimited => delimitedCalm delimited fits,fun calm => ?_⟩
  refine tightDelimited walk fun pos' rest' reaches loose =>
    calm ⟨neverRefused fun e => ?_,pos',rest',reaches,loose⟩
  rw [walk]
  simp

end Accepted

def Strict (t : Target) (buffer : Bytes) (totalRead headersEnd : Nat) : Prop :=
  (∀ n buffer', dechunk t buffer totalRead = .ok (n,buffer') →
    headersEnd ≤ n ∧ WellDelimited ((buffer.take totalRead).drop headersEnd) (n - headersEnd)) ∧
  ((¬ ∃ sum, WellDelimited ((buffer.take totalRead).drop headersEnd) sum) →
    ∃ e, dechunk t buffer totalRead = .err e)

theorem dechunkStrict (t : Target) (buffer : Bytes) (real : buffer.length ≤ t.isizeMax) (totalRead : Nat)
    (held : totalRead ≤ buffer.length) (coded : chunked (buffer.take totalRead) = true) :
    ∃ pos, findDoubleCrlf (buffer.take totalRead) = some pos ∧
      (Strict t buffer totalRead (pos + doubleCrlfLen) ↔
        ¬ Slips t (pos + doubleCrlfLen) ((buffer.take totalRead).drop (pos + doubleCrlfLen))) := by
  cases found : findDoubleCrlf (buffer.take totalRead) with
  | none => rw [chunkedOpen found] at coded; contradiction
  | some pos =>
    refine ⟨pos,rfl,?_⟩
    let headersEnd := pos + doubleCrlfLen
    let body := (buffer.take totalRead).drop headersEnd
    change Strict t buffer totalRead headersEnd ↔ ¬ Slips t headersEnd body
    have wide := t.isizeBelowUsize
    obtain ⟨closes,size,whole⟩ := blockOf found
    have ends := dechunkBlock closes (by rw [← chunkedBlock closes, ← whole, coded]) real held whole
    rw [size] at ends
    have inside : headersEnd ≤ totalRead := by
      have bound : pos + doubleCrlf.length ≤ (buffer.take totalRead).length :=
        positionBound doubleCrlfNe found
      rw [List.length_take, ← doubleCrlfLen] at bound
      omega
    have fits : headersEnd + body.length ≤ t.usizeMax := by
      simp only [body, List.length_drop, List.length_take]
      omega
    cases walk : decodeChunks t headersEnd body with
    | pending => rw [walk] at ends; exact ends.elim
    | err e =>
      rw [walk] at ends
      have ends : dechunk t buffer totalRead = .err e := ends
      refine iff_of_true ⟨fun n buffer' ok => ?_,fun _ => ⟨e,ends⟩⟩ (errCalm walk)
      rw [ends] at ok
      contradiction
    | panic =>
      rw [walk] at ends
      have ends : dechunk t buffer totalRead = .panic := ends
      have slips := panicSlips walk
      refine iff_of_false (fun strict => ?_) fun calm => calm slips
      obtain ⟨e,failed⟩ := strict.2 fun delimited => delimitedCalm delimited.choose_spec fits slips
      rw [ends] at failed
      contradiction
    | ok payload =>
      rw [walk] at ends
      obtain ⟨buffer',done,_,_⟩ := ends
      rw [blockLength, size] at done
      rw [← okCalm walk fits]
      constructor
      · intro strict
        have delimited := (strict.1 _ _ done).2
        rwa [Nat.add_sub_cancel_left] at delimited
      · intro delimited
        refine ⟨fun n b ok => ?_,fun malformed => absurd ⟨_,delimited⟩ malformed⟩
        cases done.symm.trans ok
        exact ⟨Nat.le_add_right _ _,by rwa [Nat.add_sub_cancel_left]⟩

theorem dechunkStrictOneChunk :
    Strict .bits32
      (asBytes "HTTP/1.1 200 OK\r\nTransfer-Encoding: chunked\r\n\r\n2\r\nhi\r\n0\r\n\r\n".toList)
      59 47 := by
  rw [String.toList_ofList]
  show let buffer := asBytes _; Strict .bits32 buffer 59 47
  intro buffer
  obtain ⟨pos,found,strict⟩ :=
    dechunkStrict .bits32 buffer (by decide +kernel) 59 (by decide +kernel) (by decide +kernel)
  obtain rfl : pos = 43 := Option.some.inj (found.symm.trans (by decide +kernel))
  refine strict.mpr fun slips => ?_
  obtain ⟨_,_,_,reaches,loose⟩ := slips
  let line : SizeText := ⟨"2".toList,none,by decide,by decide,by decide⟩
  let last : SizeText := ⟨"0".toList,none,by decide,by decide,by decide⟩
  have delimited :=
    WellDelimited.chunk ⟨line,asBytes "hi".toList,by decide,by decide⟩ (.last last (by decide) crlf)
  exact delimitedTight delimited (by decide +kernel) reaches loose

theorem dechunkTruncated :
    let buffer := asBytes "HTTP/1.1 200 OK\r\nTransfer-Encoding: chunked\r\n\r\n2\r\nhi".toList
    buffer.length ≤ Target.isizeMax .bits32 ∧ 52 ≤ buffer.length ∧ chunked (buffer.take 52) = true ∧
      findDoubleCrlf (buffer.take 52) = some 43 ∧ ¬ Strict .bits32 buffer 52 47 := by
  rw [String.toList_ofList]
  intro buffer
  refine ⟨by decide +kernel,by decide +kernel,by decide +kernel,by decide +kernel,fun strict => ?_⟩
  have taken : dechunk .bits32 buffer 52 =
      .ok (49,asBytes "HTTP/1.1 200 OK\r\nTransfer-Encoding: chunked\r\n\r\nhi\nhi".toList) := by
    decide +kernel
  have read : SizeRead .bits32 (((buffer.take 52).drop 47).take 1) 2 := sizeRead.mp (by decide +kernel)
  have reaches : Reaches .bits32 47 ((buffer.take 52).drop 47) 54 [] :=
    .behind (by decide +kernel) read (by decide) (by decide) (by decide +kernel) .here
  exact delimitedTight (strict.1 49 _ taken).2 (by decide +kernel) reaches (.unlined rfl)

end Nanofish.ChunkedBodies

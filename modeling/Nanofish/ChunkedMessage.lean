import Nanofish.Parsing

/-! Chunked responses as a server writes them: a status line, header fields with
`chunked` as the only transfer coding, chunks with their extensions, the last chunk
and a trailer section. Nothing here is taken from the client; what the client makes
of the head is proved at the end. -/
namespace Nanofish.ChunkedMessage
open Rust Rust.Utf8 Rust.Text Rust.Pattern
open Protocol Codes Codec HeaderBlock Parsing

structure SizeLine where
  digits : Str
  ext : Option (Str × Bytes)
  nonempty : digits ≠ []
  hex : ∀ c ∈ digits, (digitValue 16 c).isSome = true
  blanks : ∀ e ∈ ext, ∀ c ∈ e.1, c = ' ' ∨ c = '\t'
  plain : ∀ e ∈ ext, 13 ∉ e.2 ∧ 10 ∉ e.2

def SizeLine.size (l : SizeLine) : Nat := digitsValue 16 0 l.digits

def SizeLine.bytes (l : SizeLine) : Bytes := match l.ext with
  | none => asBytes l.digits
  | some (blanks,text) => asBytes (l.digits ++ blanks ++ [';']) ++ text

structure Chunk where
  line : SizeLine
  data : Bytes
  nonempty : data ≠ []
  size : line.size = data.length

def Chunk.bytes (c : Chunk) : Bytes := c.line.bytes ++ crlf ++ c.data ++ crlf

structure Field where
  name : Str
  value : Bytes
  nonempty : name ≠ []
  token : ∀ c ∈ name, c ≠ ':' ∧ isWhitespace c = false
  plain : 13 ∉ value ∧ 10 ∉ value

def Field.line (f : Field) : Bytes := asBytes f.name ++ 58 :: f.value

def Field.isCoding (f : Field) : Bool := eqIgnoreAsciiCase f.name transferEncoding

def chunkedValue (value : Bytes) : Bool := match fromUtf8 value with
  | some v => eqIgnoreAsciiCase (trim v) chunkedCoding
  | none => false

structure Message where
  code : Fin 1000
  reason : Bytes
  reasonPlain : 13 ∉ reason ∧ 10 ∉ reason
  fields : List Field
  coded : ∃ f ∈ fields, f.isCoding = true
  coding : ∀ f ∈ fields, f.isCoding = true → chunkedValue f.value = true
  chunks : List Chunk
  last : SizeLine
  lastZero : last.size = 0
  trailers : List Field

namespace Message

def codeDigits (code : Fin 1000) : Str :=
  [(code.val / 100).digitChar,(code.val / 10 % 10).digitChar,(code.val % 10).digitChar]

def statusFront (code : Fin 1000) : Str := versionText ++ ' ' :: (codeDigits code ++ [' '])

def headLines (m : Message) : List Bytes :=
  (asBytes (statusFront m.code) ++ m.reason) :: m.fields.map Field.line

def head (m : Message) : Bytes := joinPair 13 10 m.headLines

def payload (m : Message) : Bytes := m.chunks.flatMap Chunk.data

def ending (m : Message) : Bytes := m.trailers.flatMap (fun f => f.line ++ crlf) ++ crlf

def body (m : Message) : Bytes := m.chunks.flatMap Chunk.bytes ++ (m.last.bytes ++ (crlf ++ m.ending))

def bytes (m : Message) : Bytes := Block m.head m.body

-- Where the last chunk's size line has been delivered, counted from the end of the head.
def lastLineEnd (m : Message) : Nat :=
  (m.chunks.flatMap Chunk.bytes).length + m.last.bytes.length + crlfLen

end Message

theorem hexSolid {c : Char} (hex : (digitValue 16 c).isSome = true) :
    isWhitespace c = false ∧ c ≠ ';' ∧ c ≠ '+' ∧ c ≠ '-' ∧ c.toNat < 128 ∧ byteOf c ≠ 13 := by
  have range : (48 ≤ c.toNat ∧ c.toNat ≤ 57) ∨ (97 ≤ c.toNat ∧ c.toNat ≤ 122) ∨
      (65 ≤ c.toNat ∧ c.toNat ≤ 90) := by
    simp only [digitValue] at hex
    by_contra outside
    simp only [not_or, not_and, Nat.not_le] at outside
    rw [if_neg (by omega), if_neg (by omega), if_neg (by omega)] at hex
    contradiction
  have ascii : c.toNat < 128 := by omega
  have byte := byteOfNat ascii
  refine ⟨?_,?_,?_,?_,ascii,?_⟩
  · simp only [isWhitespace, Bool.or_eq_false_iff, Bool.and_eq_false_iff, decide_eq_false_iff_not,
      beq_eq_false_iff_ne]
    omega
  all_goals rintro same
  · rw [same] at range; revert range; decide
  · rw [same] at range; revert range; decide
  · rw [same] at range; revert range; decide
  · rw [same] at byte
    have : (13 : UInt8).toNat = 13 := rfl
    omega

section SizeText
variable {digits : Str} (hex : ∀ c ∈ digits, (digitValue 16 c).isSome = true) (nonempty : digits ≠ [])
include hex

theorem hexClean : EdgesClean digits :=
  ⟨fun c edge => (hexSolid (hex c (List.mem_of_mem_head? edge))).1,fun c edge =>
    (hexSolid (hex c (List.mem_of_getLast? edge))).1⟩

theorem sizePartBare : trim (((trim digits).splitOn ';').headD "0".toList) = digits := by
  have noSemi : ';' ∉ digits := fun mem => (hexSolid (hex _ mem)).2.1 rfl
  rw [trimClean (hexClean hex), List.splitOn_eq_singleton noSemi, List.headD_cons,
    trimClean (hexClean hex)]

include nonempty

theorem hexFront (u : Str) : trimStart (digits ++ u) = digits ++ u := by
  obtain ⟨c,cs,rfl⟩ := List.exists_cons_of_ne_nil nonempty
  rw [List.cons_append, trimStartSolid (hexSolid (hex c List.mem_cons_self)).1]

theorem sizePartExtended {blanks : Str} (white : ∀ c ∈ blanks, isWhitespace c = true) (x : Str) :
    trim (((trim (digits ++ blanks ++ ';' :: x)).splitOn ';').headD "0".toList) = digits := by
  have noSemi : ';' ∉ digits ++ blanks := by
    intro mem
    rcases List.mem_append.mp mem with mem | mem
    · exact (hexSolid (hex _ mem)).2.1 rfl
    · exact absurd (white _ mem) (by decide)
  have ends : trim (digits ++ blanks ++ ';' :: x) = (digits ++ blanks) ++ ';' :: trimEnd x := by
    rw [trim, List.append_assoc, hexFront hex nonempty, ← List.append_assoc, trimEndKeeps (by decide)]
  have clean := trimClean (hexClean hex)
  rw [trim, trimStart, dropWhileClean (hexClean hex).1] at clean
  rw [ends, List.splitOn_append_cons_self_of_not_mem noSemi, List.headD_cons, trim,
    hexFront hex nonempty, trimEndPadded white, clean]

theorem chunkSizeText (t : Target) {s : Str}
    (part : trim (((trim s).splitOn ';').headD "0".toList) = digits) :
    chunkSize t (asBytes s) = if digitsValue 16 0 digits ≤ t.usizeMax then .ok (digitsValue 16 0 digits)
      else .err (.invalidResponse "Invalid chunk size") := by
  have number : fromStrRadix 16 t.usizeMax digits =
      if digitsValue 16 0 digits ≤ t.usizeMax then some (digitsValue 16 0 digits) else none := by
    rw [← digitsBounded (by decide) hex 0 (Nat.zero_le _)]
    obtain ⟨c,cs,rfl⟩ := List.exists_cons_of_ne_nil nonempty
    have solid := hexSolid (hex c List.mem_cons_self)
    rw [digitsPlain solid.2.2.1 solid.2.2.2.1]
  simp only [chunkSize, fromUtf8AsBytes, Outcome.ofOptionSome, Outcome.okBind, part, number]
  split <;> rfl

end SizeText

section SizeLine
variable (l : SizeLine)

theorem sizeLinePlain : 13 ∉ l.bytes := by
  have carriage : byteOf '\r' = 13 := by decide
  have digits : '\r' ∉ l.digits := by
    intro mem
    exact absurd (hexSolid (l.hex '\r' mem)).1 (by decide)
  unfold SizeLine.bytes
  rw [← carriage]
  split
  · rwa [asciiMem (by decide)]
  · rename_i blanks text same
    have blank : '\r' ∉ blanks := by
      intro mem
      rcases l.blanks _ same '\r' mem with h | h <;> exact absurd h (by decide)
    have plain := (l.plain _ same).1
    rw [List.mem_append, asciiMem (by decide)]
    simp only [List.mem_append, List.mem_singleton, digits, blank, false_or]
    rintro (h | h)
    · exact absurd h (by decide)
    · exact plain (carriage ▸ h)

theorem sizePart {s : Str} (text : fromUtf8 l.bytes = some s) :
    trim (((trim s).splitOn ';').headD "0".toList) = l.digits := by
  unfold SizeLine.bytes at text
  split at text
  · rw [fromUtf8AsBytes] at text
    cases Option.some.inj text
    exact sizePartBare l.hex
  · rename_i blanks bytes same
    rw [fromUtf8Append] at text
    obtain ⟨x,_,rfl⟩ := Option.map_eq_some_iff.mp text
    have white : ∀ c ∈ blanks, isWhitespace c = true := by
      intro c mem
      rcases l.blanks _ same c mem with rfl | rfl <;> decide
    rw [List.append_assoc, List.singleton_append]
    exact sizePartExtended l.hex l.nonempty white x

theorem chunkSizeLine (t : Target) : chunkSize t l.bytes = match fromUtf8 l.bytes with
    | none => .err (.invalidResponse "Invalid chunk size encoding")
    | some _ =>
      if l.size ≤ t.usizeMax then .ok l.size else .err (.invalidResponse "Invalid chunk size") := by
  cases text : fromUtf8 l.bytes with
  | none => simp only [chunkSize, text, Outcome.ofOptionNone, Outcome.errBind]
  | some s =>
    rw [← fromUtf8Iff.mp text]
    exact chunkSizeText l.hex l.nonempty t (sizePart l text)

end SizeLine

section Head
variable (m : Message)

theorem fieldPlain (f : Field) : f.line ≠ [] ∧ 13 ∉ f.line := by
  have colon : (58 : UInt8) ≠ 13 := by decide
  have name : 13 ∉ asBytes f.name := by
    rw [← crlfBytes.1, asciiMem (by decide)]
    exact fun mem => absurd (f.token '\r' mem).2 (by decide)
  refine ⟨by simp [Field.line],?_⟩
  simp [Field.line,name,f.plain.1]

theorem codePlain (code : Fin 1000) : Message.codeDigits code ≠ [] ∧
    (∀ c ∈ Message.codeDigits code, isWhitespace c = false) ∧
    fromStrRadix 10 maxU16 (Message.codeDigits code) = some code.val := by
  have small := code.isLt
  have solid : ∀ {d : Nat}, d < 10 → isWhitespace d.digitChar = false ∧ d.digitChar ≠ '+' ∧
    d.digitChar ≠ '-' := by decide
  have hundreds : code.val / 100 < 10 := by omega
  have tens : code.val / 10 % 10 < 10 := by omega
  have ones : code.val % 10 < 10 := by omega
  refine ⟨by simp [Message.codeDigits],
    by simp [Message.codeDigits,(solid hundreds).1,(solid tens).1,(solid ones).1],?_⟩
  rw [Message.codeDigits, digitsPlain (solid hundreds).2.1 (solid hundreds).2.2]
  simp only [digits, digitCharValue hundreds, digitCharValue tens, digitCharValue ones, bind,
    Option.bind_some]
  rw [if_pos (by simp only [maxU16]; omega), if_pos (by simp only [maxU16]; omega),
    if_pos (by simp only [maxU16]; omega)]
  exact congrArg some (by omega)

theorem headLinesPlain : ∀ l ∈ m.headLines, l ≠ [] ∧ 13 ∉ l := by
  intro l mem
  rcases List.mem_cons.mp mem with rfl | mem
  · have front : 13 ∉ asBytes (Message.statusFront m.code) := by
      rw [← crlfBytes.1, asciiMem (by decide)]
      have digits : '\r' ∉ Message.codeDigits m.code :=
        fun mem => absurd ((codePlain m.code).2.1 _ mem) (by decide)
      simp [Message.statusFront,digits,show '\r' ∉ versionText by decide]
    refine ⟨?_,by simp [front,m.reasonPlain.1]⟩
    intro none
    have start := (List.append_eq_nil_iff.mp none).1
    exact absurd (asBytesInjective (u := []) start) (by simp [Message.statusFront])
  · obtain ⟨f,_,rfl⟩ := List.mem_map.mp mem
    exact fieldPlain f

theorem messageCloses : Closes m.head := by
  have empty :=
    positionEmptyLine (a := (13 : UInt8)) (b := 10) (by decide)
      (show m.headLines ≠ [] by simp [Message.headLines])
    (fun l mem => ⟨(headLinesPlain m l mem).1,positionAbsent (headLinesPlain m l mem).2⟩) []
  rw [List.append_nil] at empty
  exact empty

theorem headText {s : Str} (text : fromUtf8 m.head = some s) :
    ∃ reason fields, splitCrlf s = (Message.statusFront m.code ++ reason) :: fields ∧
      fields.map asBytes = m.fields.map Field.line := by
  have lines := linesEncoded s
  rw [fromUtf8Iff.mp text, Message.head, splitJoin (by decide) (by simp [Message.headLines])
    fun l mem => (headLinesPlain m l mem).2] at lines
  obtain ⟨line,fields,shape⟩ := List.exists_cons_of_ne_nil (splitPairNe (a := '\r') (b := '\n') s)
  have shape : splitCrlf s = line :: fields := shape
  rw [shape, List.map_cons, Message.headLines] at lines
  obtain ⟨first,rest⟩ := List.cons.inj lines
  obtain ⟨reason,rfl,_⟩ := encodingFront first
  exact ⟨reason,fields,shape,rest⟩

theorem messageWords (reason : Str) : ∃ more, splitWhitespace (Message.statusFront m.code ++ reason) =
    versionText :: Message.codeDigits m.code :: more := by
  obtain ⟨ne,solid,_⟩ := codePlain m.code
  have shape : Message.statusFront m.code ++ reason = versionText ++ ' ' ::
      (Message.codeDigits m.code ++ ' ' :: reason) := by
    simp [Message.statusFront]
  rw [shape]
  exact statusWords ne solid reason

theorem statusOfMessage (reason : Str) : statusOf (Message.statusFront m.code ++ reason) =
    .ok (.fromU16 (UInt16.ofNat m.code)) := by
  obtain ⟨more,words⟩ := messageWords m reason
  have second : (splitWhitespace (Message.statusFront m.code ++ reason))[1]? =
      some (Message.codeDigits m.code) := by
    rw [words]
    rfl
  simp only [statusOf, second, Outcome.ofOptionSome, Outcome.okBind, statusFrom, StatusCode.tryFrom,
    (codePlain m.code).2.2]

theorem statusNoCoding (reason : Str) :
    lineValue transferEncoding (Message.statusFront m.code ++ reason) = none := by
  obtain ⟨more,words⟩ := messageWords m reason
  have first : (splitWhitespace (Message.statusFront m.code ++ reason))[0]? = some versionText := by
    rw [words]
    rfl
  exact lineValueFirstWord first (by decide) (by decide)

theorem fieldValue {f : Field} {line : Str} (bytes : asBytes line = f.line) :
    ∃ value, asBytes value = f.value ∧
      lineValue transferEncoding line = if f.isCoding then some (trim value) else none := by
  obtain ⟨v,rfl,rest⟩ := encodingFront bytes
  have colon : byteOf ':' = 58 := by decide
  rw [← colon] at rest
  obtain ⟨u,value,rfl,none,same⟩ := asciiSplitAt (x := []) (by decide) rest
  have empty : u = [] := asBytesInjective none
  subst empty
  have absent : ':' ∉ f.name := fun mem => (f.token ':' mem).1 rfl
  have edges : EdgesClean f.name := ⟨fun c mem => (f.token c (List.mem_of_mem_head? mem)).2,
    fun c mem => (f.token c (List.mem_of_getLast? mem)).2⟩
  refine ⟨value,same,?_⟩
  rw [List.nil_append, lineValue, headerFieldAt value absent, trimClean edges]
  rfl

theorem codingFound {fs : List Field} {lines : List Str}
    (bytes : lines.map asBytes = fs.map Field.line) (coded : ∃ f ∈ fs, f.isCoding = true)
    (coding : ∀ f ∈ fs, f.isCoding = true → chunkedValue f.value = true) :
    ∃ value, lines.findSome? (lineValue transferEncoding) = some value ∧
    eqIgnoreAsciiCase value chunkedCoding = true := by
  induction fs generalizing lines with
  | nil => simp at coded
  | cons f fs ih =>
    cases lines with
    | nil => simp at bytes
    | cons line lines =>
      rw [List.map_cons, List.map_cons, List.cons.injEq] at bytes
      obtain ⟨value,same,found⟩ := fieldValue bytes.1
      rw [List.findSome?_cons, found]
      cases mine : f.isCoding with
      | true =>
        have chunked := coding f List.mem_cons_self mine
        rw [chunkedValue, fromUtf8Iff.mpr same] at chunked
        exact ⟨trim value,rfl,chunked⟩
      | false =>
        refine ih bytes.2 ?_ fun g mem => coding g (List.mem_cons_of_mem f mem)
        obtain ⟨g,mem,its⟩ := coded
        rcases List.mem_cons.mp mem with rfl | mem
        · rw [mine] at its; contradiction
        · exact ⟨g,mem,its⟩

theorem whitespaceLower {c : Char} (white : isWhitespace c = true) : c.toLower = c := by
  have range : ¬ (65 ≤ c.toNat ∧ c.toNat ≤ 90) := by
    simp only [isWhitespace, Bool.or_eq_true, Bool.and_eq_true, decide_eq_true_eq, beq_iff_eq] at white
    omega
  exact dif_neg (by simpa [UInt32.le_iff_toNat_le] using range)

theorem onlyCoding {value : Str} (same : eqIgnoreAsciiCase value chunkedCoding = true) :
    (value.splitOn ',').any (fun encoding => eqIgnoreAsciiCase (trim encoding) chunkedCoding) =
      true := by
  have lower : value.map Char.toLower = chunkedCoding.map Char.toLower := by
    simpa [eqIgnoreAsciiCase] using same
  have inside {c : Char} (mem : c ∈ value) (fixed : c.toLower = c) :
      c ∈ chunkedCoding.map Char.toLower := by
    rw [← lower, ← fixed]
    exact List.mem_map_of_mem mem
  have solid : ∀ c ∈ value, isWhitespace c = false := by
    intro c mem
    cases white : isWhitespace c with
    | false => rfl
    | true =>
      have letters : ∀ k ∈ chunkedCoding.map Char.toLower, isWhitespace k = false := by decide
      exact absurd white (by rw [letters c (inside mem (whitespaceLower white))]; decide)
  have single : ',' ∉ value := fun mem => absurd (inside mem (by decide)) (by decide)
  have edges : EdgesClean value :=
    ⟨fun c mem => solid c (List.mem_of_mem_head? mem),fun c mem =>
      solid c (List.mem_of_getLast? mem)⟩
  rw [List.splitOn_eq_singleton single, List.any_cons, trimClean edges, same]
  rfl

theorem messageChunked : headChunked m.head = (fromUtf8 m.head).isSome := by
  unfold headChunked
  cases text : fromUtf8 m.head with
  | none => rfl
  | some s =>
    obtain ⟨reason,fields,lines,bytes⟩ := headText m text
    obtain ⟨value,found,same⟩ := codingFound bytes m.coded m.coding
    have whole : findHeaderValue s transferEncoding = some value := by
      rw [findHeaderValue, lines, List.findSome?_cons, statusNoCoding, found]
    simp only [whole, onlyCoding same, Option.isSome_some]

theorem messageHead {s : Str} (text : fromUtf8 m.head = some s) :
    ∃ headers, parseHead s = .ok (.fromU16 (UInt16.ofNat m.code),headers) := by
  obtain ⟨reason,fields,lines,bytes⟩ := headText m text
  obtain ⟨f,mem,_⟩ := m.coded
  cases fields with
  | nil =>
    rw [List.map_nil, eq_comm, List.map_eq_nil_iff] at bytes
    rw [bytes] at mem
    contradiction
  | cons field fields =>
    refine ⟨fieldsOf (field :: fields),?_⟩
    simp only [parseHead, lines, statusOfMessage, Outcome.okBind]

end Head
end Nanofish.ChunkedMessage

import Nanofish.Rust.Text

/-! Constants and searches shared by client and server: protocol.rs, with the
error type of error.rs (default features, no TLS) and the header pair of header.rs. -/
namespace Nanofish.Protocol
open Rust Rust.Utf8 Rust.Text Rust.Pattern

inductive Error where
  | invalidUrl | dnsError | ipAddressEmpty | connectionError | tcpError | noResponse
  | invalidResponse (message : String)
  | unsupportedScheme (scheme : String)
  | headerError (message : String)
  | invalidStatusCode | bufferOverflow
  deriving DecidableEq, Repr

structure HttpHeader where
  name : Str
  value : Str
  deriving DecidableEq, Repr

def isNamed (name : Str) (h : HttpHeader) : Bool := eqIgnoreAsciiCase h.name name

def crlf : Bytes := [13,10]
def crlfLen : Nat := crlf.length
def doubleCrlf : Bytes := [13,10,13,10]
def doubleCrlfLen : Nat := doubleCrlf.length
-- The text 0 CR LF CR LF.
def chunkedEndMarker : Bytes := [48,13,10,13,10]
def transferEncoding : Str := "Transfer-Encoding".toList
def chunkedCoding : Str := "chunked".toList
def contentLengthName : Str := "Content-Length".toList
def contentTypeName : Str := "Content-Type".toList
def headerSeparator : Str := ": ".toList
def maxHeaders : Nat := 16

def findDoubleCrlf (data : Bytes) : Option Nat := position doubleCrlf data
def findCrlf (data : Bytes) : Option Nat := position crlf data

def splitCrlf (s : Str) : List Str := splitPair '\r' '\n' s

/- The header-line split written three times in the source: the text before the
first colon and the text behind it, both trimmed. -/
def splitField (line : Str) : Outcome Error (Option HttpHeader) :=
  match find ':' line with
  | none => .ok none
  | some colonPos => do
    let name ← strTo line colonPos
    let value ← strFrom line (colonPos + 1)
    .ok (some ⟨trim name,trim value⟩)

-- The same without offsets; `splitFieldExact` shows that no slice of it can panic.
def headerField (line : Str) : Option HttpHeader :=
  if ':' ∈ line then
    some ⟨trim (line.takeWhile (· ≠ ':')),trim ((line.dropWhile (· ≠ ':')).drop 1)⟩
  else none

def lineValue (target : Str) (line : Str) : Option Str := match headerField line with
  | some header => if eqIgnoreAsciiCase header.name target then some header.value else none
  | none => none

def findHeaderValue (headersStr target : Str) : Option Str :=
  (splitCrlf headersStr).findSome? (lineValue target)

theorem headerFieldAt {name : Str} (value : Str) (absent : ':' ∉ name) :
    headerField (name ++ ':' :: value) = some ⟨trim name,trim value⟩ := by
  rw [headerField, if_pos (by simp), List.takeWhile_append_of_pos (alwaysApart absent),
    List.dropWhile_append_of_pos (alwaysApart absent)]
  simp

theorem headerFieldNone {line : Str} (absent : ':' ∉ line) : headerField line = none := if_neg absent

theorem splitAtColon {line : Str} (mem : ':' ∈ line) :
    ∃ name value, line = name ++ ':' :: value ∧ ':' ∉ name := List.eq_append_cons_of_mem mem

theorem lineValueShape {target line v : Str} : lineValue target line = some v ↔ ∃ name value,
    line = name ++ ':' :: value ∧ ':' ∉ name ∧ eqIgnoreAsciiCase (trim name) target = true ∧
    v = trim value := by
  constructor
  · intro found
    by_cases mem : ':' ∈ line
    · obtain ⟨name,value,rfl,absent⟩ := splitAtColon mem
      rw [lineValue, headerFieldAt value absent] at found
      simp only [Option.ite_none_right_eq_some, Option.some.injEq] at found
      exact ⟨name,value,rfl,absent,found.1,found.2.symm⟩
    · rw [lineValue, headerFieldNone mem] at found
      contradiction
  · rintro ⟨name,value,rfl,absent,named,rfl⟩
    rw [lineValue, headerFieldAt value absent]
    exact if_pos named

theorem splitFieldExact (line : Str) : splitField line = .ok (headerField line) := by
  by_cases mem : ':' ∈ line
  · obtain ⟨name,value,rfl,absent⟩ := splitAtColon mem
    have size : byteLen name + 1 = byteLen (name ++ [':']) := by rw [byteLenAppend]; rfl
    have behind : (strFrom (name ++ ':' :: value) (byteLen name + 1) : Outcome Error Str) =
        .ok value := by
      rw [size, show name ++ ':' :: value = name ++ [':'] ++ value by simp, strFromAppend]
    rw [splitField, findFirst absent, headerFieldAt value absent]
    simp only [strToAppend, Outcome.okBind, behind]
  · rw [splitField, findAbsent mem, headerFieldNone mem]

theorem crlfBytes : byteOf '\r' = 13 ∧ byteOf '\n' = 10 := by decide

theorem linesEncoded (s : Str) : (splitCrlf s).map asBytes = splitPair 13 10 (asBytes s) :=
  splitEncoded (by decide) (by decide) (by decide) s

theorem splitCrlfAppend (s u : Str) : splitCrlf (s ++ '\r' :: '\n' :: u) = splitCrlf s ++ splitCrlf u :=
  splitPairAppend (by decide) s u

theorem findHeaderValueAppend (s u target : Str) : findHeaderValue (s ++ '\r' :: '\n' :: u) target =
    (findHeaderValue s target).or (findHeaderValue u target) := by
  rw [findHeaderValue, splitCrlfAppend, List.findSome?_append]
  rfl

theorem findHeaderValueClosed (s target : Str) :
    findHeaderValue (s ++ "\r\n\r\n".toList) target = findHeaderValue s target := by
  have empty : findHeaderValue ['\r','\n'] target = none := rfl
  rw [show "\r\n\r\n".toList = '\r' :: '\n' :: ['\r','\n'] from rfl, findHeaderValueAppend, empty,
    Option.or_none]

/- A line is no field of some name when its first word starts otherwise. -/
theorem lineValueFirstWord {line w target : Str} (word : (splitWhitespace line)[0]? = some w)
    (plain : ':' ∉ w) (other : ¬ w.map Char.toLower <+: target.map Char.toLower) :
    lineValue target line = none := by
  obtain ⟨ne,solid,pre,v,same,white⟩ := firstWord word
  by_cases mem : ':' ∈ line
  · obtain ⟨name,value,shape,absent⟩ := splitAtColon mem
    have front : ':' ∉ pre ++ w := by
      intro inside
      rcases List.mem_append.mp inside with early | inside
      · exact absurd (white ':' early) (by decide)
      · exact plain inside
    have start : pre ++ w <+: name := by
      rcases List.append_eq_append_iff.mp (same.symm.trans shape) with ⟨more,whole,_⟩ | ⟨more,whole,rest⟩
      · exact ⟨more,whole.symm⟩
      · cases more with
        | nil => exact ⟨[],by simpa using whole⟩
        | cons c more =>
          obtain ⟨rfl,_⟩ := List.cons.inj rest
          exact absurd (by rw [whole]; simp) front
    obtain ⟨u,rfl⟩ := start
    have kept := trimKeeps white ne solid u
    rw [shape, lineValue, headerFieldAt value absent]
    simp only
    rw [if_neg]
    intro equal
    have lower : (trim (pre ++ w ++ u)).map Char.toLower = target.map Char.toLower := by
      simpa [eqIgnoreAsciiCase] using equal
    exact other (lower ▸ kept.map Char.toLower)
  · rw [lineValue, headerFieldNone mem]

end Nanofish.Protocol

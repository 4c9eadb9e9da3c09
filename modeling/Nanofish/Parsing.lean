import Nanofish.HeaderBlock

/-! What `parse_resp` makes of a header block, read line by line. The offsets of the
source agree with the lines, so every slice of it is in bounds but one: the header
section of a block that has no header line starts behind its end. -/
namespace Nanofish.Parsing
open Rust Rust.Utf8 Rust.Text Rust.Pattern
open Protocol Codes Response Codec HeaderBlock

def statusOf (line : Str) : Outcome Error StatusCode := do
  let word ← Outcome.ofOption (.invalidResponse "Invalid HTTP status line") (splitWhitespace line)[1]?
  statusFrom word

def fieldsOf (lines : List Str) : Vec HttpHeader maxHeaders :=
  ⟨(lines.filterMap headerField).take maxHeaders,List.length_take_le _ _⟩

def parseHead (head : Str) : Outcome Error (StatusCode × Vec HttpHeader maxHeaders) :=
  match splitCrlf head with
  | [] => .panic
  | [line] => do
    let _ ← statusOf line
    .panic
  | line :: fields => do
    let status ← statusOf line
    .ok (status,fieldsOf fields)

theorem pushFieldsItems (lines : List Str) (v : Vec HttpHeader maxHeaders) :
    ∃ w, pushFields lines v = .ok w ∧
    w.items = (v.items ++ lines.filterMap headerField).take maxHeaders := by
  induction lines generalizing v with
  | nil => exact ⟨v,rfl,by simp [List.take_of_length_le v.fits]⟩
  | cons line lines ih =>
    simp only [pushFields, splitFieldExact, Outcome.okBind]
    cases field : headerField line with
    | none =>
      obtain ⟨w,done,items⟩ := ih v
      exact ⟨w,done,by rw [items, List.filterMap_cons_none field]⟩
    | some header =>
      simp only [List.filterMap_cons_some field]
      cases pushed : v.push header with
      | none =>
        have full := Vec.extendFull.mp pushed
        have bound := v.fits
        rw [List.length_singleton] at full
        refine ⟨v,rfl,?_⟩
        rw [List.take_append_of_le_length (by omega), List.take_of_length_le bound]
      | some w =>
        have grown := Vec.extendSome.mp pushed
        obtain ⟨u,done,items⟩ := ih w
        exact ⟨u,done,by rw [items, grown, List.append_assoc, List.singleton_append]⟩

theorem pushFieldsNew (lines : List Str) : pushFields lines Vec.new = .ok (fieldsOf lines) := by
  obtain ⟨w,done,items⟩ := pushFieldsItems lines Vec.new
  rw [done]
  exact congrArg Outcome.ok (Vec.ext items)

theorem parseBodyBytes (headers : List HttpHeader) (body : Bytes) :
    (parseBody headers body).asBytes = body := by
  have plain : (textOrBin body).asBytes = body := by
    unfold textOrBin
    cases text : fromUtf8 body with
    | none => rfl
    | some s => exact fromUtf8Iff.mp text
  unfold parseBody
  split
  · rename_i empty; exact (List.isEmpty_iff.mp empty).symm
  · cases contentType headers with
    | none => exact plain
    | some ct =>
      simp only
      split
      · exact plain
      · rfl

theorem firstLine (s : Str) :
    (splitCrlf s = [s] ∧ findCrlf (asBytes s ++ doubleCrlf) = some (byteLen s)) ∨
    ∃ line u, s = line ++ '\r' :: '\n' :: u ∧ splitCrlf s = line :: splitCrlf u ∧
      findCrlf (asBytes s ++ doubleCrlf) = some (byteLen line) := by
  have bytes (l : Str) (none : position ['\r','\n'] l = none) (rest : Bytes) :
      findCrlf (asBytes l ++ 13 :: 10 :: rest) = some (byteLen l) :=
    positionBehind (by decide) ((pairAbsent (by decide) (by decide)).mp none) rest
  rcases splitPairFirst (a := '\r') (b := '\n') s with ⟨none,whole⟩ | ⟨line,u,same,found,first⟩
  · exact .inl ⟨whole,bytes s none _⟩
  · refine .inr ⟨line,u,same,first,?_⟩
    rw [same] at found
    have encoded : asBytes s ++ doubleCrlf = asBytes line ++ 13 :: 10 :: (asBytes u ++ doubleCrlf) := by
      rw [same, asBytesAppend, asBytesAscii (by decide), asBytesAscii (by decide), crlfBytes.1,
        crlfBytes.2]
      simp
    rw [encoded, bytes line (positionBefore (by simp) found)]

theorem parseRespOpen {data : Bytes} (none : findDoubleCrlf data = none) :
    parseResp data = .err (.invalidResponse "Invalid HTTP response format") := by
  simp only [parseResp, none, Outcome.ofOptionNone, Outcome.errBind]

theorem parseRespBlock {head : Bytes} (closes : Closes head) (body : Bytes) :
    parseResp (Block head body) = (do
      let s ← Outcome.ofOption (.invalidResponse "Invalid HTTP response encoding") (fromUtf8 head)
      let (status,headers) ← parseHead s
      .ok ⟨status,headers,parseBody headers.items body⟩) := by
  have room : head.length + doubleCrlfLen ≤ (Block head body).length := by rw [blockLength]; omega
  have behind (f : Bytes → Outcome Error HttpResponse) :
      (if head.length + doubleCrlfLen < (Block head body).length then
      sliceFrom (Block head body) (head.length + doubleCrlfLen) >>= f else f []) = f body := by
    split
    · rw [sliceFromFits room, blockDrop, Outcome.okBind]
    · rename_i short
      have none : body = [] := List.length_eq_zero_iff.mp (by rw [blockLength] at short; omega)
      rw [none]
  simp only [parseResp, blockFound closes, Outcome.ofOptionSome, Outcome.okBind, sliceToFits room,
    blockTake, fromUtf8Closed, Target.subFits (Nat.le_add_left _ _), Nat.add_sub_cancel, behind]
  cases text : fromUtf8 head with
  | none => rfl
  | some s =>
    have encoded := fromUtf8Iff.mp text
    have size : head.length = byteLen s := by rw [byteLen, encoded]
    simp only [Option.map_some, Outcome.ofOptionSome, Outcome.okBind, size]
    rcases firstLine s with ⟨whole,found⟩ | ⟨line,u,same,split,found⟩
    · -- The section would start two bytes behind the end of the only line.
      have inverted : (strRange (s ++ "\r\n\r\n".toList) (byteLen s + crlfLen) (byteLen s) :
          Outcome Error Str) = .panic :=
        strRangeInverted (by simp [crlfLen,crlf])
      rw [encoded] at found
      simp only [found, Outcome.ofOptionSome, Outcome.okBind, strToAppend, inverted,
        Outcome.panicBind, parseHead, whole, statusOf, Outcome.bindAssoc]
    · have front : (strTo (s ++ "\r\n\r\n".toList) (byteLen line) : Outcome Error Str) = .ok line := by
        rw [same, List.append_assoc, strToAppend]
      have fields : (strRange (s ++ "\r\n\r\n".toList) (byteLen line + crlfLen) (byteLen s) :
          Outcome Error Str) = .ok u := by
        have start : byteLen line + crlfLen = byteLen (line ++ ['\r','\n']) := by rw [byteLenAppend]; rfl
        have stop : byteLen s = byteLen (line ++ ['\r','\n']) + byteLen u := by
          rw [← byteLenAppend, same]; simp
        have shape : s = line ++ ['\r','\n'] ++ u := by rw [same]; simp
        rw [start, stop, shape, strRangeAppend]
      rw [encoded] at found
      obtain ⟨field,more,lines⟩ := List.exists_cons_of_ne_nil (splitPairNe (a := '\r') (b := '\n') u)
      simp only [found, Outcome.ofOptionSome, Outcome.okBind, front, fields, pushFieldsNew,
        parseHead, split, statusOf, Outcome.bindAssoc]
      rw [show splitCrlf u = field :: more from lines]
      simp only [Outcome.bindAssoc, Outcome.okBind]

def IsStatusLine (line : Str) : Prop :=
  ∃ word code, (splitWhitespace line)[1]? = some word ∧ fromStrRadix 10 maxU16 word = some code

theorem statusOfCases (line : Str) :
    (∃ code, statusOf line = .ok (.fromU16 (UInt16.ofNat code)) ∧ IsStatusLine line) ∨
    ∃ e, statusOf line = .err e ∧ ¬ IsStatusLine line := by
  cases word : (splitWhitespace line)[1]? with
  | none =>
    exact .inr ⟨_,by simp only [statusOf, word]; rfl,fun ⟨_,_,found,_⟩ => by simp [word] at found⟩
  | some w =>
    have parsed : statusOf line = statusFrom w := by simp only [statusOf, word]; rfl
    rw [parsed]
    cases number : fromStrRadix 10 maxU16 w with
    | none =>
      refine .inr ⟨.invalidStatusCode,by simp only [statusFrom, StatusCode.tryFrom, number],?_⟩
      rintro ⟨v,code,found,value⟩
      rw [word] at found
      rw [Option.some.inj found, value] at number
      contradiction
    | some code =>
      exact .inl ⟨code,by simp only [statusFrom, StatusCode.tryFrom, number],w,code,word,number⟩

def versionText : Str := "HTTP/1.1".toList

theorem statusWords {digits : Str} (ne : digits ≠ []) (solid : ∀ c ∈ digits, isWhitespace c = false)
    (reason : Str) :
    ∃ more, splitWhitespace (versionText ++ ' ' :: (digits ++ ' ' :: reason)) = versionText ::
      digits :: more := by
  rw [splitWhitespaceWord (by decide) (by decide) (by decide), splitWhitespaceWord ne solid (by decide)]
  exact ⟨_,rfl⟩

/- The one head the parser does not survive. -/
theorem parseHeadReturns (s : Str) : (parseHead s).Returns ↔ ¬ (splitCrlf s = [s] ∧ IsStatusLine s) := by
  rcases firstLine s with ⟨whole,_⟩ | ⟨line,u,_,split,_⟩
  · simp only [parseHead, whole, true_and]
    rcases statusOfCases s with ⟨code,status,good⟩ | ⟨e,status,bad⟩
    · simp [status,good,Outcome.Returns]
    · simp [status,bad,Outcome.Returns]
  · obtain ⟨field,more,lines⟩ := List.exists_cons_of_ne_nil (splitPairNe (a := '\r') (b := '\n') u)
    have lines : splitCrlf u = field :: more := lines
    simp only [parseHead, split, lines, List.cons.injEq, reduceCtorEq, and_false, false_and,
      not_false_eq_true, iff_true]
    rcases statusOfCases line with ⟨code,status,_⟩ | ⟨e,status,_⟩ <;> simp [status,Outcome.Returns]

def ParsableHead (head : Bytes) : Prop :=
  ∃ s line fields, fromUtf8 head = some s ∧ splitCrlf s = line :: fields ∧ fields ≠ [] ∧
    IsStatusLine line

theorem parsesIff {head : Bytes} (closes : Closes head) (body : Bytes) :
    (∃ r, parseResp (Block head body) = .ok r) ↔ ParsableHead head := by
  rw [parseRespBlock closes]
  cases text : fromUtf8 head with
  | none => simp [ParsableHead,text]
  | some s =>
    simp only [ParsableHead, text, Outcome.ofOptionSome, Outcome.okBind, Option.some.injEq,
      exists_and_left, exists_eq_left']
    rcases firstLine s with ⟨whole,_⟩ | ⟨line,u,_,split,_⟩
    · rcases statusOfCases s with ⟨code,status,_⟩ | ⟨e,status,_⟩ <;> simp [parseHead,whole,status]
    · obtain ⟨field,more,lines⟩ := List.exists_cons_of_ne_nil (splitPairNe (a := '\r') (b := '\n') u)
      have lines : splitCrlf u = field :: more := lines
      rcases statusOfCases line with ⟨code,status,good⟩ | ⟨e,status,bad⟩
      · simp [parseHead,split,lines,status,good]
      · simp [parseHead,split,lines,status,bad]

theorem parsedBody {head body : Bytes} {r : HttpResponse} (closes : Closes head)
    (parsed : parseResp (Block head body) = .ok r) : r.body.asBytes = body := by
  rw [parseRespBlock closes] at parsed
  obtain ⟨s,_,parsed⟩ := Outcome.bindOk.mp parsed
  obtain ⟨⟨status,headers⟩,_,built⟩ := Outcome.bindOk.mp parsed
  cases built
  exact parseBodyBytes headers.items body

/- A reply without header fields: its first line end already belongs to the empty
line, and its only line is a status line. -/
def LoneStatusLine (data : Bytes) : Prop :=
  ∃ pos s, findDoubleCrlf data = some pos ∧ findCrlf data = some pos ∧
    fromUtf8 (data.take pos) = some s ∧ IsStatusLine s

theorem firstCrlfClosing {head : Bytes} (body : Bytes) :
    findCrlf (Block head body) = some head.length ↔ findCrlf head = none := by
  have shape : Block head body = head ++ 13 :: 10 :: ([13,10] ++ body) := by simp [Block,doubleCrlf]
  rw [shape]
  exact ⟨positionBefore (by decide),fun none => positionBehind (by decide) none _⟩

theorem oneLineHead {head : Bytes} {s : Str} (text : fromUtf8 head = some s) :
    splitCrlf s = [s] ↔ findCrlf head = none := by
  rw [← fromUtf8Iff.mp text]
  exact splitPairWhole.trans (pairAbsent (by decide) (by decide))

theorem loneBlock {head : Bytes} (closes : Closes head) (body : Bytes) :
    LoneStatusLine (Block head body) ↔ ∃ s, fromUtf8 head = some s ∧ splitCrlf s = [s] ∧
    IsStatusLine s := by
  have cut : (Block head body).take head.length = head := by simp [Block]
  constructor
  · rintro ⟨pos,s,found,first,text,status⟩
    obtain rfl : pos = head.length := Option.some.inj (found.symm.trans (blockFound closes body))
    rw [cut] at text
    exact ⟨s,text,(oneLineHead text).mpr ((firstCrlfClosing body).mp first),status⟩
  · rintro ⟨s,text,one,status⟩
    exact ⟨head.length,s,blockFound closes body,(firstCrlfClosing body).mpr ((oneLineHead text).mp one),
      by rw [cut, text],status⟩

theorem parseRespReturns (data : Bytes) : (parseResp data).Returns ↔ ¬ LoneStatusLine data := by
  cases found : findDoubleCrlf data with
  | none =>
    have apart : ¬ LoneStatusLine data := by rintro ⟨pos,s,some,_⟩; rw [found] at some; contradiction
    simp only [parseRespOpen found, apart, not_false_eq_true, Outcome.Returns]
  | some pos =>
    obtain ⟨closes,_,whole⟩ := blockOf found
    rw [whole, loneBlock closes, parseRespBlock closes]
    cases text : fromUtf8 (data.take pos) with
    | none => simp [Outcome.Returns]
    | some s =>
      have head := parseHeadReturns s
      simp only [Outcome.ofOptionSome, Outcome.okBind, Option.some.injEq, exists_eq_left']
      rw [← head]
      cases parseHead s <;> simp [Outcome.Returns]

theorem parseRespPanics :
    let reply := asBytes "HTTP/1.1 200 OK\r\n\r\n".toList
    parseResp reply = .panic ∧ ¬ (parseResp reply).Returns := by decide +kernel

end Nanofish.Parsing

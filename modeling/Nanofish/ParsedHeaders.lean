import Nanofish.Parsing

/-! The header list of a parsed response beside the text that the framing searches. Both
scan the same lines, but the list holds sixteen fields and the text any number, and the
search for a length also reads the status line. -/
namespace Nanofish.ParsedHeaders
open Rust Rust.Utf8 Rust.Text
open Protocol Response Codec HeaderBlock Parsing

def fieldsIn (fieldText : Str) : List HttpHeader := (splitCrlf fieldText).filterMap headerField

theorem valueFound (fieldText name : Str) :
    findHeaderValue fieldText name =
      ((fieldsIn fieldText).find? (isNamed name)).map HttpHeader.value := by
  rw [findHeaderValue, fieldsIn]
  induction splitCrlf fieldText with
  | nil => rfl
  | cons line lines ih =>
    rw [List.findSome?_cons, lineValue]
    cases field : headerField line with
    | none => rw [List.filterMap_cons_none field]; exact ih
    | some h =>
      rw [List.filterMap_cons_some field]
      by_cases named : isNamed name h = true
      · rw [List.find?_cons_of_pos named]
        simp only [show eqIgnoreAsciiCase h.name name = true from named, if_true, Option.map_some]
      · rw [List.find?_cons_of_neg named]
        simp only [show ¬ eqIgnoreAsciiCase h.name name = true from named, Bool.false_eq_true, if_false]
        exact ih

/- Lookups in the front of a list are lookups in the list exactly when no name occurs
behind it for the first time. -/
theorem frontFinds (n : Nat) (hs : List HttpHeader) :
    (∀ name, ((hs.take n).find? (isNamed name)).map HttpHeader.value =
      (hs.find? (isNamed name)).map HttpHeader.value) ↔
      ∀ h ∈ hs.drop n, ∃ k ∈ hs.take n, isNamed h.name k = true := by
  constructor
  · intro agrees h mem
    have found : (hs.find? (isNamed h.name)).isSome = true :=
      List.find?_isSome.mpr ⟨h,List.mem_of_mem_drop mem,eqIgnoreRefl h.name⟩
    have front := congrArg Option.isSome (agrees h.name)
    rw [Option.isSome_map, Option.isSome_map, found] at front
    exact List.find?_isSome.mp front
  · intro seen name
    have whole : hs.find? (isNamed name) =
        ((hs.take n).find? (isNamed name)).or ((hs.drop n).find? (isNamed name)) := by
      rw [← List.find?_append, List.take_append_drop]
    cases front : (hs.take n).find? (isNamed name) with
    | some h => rw [whole, front, Option.some_or]
    | none =>
      have behind : (hs.drop n).find? (isNamed name) = none := by
        refine List.find?_eq_none.mpr fun h mem named => ?_
        obtain ⟨k,inside,same⟩ := seen h mem
        exact List.find?_eq_none.mp front k inside ((eqIgnoreLeft same name).trans named)
      rw [whole, front, behind, Option.none_or]

structure HeadSplit (data : Bytes) (pos : Nat) (line fieldText : Str) : Prop where
  ends : findDoubleCrlf data = some pos
  text : data.take pos = asBytes (line ++ '\r' :: '\n' :: fieldText)
  first : splitCrlf (line ++ '\r' :: '\n' :: fieldText) = line :: splitCrlf fieldText

structure Agrees (t : Target) (data : Bytes) (pos : Nat) (fieldText : Str) (r : HttpResponse) :
    Prop where
  getHeader : ∀ name, r.getHeader name = findHeaderValue fieldText name
  contentType : r.contentType = findHeaderValue fieldText contentTypeName
  contentLength : chunked data = false →
    r.contentLength t = contentLength t (data.take (pos + doubleCrlfLen))

-- Every field that the list has no room for repeats a name of the list.
def NoneLost (fieldText : Str) : Prop :=
  ∀ h ∈ (fieldsIn fieldText).drop maxHeaders, ∃ k ∈ (fieldsIn fieldText).take maxHeaders,
    isNamed h.name k = true

instance (fieldText : Str) : Decidable (NoneLost fieldText) := by unfold NoneLost; infer_instance

def StatusSilent (t : Target) (line fieldText : Str) : Prop :=
  ∀ value, lineValue contentLengthName line = some value →
    fromStrRadix 10 t.usizeMax value =
      (findHeaderValue fieldText contentLengthName).bind (fromStrRadix 10 t.usizeMax)

theorem parsedSplit {data : Bytes} {r : HttpResponse} (parsed : parseResp data = .ok r) :
    ∃ pos line fieldText, HeadSplit data pos line fieldText := by
  cases found : findDoubleCrlf data with
  | none => rw [parseRespOpen found] at parsed; contradiction
  | some pos =>
    obtain ⟨closes,_,whole⟩ := blockOf found
    rw [whole, parseRespBlock closes] at parsed
    obtain ⟨s,text,parsed⟩ := Outcome.bindOk.mp parsed
    obtain ⟨_,head,_⟩ := Outcome.bindOk.mp parsed
    have encoded := fromUtf8Iff.mp (Outcome.ofOptionOk.mp text)
    rcases firstLine s with ⟨alone,_⟩ | ⟨line,u,rfl,split,_⟩
    · rw [parseHead, alone] at head
      rcases statusOfCases s with ⟨code,status,_⟩ | ⟨e,status,_⟩ <;> simp [status] at head
    · exact ⟨pos,line,u,found,encoded.symm,split⟩

theorem splitHeaders {data : Bytes} {pos : Nat} {line fieldText : Str}
    (split : HeadSplit data pos line fieldText) {r : HttpResponse} (parsed : parseResp data = .ok r) :
    r.headers.items = (fieldsIn fieldText).take maxHeaders := by
  obtain ⟨closes,_,whole⟩ := blockOf split.ends
  rw [whole, parseRespBlock closes, split.text, fromUtf8AsBytes] at parsed
  obtain ⟨field,more,lines⟩ :=
    List.exists_cons_of_ne_nil (Pattern.splitPairNe (a := '\r') (b := '\n') fieldText)
  have lines : splitCrlf fieldText = field :: more := lines
  simp only [Outcome.ofOptionSome, Outcome.okBind, parseHead, split.first, lines] at parsed
  obtain ⟨⟨status,headers⟩,head,built⟩ := Outcome.bindOk.mp parsed
  obtain ⟨code,_,made⟩ := Outcome.bindOk.mp head
  cases made
  cases built
  rw [fieldsIn, lines]
  rfl

theorem splitLength (t : Target) {data : Bytes} {pos : Nat} {line fieldText : Str}
    (split : HeadSplit data pos line fieldText) :
    contentLength t (data.take (pos + doubleCrlfLen)) =
      ((lineValue contentLengthName line).or (findHeaderValue fieldText contentLengthName)).bind
      (fromStrRadix 10 t.usizeMax) := by
  obtain ⟨_,size,whole⟩ := blockOf split.ends
  have front := blockTake (data.take pos) (data.drop (pos + doubleCrlfLen))
  rw [← whole, size] at front
  have lines : findHeaderValue (line ++ '\r' :: '\n' :: fieldText) contentLengthName =
      (lineValue contentLengthName line).or (findHeaderValue fieldText contentLengthName) := by
    rw [findHeaderValue, split.first, List.findSome?_cons]
    cases lineValue contentLengthName line <;> rfl
  rw [front, contentLengthClosed, split.text, ← lines]
  simp only [contentLength, fromUtf8AsBytes, bind, Option.bind_some]

theorem headersAgree (t : Target) (data : Bytes) (r : HttpResponse) (parsed : parseResp data = .ok r) :
    (∃ pos line fieldText, HeadSplit data pos line fieldText) ∧
    ∀ pos line fieldText, HeadSplit data pos line fieldText →
      (Agrees t data pos fieldText r ↔
        NoneLost fieldText ∧ (chunked data = true ∨ StatusSilent t line fieldText)) := by
  refine ⟨parsedSplit parsed,fun pos line fieldText split => ?_⟩
  have looked (name : Str) : r.getHeader name =
      (((fieldsIn fieldText).take maxHeaders).find? (isNamed name)).map HttpHeader.value := by
    rw [HttpResponse.getHeader, splitHeaders split parsed]
    rfl
  have headers : (∀ name, r.getHeader name = findHeaderValue fieldText name) ↔ NoneLost fieldText := by
    simp only [looked, valueFound]
    exact frontFinds maxHeaders (fieldsIn fieldText)
  have lengths (own : r.getHeader contentLengthName = findHeaderValue fieldText contentLengthName) :
      r.contentLength t = contentLength t (data.take (pos + doubleCrlfLen)) ↔
      StatusSilent t line fieldText := by
    have mine : r.contentLength t =
        (findHeaderValue fieldText contentLengthName).bind (fromStrRadix 10 t.usizeMax) := by
      rw [HttpResponse.contentLength, own]
      rfl
    rw [mine, splitLength t split, StatusSilent]
    cases lineValue contentLengthName line with
    | none => simp
    | some value => simp [eq_comm]
  constructor
  · intro agrees
    refine ⟨headers.mp agrees.getHeader,?_⟩
    cases coded : chunked data with
    | true => exact .inl rfl
    | false => exact .inr ((lengths (agrees.getHeader _)).mp (agrees.contentLength coded))
  · rintro ⟨kept,silent⟩
    have all := headers.mpr kept
    refine ⟨all,all contentTypeName,fun plain => (lengths (all _)).mpr (silent.resolve_left ?_)⟩
    rw [plain]
    decide

theorem headersAgreeTwo :
    let fieldText := "Content-Length: 2\r\ncontent-length: 3".toList
    let reply := asBytes ("HTTP/1.1 200 OK\r\n".toList ++ fieldText ++ "\r\n\r\nhi".toList)
    Agrees .bits32 reply 53 fieldText
      ⟨.ok,⟨[⟨"Content-Length".toList,"2".toList⟩,⟨"content-length".toList,"3".toList⟩],by decide⟩,
        .text "hi".toList⟩ := by
  rw [show "Content-Length: 2\r\ncontent-length: 3".toList = _ from String.toList_ofList,
    show "HTTP/1.1 200 OK\r\n".toList = _ from String.toList_ofList]
  intro fieldText reply
  have parsed : parseResp reply = .ok
      ⟨.ok,⟨[⟨"Content-Length".toList,"2".toList⟩,⟨"content-length".toList,"3".toList⟩],by decide⟩,
        .text "hi".toList⟩ := by
    decide +kernel
  refine ((headersAgree .bits32 reply _ parsed).2 53 "HTTP/1.1 200 OK".toList fieldText
    ⟨by decide +kernel,by decide +kernel,by decide +kernel⟩).mpr
      ⟨by decide +kernel,.inr fun value found => ?_⟩
  rw [show lineValue contentLengthName "HTTP/1.1 200 OK".toList = none by decide +kernel] at found
  contradiction

/- A length in the seventeenth field, by which the reply is complete, and one in the
status line. -/
theorem headersLost :
    let line := "HTTP/1.1 200 OK".toList
    let fieldText := (List.replicate 16 "A: 1\r\n".toList).flatten ++ "Content-Length: 0".toList
    let reply := asBytes (line ++ '\r' :: '\n' :: fieldText) ++ doubleCrlf
    let odd := asBytes "Content-Length: 5\r\nA: 1\r\n\r\nhello".toList
    complete .bits32 reply = true ∧ contentLength .bits32 reply = some 0 ∧
      (∃ r, parseResp reply = .ok r ∧ HeadSplit reply 130 line fieldText ∧
        r.contentLength .bits32 = none ∧
        findHeaderValue fieldText contentLengthName = some "0".toList ∧
          r.getHeader contentLengthName = none) ∧
      complete .bits32 odd = true ∧ contentLength .bits32 odd = some 5 ∧
      ∃ r, parseResp odd = .ok r ∧ r.contentLength .bits32 = none := by
  repeat rw [String.toList_ofList]
  intro line fieldText reply odd
  let lost : HttpResponse := ⟨.ok,⟨List.replicate 16 ⟨"A".toList,"1".toList⟩,by decide⟩,.empty⟩
  let plain : HttpResponse := ⟨.fromU16 5,⟨[⟨"A".toList,"1".toList⟩],by decide⟩,.text "hello".toList⟩
  exact ⟨by decide +kernel,by decide +kernel,
    ⟨lost,
      by
    decide +kernel,⟨by decide +kernel,by decide +kernel,by decide +kernel⟩,
      by decide +kernel,by decide +kernel,
      by decide +kernel⟩,
    by decide +kernel,by decide +kernel,plain,by decide +kernel,by decide +kernel⟩

end Nanofish.ParsedHeaders

import Nanofish.RoundTrip

/-! Heads put together from fields as a parser gives them. Such a field may hold a lone
carriage return or line feed, but no pair of them, and is found again as it was. -/
namespace Nanofish.Heads
open Rust Rust.Utf8 Rust.Text Rust.Pattern
open Protocol Codes Response Codec HeaderBlock Parsing RoundTrip

theorem fieldReadable {line : Str} (single : position ['\r','\n'] line = none) {h : HttpHeader}
    (field : headerField line = some h) :
    ReadableHeader h := by
  by_cases mem : ':' ∈ line
  · obtain ⟨name,value,rfl,absent⟩ := splitAtColon mem
    rw [headerFieldAt value absent] at field
    cases Option.some.inj field
    have front : name <:+: name ++ ':' :: value := (List.prefix_append name _).isInfix
    have behind : value <:+: name ++ ':' :: value :=
      ((List.suffix_cons ':' value).trans (List.suffix_append name _)).isInfix
    exact ⟨fun inside => absent ((trimInfix name).subset inside),
      positionInfix (by decide) single ((trimInfix name).trans front),
      positionInfix (by decide) single ((trimInfix value).trans behind),trimEdges name,trimEdges value⟩
  · rw [headerFieldNone mem] at field
    contradiction

theorem headerLineSingle {h : HttpHeader} (readable : ReadableHeader h) :
    headerLine h ≠ [] ∧ position ['\r','\n'] (headerLine h) = none := by
  have shape : headerLine h = h.name ++ ':' :: ([] ++ ' ' :: h.value) := by
    simp [headerLine,headerSeparator]
  refine ⟨by simp [headerLine,headerSeparator],?_⟩
  rw [shape, positionApart (by decide) (by decide), positionApart (by decide) (by decide)]
  exact ⟨readable.nameSingle,rfl,readable.valueSingle⟩

theorem emittedReadable {r : HttpResponse} (readable : ∀ h ∈ r.headers.items, ReadableHeader h) :
    ∀ h ∈ emitted r, ReadableHeader h := by
  intro h mem
  unfold emitted at mem
  split at mem
  · rcases List.mem_append.mp mem with own | auto
    · exact readable h own
    · rw [List.mem_singleton.mp auto]
      exact cleanReadable (lengthHeaderClean _)
  · exact readable h mem

section Head
variable {first : Str} {fields : List HttpHeader} (single : position ['\r','\n'] first = none)
  (readable : ∀ h ∈ fields, ReadableHeader h)
include single readable

theorem headSplit :
    splitCrlf (joinPair '\r' '\n' (first :: fields.map headerLine)) = first ::
      fields.map headerLine := by
  refine (splitJoinIff (by decide) (by simp)).mpr fun l mem => ?_
  rcases List.mem_cons.mp mem with rfl | mem
  · exact single
  · obtain ⟨h,inside,rfl⟩ := List.mem_map.mp mem
    exact (headerLineSingle (readable h inside)).2

theorem headEnds (solid : first ≠ []) :
    Closes (asBytes (joinPair '\r' '\n' (first :: fields.map headerLine))) := by
  refine textCloses (by simp) fun l mem => ?_
  rcases List.mem_cons.mp mem with rfl | mem
  · exact ⟨solid,single⟩
  · obtain ⟨h,inside,rfl⟩ := List.mem_map.mp mem
    exact headerLineSingle (readable h inside)

end Head

theorem parseHeadReadable {s : Str} {status : StatusCode} {headers : Vec HttpHeader maxHeaders}
    (parsed : parseHead s = .ok (status,headers)) : ∀ h ∈ headers.items, ReadableHeader h := by
  have lines := splitSingle (show '\r' ≠ '\n' by decide) s
  rcases firstLine s with ⟨alone,_⟩ | ⟨line,u,_,split,_⟩
  · rw [parseHead, alone] at parsed
    obtain ⟨_,_,never⟩ := Outcome.bindOk.mp parsed
    contradiction
  · obtain ⟨field,more,fields⟩ := List.exists_cons_of_ne_nil (splitPairNe (a := '\r') (b := '\n') u)
    have fields : splitCrlf u = field :: more := fields
    rw [show splitPair '\r' '\n' s = line :: field ::
      more from split.trans (congrArg (line :: ·) fields)] at lines
    simp only [parseHead, split, fields] at parsed
    obtain ⟨_,_,same⟩ := Outcome.bindOk.mp parsed
    cases same
    intro h mem
    obtain ⟨l,inside,found⟩ := List.mem_filterMap.mp (List.mem_of_mem_take mem)
    exact fieldReadable (lines l (List.mem_cons_of_mem line inside)) found

theorem parsedReadable {data : Bytes} {r : HttpResponse} (parsed : parseResp data = .ok r) :
    ∀ h ∈ r.headers.items, ReadableHeader h := by
  cases found : findDoubleCrlf data with
  | none =>
    rw [parseRespOpen found] at parsed
    contradiction
  | some pos =>
    obtain ⟨closes,_,whole⟩ := blockOf found
    rw [whole, parseRespBlock closes] at parsed
    obtain ⟨s,_,parsed⟩ := Outcome.bindOk.mp parsed
    obtain ⟨⟨status,headers⟩,head,built⟩ := Outcome.bindOk.mp parsed
    cases built
    exact parseHeadReadable head

end Nanofish.Heads

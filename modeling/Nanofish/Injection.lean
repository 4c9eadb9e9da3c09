import Nanofish.RequestRoundTrip

/-! Both serialisers copy the caller's strings into their lines as they are. The head
has the lines it was meant to have exactly when no string brings a line end of its own:
where two strings meet, none can arise. -/
namespace Nanofish.Injection
open Rust Rust.Utf8 Rust.Text Rust.Pattern
open Protocol Codes Response Codec HeaderBlock Parsing RoundTrip RequestRoundTrip

def HasLines (head : Bytes) (lines : List Str) : Prop :=
  findDoubleCrlf head = some (head.length - doubleCrlfLen) ∧
    splitPair 13 10 (head.take (head.length - doubleCrlfLen)) = lines.map asBytes
instance (head : Bytes) (lines : List Str) : Decidable (HasLines head lines) := by
  unfold HasLines; infer_instance

def OneLine (s : Str) : Prop := position ['\r','\n'] s = none
instance (s : Str) : Decidable (OneLine s) := by unfold OneLine; infer_instance

def OneLineHeader (h : HttpHeader) : Prop := OneLine h.name ∧ OneLine h.value
instance (h : HttpHeader) : Decidable (OneLineHeader h) := by unfold OneLineHeader; infer_instance

theorem oneLineEncoded (s : Str) : position [13,10] (asBytes s) = none ↔ OneLine s :=
  (pairAbsent (a := '\r') (b := '\n') (by decide) (by decide)).symm

theorem hasLinesIff {lines : List Str} (ne : lines ≠ []) (solid : ∀ l ∈ lines, l ≠ []) :
    HasLines (terminated lines ++ crlf) lines ↔ ∀ l ∈ lines, OneLine l := by
  have shape : terminated lines ++ crlf = Block (asBytes (joinPair '\r' '\n' lines)) [] := by
    rw [← terminatedBlock ne, List.append_nil]
  have size : (terminated lines ++ crlf).length - doubleCrlfLen =
      (asBytes (joinPair '\r' '\n' lines)).length := by
    rw [shape, blockLength, List.length_nil, Nat.add_zero, Nat.add_sub_cancel]
  have front : (terminated lines ++ crlf).take (asBytes (joinPair '\r' '\n' lines)).length =
      asBytes (joinPair '\r' '\n' lines) := by
    rw [shape, Block, List.append_nil, List.take_left]
  rw [HasLines, size, front, joinEncoded, splitJoinIff (by decide) (by simpa using ne),
    List.forall_mem_map]
  simp only [oneLineEncoded]
  refine ⟨And.right,fun single => ⟨?_,single⟩⟩
  rw [shape]
  have closes := textCloses ne fun l mem => ⟨solid l mem,single l mem⟩
  rw [blockFound closes, joinEncoded]

theorem headerLineOne (h : HttpHeader) : OneLine (headerLine h) ↔ OneLineHeader h := by
  have shape : headerLine h = h.name ++ ':' :: ' ' :: h.value := by simp [headerLine,headerSeparator]
  have behind := positionApart (a := '\r') (b := '\n') (c := ' ') (by decide) (by decide) [] h.value
  rw [OneLine, shape, positionApart (by decide) (by decide), OneLineHeader, OneLine, OneLine]
  rw [List.nil_append] at behind
  rw [behind]
  exact and_congr_right fun _ => and_iff_right rfl

theorem requestLineOne (method : HttpMethod) (path : Str) :
    OneLine (requestLine method path) ↔ OneLine path := by
  have word : OneLine method.asStr := by cases method <;> decide
  have version : OneLine versionText := by decide
  rw [OneLine, requestLine, positionApart (by decide) (by decide), positionApart (by decide) (by decide)]
  exact ⟨fun all => all.2.1,fun single => ⟨word,single,version⟩⟩

theorem statusLineOne (r : HttpResponse) : OneLine (statusLine r) := positionAbsent (statusLinePlain r).2

theorem cleanOne {h : HttpHeader} (clean : CleanHeader h) : OneLineHeader h :=
  ⟨positionAbsent clean.nameLine.1,positionAbsent clean.valueLine.1⟩

theorem headerLineSolid (h : HttpHeader) : headerLine h ≠ [] := by simp [headerLine,headerSeparator]

section Request
variable (method : HttpMethod) (host path : Str) (headers : List HttpHeader) (body : Option Bytes)

theorem requestLinesOne : (∀ l ∈ requestLines method host path headers body, OneLine l) ↔
    OneLine path ∧ OneLine host ∧ ∀ h ∈ headers, OneLineHeader h := by
  have own : OneLine "Host".toList := by decide
  have closing : OneLineHeader connectionClose := by decide
  have auto : ∀ h ∈ autoLength headers body, OneLineHeader h := by
    intro h mem
    rw [autoLengthIf] at mem
    split at mem
    · rw [List.mem_singleton.mp mem]
      exact cleanOne (lengthHeaderClean _)
    · contradiction
  have fields : (∀ h ∈ requestFields host headers body, OneLineHeader h) ↔
      OneLine host ∧ ∀ h ∈ headers, OneLineHeader h := by
    rw [requestFields, List.forall_mem_append, List.forall_mem_append, List.forall_mem_cons,
      List.forall_mem_singleton, and_iff_left closing, and_iff_left auto]
    exact and_congr_left fun _ => and_iff_right own
  rw [requestLines, List.forall_mem_cons, requestLineOne, List.forall_mem_map]
  simp only [headerLineOne, fields]

theorem requestLinesSolid : ∀ l ∈ requestLines method host path headers body, l ≠ [] := by
  intro l mem
  rcases List.mem_cons.mp mem with rfl | mem
  · simp [requestLine]
  · obtain ⟨h,_,rfl⟩ := List.mem_map.mp mem
    exact headerLineSolid h

end Request

theorem buildHeadItems {N : Nat} {r : HttpResponse} {b : Vec UInt8 N}
    (built : r.buildHeadBytes N = .ok b) :
    b.items = terminated (statusLine r :: r.headers.items.map headerLine) ++ crlf :=
  fittedItems ((buildHeadBytesFitted N r).symm.trans built)

theorem headsHaveTheirLines :
    (∀ (RQ : Nat) (method : HttpMethod) (host path : Str) (headers : List HttpHeader)
      (body : Option Bytes) (s : Vec UInt8 RQ),
      buildReq RQ method host path headers body = .ok s →
      (HasLines s.items (requestLines method host path headers body) ↔
        OneLine path ∧ OneLine host ∧ ∀ h ∈ headers, OneLineHeader h)) ∧
    ∀ (N : Nat) (r : HttpResponse) (b : Vec UInt8 N), r.buildHeadBytes N = .ok b →
      (HasLines b.items (statusLine r :: r.headers.items.map headerLine) ↔ ∀ h ∈ r.headers.items,
        OneLineHeader h) := by
  constructor
  · intro RQ method host path headers body s built
    rw [buildReqItems built, hasLinesIff (by simp [requestLines])
      (requestLinesSolid method host path headers body)]
    exact requestLinesOne method host path headers body
  · intro N r b built
    have solid : ∀ l ∈ statusLine r :: r.headers.items.map headerLine, l ≠ [] := by
      intro l mem
      rcases List.mem_cons.mp mem with rfl | mem
      · exact (statusLinePlain r).1
      · obtain ⟨h,_,rfl⟩ := List.mem_map.mp mem
        exact headerLineSolid h
    rw [buildHeadItems built, hasLinesIff (by simp) solid, List.forall_mem_cons,
      and_iff_right (statusLineOne r), List.forall_mem_map]
    simp only [headerLineOne]

theorem headsHaveTheirLinesGet :
    let head := asBytes "GET / HTTP/1.1\r\nHost: h\r\nConnection: close\r\n\r\n".toList
    HasLines head (requestLines .GET "h".toList "/".toList [] none) := by
  rw [show "GET / HTTP/1.1\r\nHost: h\r\nConnection: close\r\n\r\n".toList = _ from String.toList_ofList]
  intro head
  exact (headsHaveTheirLines.1 128 .GET "h".toList "/".toList [] none ⟨head,by decide +kernel⟩
    (by decide +kernel)).mpr
    (by decide +kernel)

/- A header value that carries a field of its own, and one that ends the head. -/
theorem headsInjected :
    (∃ s : Vec UInt8 128, buildReq 128 .GET "h".toList "/".toList [⟨"X".toList,"a\r\nY: b".toList⟩]
      none = .ok s ∧ (splitPair 13 10 (s.items.take (s.items.length - doubleCrlfLen))).length = 5 ∧
      (requestLines .GET "h".toList "/".toList [⟨"X".toList,"a\r\nY: b".toList⟩] none).length = 4) ∧
    ∃ b : Vec UInt8 128, (⟨.ok,⟨[⟨"X".toList,"a\r\n\r\nb".toList⟩],by decide⟩,.empty⟩ :
      HttpResponse).buildHeadBytes 128 = .ok b ∧
      findDoubleCrlf b.items = some 21 ∧ b.items.length = 30 :=
  ⟨⟨⟨asBytes "GET / HTTP/1.1\r\nHost: h\r\nX: a\r\nY: b\r\nConnection: close\r\n\r\n".toList,
      by decide +kernel⟩,
      by decide +kernel,by decide +kernel,by decide +kernel⟩,
    ⟨asBytes "HTTP/1.1 200 OK\r\nX: a\r\n\r\nb\r\n\r\n".toList,by decide +kernel⟩,
    by decide +kernel,by decide +kernel,by decide +kernel⟩

end Nanofish.Injection

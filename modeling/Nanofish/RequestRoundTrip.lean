import Nanofish.RequestFields
import Nanofish.RoundTrip

/-! The server's request parser undoes the client's request serialiser. What `build_req`
writes is the joined lines of the request and an empty line; `lines`, the word split and
the colon split of `parse_from` read exactly these lines back. -/
namespace Nanofish.RequestRoundTrip
open Rust Rust.Utf8 Rust.Text Rust.Pattern
open Protocol Codes Response Codec HeaderBlock Parsing Request RequestFields RoundTrip

def hostHeader (host : Str) : HttpHeader := ⟨"Host".toList,host⟩
def connectionClose : HttpHeader := ⟨"Connection".toList,"close".toList⟩

def requestLine (method : HttpMethod) (path : Str) : Str :=
  method.asStr ++ ' ' :: (path ++ ' ' :: versionText)

def autoLength (headers : List HttpHeader) : Option Bytes → List HttpHeader
  | none => []
  | some body => if carriesLength headers then [] else [⟨contentLengthName,decimal body.length⟩]

theorem autoLengthIf (headers : List HttpHeader) (body : Option Bytes) : autoLength headers body =
    if body.isSome && !carriesLength headers then
    [⟨contentLengthName,decimal (body.getD []).length⟩] else [] := by
  cases body with
  | none => rfl
  | some data => cases own : carriesLength headers <;> simp only [autoLength, own] <;> rfl

def requestFields (host : Str) (headers : List HttpHeader) (body : Option Bytes) : List HttpHeader :=
  hostHeader host :: headers ++ autoLength headers body ++ [connectionClose]

def requestLines (method : HttpMethod) (host path : Str) (headers : List HttpHeader)
    (body : Option Bytes) : List Str :=
  requestLine method path :: (requestFields host headers body).map headerLine

def requestText (method : HttpMethod) (host path : Str) (headers : List HttpHeader)
    (body : Option Bytes) : Str :=
  joinPair '\r' '\n' (requestLines method host path headers body)

section Writer
variable {RQ : Nat}

theorem frontTerminated (method : HttpMethod) (host path : Str) :
    terminated [requestLine method path,headerLine (hostHeader host)] = asBytes method.asStr ++
      asBytes " ".toList ++
      asBytes path ++ asBytes " HTTP/1.1\r\n".toList ++ asBytes "Host: ".toList ++ asBytes host ++
        asBytes "\r\n".toList := by
  have version : " HTTP/1.1\r\n".toList = ' ' :: (versionText ++ ['\r','\n']) := by decide
  have field : "Host: ".toList = "Host".toList ++ headerSeparator := by decide
  have space : " ".toList = [' '] := by decide
  have ending : "\r\n".toList = ['\r','\n'] := by decide
  rw [version, field, space, ending]
  simp only [terminated, requestLine, headerLine, hostHeader, ← asBytesAppend, List.flatMap_cons,
    List.flatMap_nil, List.append_assoc, List.cons_append, List.nil_append, List.append_nil]

theorem pushRequestHeadersWrites (headers : List HttpHeader) (v : Vec UInt8 RQ) (seen : Bool) :
    pushRequestHeaders headers v seen = writeHeaders headers v seen := by
  have ending : asBytes "\r\n".toList = crlf := by decide
  induction headers generalizing v seen with
  | nil => rfl
  | cons header headers ih =>
    simp only [pushRequestHeaders, writeHeaders, ih, pushStr, pushSlice, ending]

-- The digits of a written length have eight places on their way into the request.
def lengthPlaces : Nat := 8

def LengthFits (headers : List HttpHeader) (body : Option Bytes) : Prop :=
  ∀ data ∈ body, carriesLength headers = true ∨ data.length < 10 ^ lengthPlaces

theorem lengthDigits (n : Nat) : pushStr (Vec.new : Vec UInt8 lengthPlaces) (decimal n) =
    if room : n < 10 ^ lengthPlaces then .ok ⟨asBytes (decimal n),(decimalLength (by decide)).mpr room⟩
    else .err .bufferOverflow := by
  have whole : pushStr (Vec.new : Vec UInt8 lengthPlaces) (decimal n) =
    fitted (asBytes (decimal n)) := pushSliceFitted _ _
  rw [whole, fitted]
  simp only [decimalLength (show 0 < lengthPlaces by decide)]

theorem buildReqFront (method : HttpMethod) (host path : Str) (headers : List HttpHeader)
    (body : Option Bytes) :
    buildReq RQ method host path headers body = (do
      let req ← pushSlice Vec.new
        (terminated ([requestLine method path,headerLine (hostHeader host)] ++ headers.map headerLine))
      let req ←
        if !carriesLength headers && body.isSome then do
          let req ← pushSlice req (asBytes contentLengthName ++ asBytes headerSeparator)
          let len ← pushStr (Vec.new : Vec UInt8 lengthPlaces) (decimal (body.getD []).length)
          pushSlice req (len.items ++ crlf)
        else .ok req
      pushSlice req (terminated [headerLine connectionClose] ++ crlf)) := by
  have strings (v : Vec UInt8 RQ) (s : Str) : pushStr v s = pushSlice v (asBytes s) := rfl
  have pushes (v : Vec UInt8 RQ) (data : Bytes) :
    Outcome.ofOption Error.bufferOverflow (v.extend data) = pushSlice v data := rfl
  have closing : asBytes "Connection: close\r\n\r\n".toList =
    terminated [headerLine connectionClose] ++ crlf := by decide
  have ending : asBytes "\r\n".toList = crlf := by decide
  simp only [buildReq, pushRequestHeadersWrites, strings, pushes, writeHeadersSlice,
    Outcome.bindAssoc, Outcome.okBind,
    Bool.false_or, pushSliceBehind, pushSliceAppend, terminatedAppend, frontTerminated, closing,
      ending, List.append_assoc]
  rfl

theorem buildReqCases (method : HttpMethod) (host path : Str) (headers : List HttpHeader)
    (body : Option Bytes) :
    (LengthFits headers body → buildReq RQ method host path headers body =
      fitted (terminated (requestLines method host path headers body) ++ crlf)) ∧
    (¬ LengthFits headers body → buildReq RQ method host path headers body = .err .bufferOverflow) := by
  have lines : requestLines method host path headers body =
      [requestLine method path,headerLine (hostHeader host)] ++
      headers.map headerLine ++ (autoLength headers body).map headerLine ++
        [headerLine connectionClose] := by
    simp [requestLines,requestFields]
  rw [buildReqFront, lines, ← pushSliceNew]
  by_cases own : (!carriesLength headers && body.isSome) = true
  · obtain ⟨bare,data,rfl⟩ : carriesLength headers = false ∧ ∃ data, body = some data := by
      simpa [Option.isSome_iff_exists] using own
    have added : (autoLength headers (some data)).map headerLine =
        [headerLine ⟨contentLengthName,decimal data.length⟩] := by
      simp only [autoLength, bare, Bool.false_eq_true, if_false, List.map_singleton]
    have fits : LengthFits headers (some data) ↔ data.length < 10 ^ lengthPlaces := by
      simp [LengthFits,bare]
    simp only [own, if_true, Option.getD_some, lengthDigits, fits, added]
    constructor
    · intro small
      simp only [small, dif_pos, Outcome.okBind, pushSliceAppend, terminatedAppend,
        headerLineTerminated, List.append_assoc]
    · intro wide
      simp only [wide, dif_neg, not_false_eq_true, Outcome.errBind, pushSliceErr]
  · have none : autoLength headers body = [] := by
      rw [autoLengthIf, Bool.and_comm]
      exact if_neg own
    refine ⟨fun _ => ?_,fun wide => absurd (fun data held => ?_) wide⟩
    · simp only [own, Bool.false_eq_true, if_false, Outcome.okBind, pushSliceAppend,
        terminatedAppend, none, List.map_nil, List.append_nil, List.append_assoc]
    · have carried : carriesLength headers = true := by simpa [Option.mem_def.mp held] using own
      exact .inl carried

theorem buildReqItems {method : HttpMethod} {host path : Str} {headers : List HttpHeader}
    {body : Option Bytes} {s : Vec UInt8 RQ}
    (built : buildReq RQ method host path headers body = .ok s) :
    s.items = terminated (requestLines method host path headers body) ++ crlf := by
  by_cases fits : LengthFits headers body
  · rw [(buildReqCases method host path headers body).1 fits] at built
    exact fittedItems built
  · rw [(buildReqCases method host path headers body).2 fits] at built
    contradiction

theorem buildReqBlock {method : HttpMethod} {host path : Str} {headers : List HttpHeader}
    {body : Option Bytes} {s : Vec UInt8 RQ}
    (built : buildReq RQ method host path headers body = .ok s) (data : Bytes) :
    s.items ++ data = Block (asBytes (requestText method host path headers body)) data := by
  rw [buildReqItems built]
  exact terminatedBlock (by simp [requestLines]) data

end Writer

theorem parseFieldsLines {headers : List HttpHeader} (clean : ∀ h ∈ headers, CleanHeader h)
    (v : Vec HttpHeader maxHeaders) (few : v.items.length + headers.length ≤ maxHeaders) :
    ∃ w, parseFields (headers.map headerLine) v = .ok w ∧ w.items = v.items ++ headers := by
  induction headers generalizing v with
  | nil => exact ⟨v,rfl,by simp⟩
  | cons header headers ih =>
    have own := clean header List.mem_cons_self
    have solid := (headerLinePlain own).1
    cases pushed : v.push header with
    | none =>
      have full := Vec.extendFull.mp pushed
      simp only [List.length_cons, List.length_nil] at full few
      omega
    | some u =>
      have items : u.items = v.items ++ [header] := Vec.extendSome.mp pushed
      obtain ⟨w,parsed,whole⟩ := ih (fun h mem => clean h (List.mem_cons_of_mem header mem)) u (by
        rw [items, List.length_append, List.length_singleton]
        rw [List.length_cons] at few
        omega)
      refine ⟨w,?_,by rw [whole, items, List.append_assoc, List.singleton_append]⟩
      simp only [List.map_cons, parseFields, solid, if_false, splitFieldExact,
        headerLineRead (cleanReadable own), Outcome.okBind, pushed, Outcome.ofOptionSome, parsed]

theorem methodSolid (method : HttpMethod) :
    method.asStr ≠ [] ∧ ∀ c ∈ method.asStr, isWhitespace c = false := by
  cases method <;> decide

theorem requestLineWords (method : HttpMethod) {path : Str} (ne : path ≠ [])
    (solid : ∀ c ∈ path, isWhitespace c = false) :
    splitWhitespace (requestLine method path) = [method.asStr,path,versionText] := by
  obtain ⟨named,word⟩ := methodSolid method
  rw [requestLine, splitWhitespaceWord named word (by decide), splitWhitespaceWord ne solid (by decide),
    splitWhitespaceSolid (by decide) (by decide)]

theorem requestLinePlain (method : HttpMethod) {path : Str}
    (solid : ∀ c ∈ path, isWhitespace c = false) {c : Char} (white : isWhitespace c = true)
    (other : c ≠ ' ') : c ∉ requestLine method path := by
  have version : ∀ c ∈ versionText, isWhitespace c = false := by decide
  have apart {w : Str} (word : ∀ c ∈ w, isWhitespace c = false) : c ∉ w := fun mem => by
    simp [word c mem] at white
  simp only [requestLine, List.mem_append, List.mem_cons, other, false_or, not_or]
  exact ⟨apart (methodSolid method).2,apart solid,apart version⟩

structure CleanRequest (host path : Str) (headers : List HttpHeader) : Prop where
  pathSome : path ≠ []
  pathSolid : ∀ c ∈ path, isWhitespace c = false
  hostLine : '\r' ∉ host ∧ '\n' ∉ host
  hostEdges : EdgesClean host
  fields : ∀ h ∈ headers, CleanHeader h

instance (host path : Str) (headers : List HttpHeader) : Decidable (CleanRequest host path headers) :=
  decidable_of_iff (path ≠ [] ∧ (∀ c ∈ path, isWhitespace c = false) ∧ ('\r' ∉ host ∧ '\n' ∉ host) ∧
      EdgesClean host ∧ ∀ h ∈ headers, CleanHeader h)
    ⟨fun ⟨s,p,l,e,f⟩ => ⟨s,p,l,e,f⟩,fun ⟨s,p,l,e,f⟩ => ⟨s,p,l,e,f⟩⟩

section Read
variable {host path : Str} {headers : List HttpHeader} (clean : CleanRequest host path headers)
  (body : Option Bytes)
include clean

theorem requestFieldsClean : ∀ h ∈ requestFields host headers body, CleanHeader h := by
  have hostClean : CleanHeader (hostHeader host) :=
    ⟨show ':' ∉ "Host".toList
      by decide,show '\r' ∉ "Host".toList ∧ '\n' ∉ "Host".toList by decide,clean.hostLine,
      show EdgesClean "Host".toList by decide,clean.hostEdges⟩
  have autoClean : ∀ h ∈ autoLength headers body, CleanHeader h := by
    intro h mem
    unfold autoLength at mem
    split at mem
    · contradiction
    · split at mem
      · contradiction
      · rw [List.mem_singleton.mp mem]
        exact lengthHeaderClean _
  intro h mem
  rcases List.mem_append.mp mem with mem | mem
  · rcases List.mem_append.mp mem with mem | mem
    · rcases List.mem_cons.mp mem with rfl | own
      · exact hostClean
      · exact clean.fields h own
    · exact autoClean h mem
  · rw [List.mem_singleton.mp mem]
    exact (by decide : CleanHeader connectionClose)

theorem requestLinesPlain (method : HttpMethod) :
    ∀ l ∈ requestLines method host path headers body, l ≠ [] ∧ '\r' ∉ l ∧ '\n' ∉ l := by
  intro l mem
  rcases List.mem_cons.mp mem with rfl | mem
  · exact ⟨by simp [requestLine],requestLinePlain method clean.pathSolid (by decide) (by decide),
      requestLinePlain method clean.pathSolid (by decide) (by decide)⟩
  · obtain ⟨h,inside,rfl⟩ := List.mem_map.mp mem
    have own := requestFieldsClean clean body h inside
    obtain ⟨solid,absent⟩ := headerLinePlain own
    exact ⟨solid,absent,by simp [headerLine,headerSeparator,own.nameLine.2,own.valueLine.2]⟩

theorem parseFromText (method : HttpMethod)
    (few : (requestFields host headers body).length ≤ maxHeaders) (data : Bytes) :
    ∃ w : Vec HttpHeader maxHeaders, w.items = requestFields host headers body ∧
      HttpRequest.parseFrom (requestText method host path headers body) data =
        .ok ⟨method,path,versionText,w,data⟩ := by
  have plain := requestLinesPlain clean body method
  have text : lines (requestText method host path headers body) =
      requestLines method host path headers body :=
    linesJoined fun l mem => ⟨(plain l mem).1,(plain l mem).2.2⟩
  obtain ⟨w,parsed,items⟩ :=
    parseFieldsLines (requestFieldsClean clean body) Vec.new (by simpa [Vec.new] using few)
  refine ⟨w,by simpa [Vec.new] using items,?_⟩
  rw [HttpRequest.parseFrom, text]
  simp only [requestLines, requestLineWords method clean.pathSome clean.pathSolid,
    List.getElem?_cons_zero,
    List.getElem?_cons_succ, Outcome.ofOptionSome, Outcome.okBind, methodTryFrom.mpr rfl, parsed]

end Read

theorem tryFromBuildReq (RQ : Nat) (method : HttpMethod) (host path : Str)
    (headers : List HttpHeader) (body : Option Bytes) (clean : CleanRequest host path headers)
    (few : (requestFields host headers body).length ≤ maxHeaders) (s : Vec UInt8 RQ)
    (built : buildReq RQ method host path headers body = .ok s) :
    ∃ q, HttpRequest.tryFrom (s.items ++ body.getD []) = .ok q ∧ q.method = method ∧ q.path = path ∧
      q.version = "HTTP/1.1".toList ∧
      q.headers.items = ⟨"Host".toList,host⟩ :: headers ++
        (if body.isSome && !carriesLength headers then
          [⟨"Content-Length".toList,decimal (body.getD []).length⟩] else []) ++
        [⟨"Connection".toList,"close".toList⟩] ∧
      q.body = body.getD [] := by
  have plain := requestLinesPlain clean body method
  have closes : Closes (asBytes (requestText method host path headers body)) :=
    textCloses (by simp [requestLines]) fun l mem => ⟨(plain l mem).1,positionAbsent (plain l mem).2.1⟩
  obtain ⟨w,items,parsed⟩ := parseFromText clean body method few (body.getD [])
  refine ⟨⟨method,path,versionText,w,body.getD []⟩,?_,rfl,rfl,rfl,?_,rfl⟩
  · rw [buildReqBlock built, tryFromBlock _ closes, fromUtf8AsBytes, Outcome.ofOptionSome,
      Outcome.okBind, parsed]
  · rw [items, requestFields, autoLengthIf]
    rfl

theorem tryFromBuildReqPost :
    let headers : List HttpHeader := [⟨"X-Id".toList,"a b".toList⟩]
    let head := asBytes
      "POST /x HTTP/1.1\r\nHost: h\r\nX-Id: a b\r\nContent-Length: 2\r\nConnection: close\r\n\r\n".toList
    let body := asBytes "hi".toList
    ∃ q, HttpRequest.tryFrom (head ++ body) = .ok q ∧ q.method = .POST ∧ q.path = "/x".toList ∧
      q.version = "HTTP/1.1".toList ∧
      q.headers.items = ⟨"Host".toList,"h".toList⟩ :: headers ++
        (if !carriesLength headers then [⟨"Content-Length".toList,decimal 2⟩] else []) ++
        [⟨"Connection".toList,"close".toList⟩] ∧
      q.body = body := by
  rw [show
    "POST /x HTTP/1.1\r\nHost: h\r\nX-Id: a b\r\nContent-Length: 2\r\nConnection: close\r\n\r\n".toList =
      _ from
    String.toList_ofList]
  intro headers head body
  exact tryFromBuildReq 128 .POST "h".toList "/x".toList headers (some body) (by decide +kernel)
    (by decide +kernel)
    ⟨head,by decide +kernel⟩ (by decide +kernel)

end Nanofish.RequestRoundTrip

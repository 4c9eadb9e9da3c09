import Nanofish.Heads
import Nanofish.RequestRoundTrip

/-! The two messages of an exchange, each from the caller's values to what the other
side makes of them: its bytes, how a reader frames them, and what its parser returns. -/
namespace Nanofish.Messages
open Rust Rust.Utf8 Rust.Text Rust.Pattern
open Protocol Codes Response Codec HeaderBlock Parsing Client Request RequestFields RoundTrip
  RequestRoundTrip
open Heads

def lengthOf (t : Target) (fields : List HttpHeader) : Option Nat :=
  (fields.find? (isNamed contentLengthName)).bind fun h => fromStrRadix 10 t.usizeMax h.value

def codedOf (fields : List HttpHeader) : Bool := match fields.find? (isNamed transferEncoding) with
  | none => false
  | some h => (h.value.splitOn ',').any fun encoding => eqIgnoreAsciiCase (trim encoding) chunkedCoding

-- The length that the fields declare is the body's; without one there is no body.
def Counted (t : Target) (fields : List HttpHeader) (body : Bytes) : Prop :=
  lengthOf t fields = some body.length ∨ lengthOf t fields = none ∧ body = []
instance (t : Target) (fields : List HttpHeader) (body : Bytes) : Decidable (Counted t fields body) := by
  unfold Counted; infer_instance

section Head
variable {first : Str} {fields : List HttpHeader} (single : position ['\r','\n'] first = none)
  (readable : ∀ h ∈ fields, ReadableHeader h)
include single readable

theorem headFields {target : Str} (silent : lineValue target first = none) :
    findHeaderValue (joinPair '\r' '\n' (first :: fields.map headerLine)) target =
      (fields.find? (isNamed target)).map HttpHeader.value := by
  have found := headerLines (fields.map headerLine) target
  rw [linesRead readable] at found
  rw [findHeaderValue, headSplit single readable, List.findSome?_cons, silent, ← found]
  rfl

theorem headLength (t : Target) (silent : lineValue contentLengthName first = none) :
    contentLength t (asBytes (joinPair '\r' '\n' (first :: fields.map headerLine))) =
      lengthOf t fields := by
  simp only [contentLength, fromUtf8AsBytes, bind, Option.bind_some,
    headFields single readable silent, lengthOf, Option.bind_map]
  rfl

theorem headCoded (silent : lineValue transferEncoding first = none) :
    headChunked (asBytes (joinPair '\r' '\n' (first :: fields.map headerLine))) = codedOf fields := by
  simp only [headChunked, fromUtf8AsBytes, headFields single readable silent, codedOf]
  cases fields.find? (isNamed transferEncoding) <;> rfl

end Head

def requestWire (req : HttpClientRequest) : Bytes :=
  Block (asBytes (requestText req.method req.host req.path req.headers req.body)) (req.body.getD [])

def fieldsSent (req : HttpClientRequest) : List HttpHeader := requestFields req.host req.headers req.body

def delivered (req : HttpClientRequest) : HttpRequest :=
  ⟨req.method,req.path,versionText,⟨(fieldsSent req).take maxHeaders,List.length_take_le _ _⟩,
    req.body.getD []⟩

/- A request whose own fields can be read back and tell the truth about its body. -/
structure Sendable (t : Target) (req : HttpClientRequest) : Prop where
  clean : CleanRequest req.host req.path req.headers
  few : (fieldsSent req).length ≤ maxHeaders
  counted : Counted t (fieldsSent req) (req.body.getD [])

instance (t : Target) (req : HttpClientRequest) : Decidable (Sendable t req) :=
  decidable_of_iff (CleanRequest req.host req.path req.headers ∧ (fieldsSent req).length ≤ maxHeaders ∧
      Counted t (fieldsSent req) (req.body.getD [])) ⟨fun ⟨c,f,n⟩ => ⟨c,f,n⟩,fun ⟨c,f,n⟩ => ⟨c,f,n⟩⟩

theorem parseFieldsMany {headers : List HttpHeader} (plain : ∀ h ∈ headers, CleanHeader h)
    (v : Vec HttpHeader maxHeaders) (many : maxHeaders < v.items.length + headers.length) :
    parseFields (headers.map headerLine) v = .err (.invalidResponse "Too many headers") := by
  have fits := v.fits
  induction headers generalizing v with
  | nil =>
    rw [List.length_nil] at many
    omega
  | cons header headers ih =>
    have own := plain header List.mem_cons_self
    have solid := (headerLinePlain own).1
    simp only [List.map_cons, parseFields, solid, if_false, splitFieldExact,
      headerLineRead (cleanReadable own), Outcome.okBind]
    cases pushed : v.push header with
    | none => rfl
    | some u =>
      have items : u.items = v.items ++ [header] := Vec.extendSome.mp pushed
      have more : maxHeaders < u.items.length + headers.length := by
        rw [items, List.length_append, List.length_singleton]
        rw [List.length_cons] at many
        omega
      exact ih (fun h mem => plain h (List.mem_cons_of_mem header mem)) u more u.fits

section Request
variable {req : HttpClientRequest} (clean : CleanRequest req.host req.path req.headers)
include clean

theorem requestCloses :
    Closes (asBytes (requestText req.method req.host req.path req.headers req.body)) := by
  have plain := requestLinesPlain clean req.body req.method
  exact textCloses (by simp [requestLines]) fun l mem =>
    ⟨(plain l mem).1,positionAbsent (plain l mem).2.1⟩

theorem requestLength (t : Target) :
    contentLength t (asBytes (requestText req.method req.host req.path req.headers req.body)) =
      lengthOf t (fieldsSent req) := by
  have word : (splitWhitespace (requestLine req.method req.path))[0]? = some req.method.asStr := by
    rw [requestLineWords req.method clean.pathSome clean.pathSolid]
    rfl
  exact headLength (positionAbsent (requestLinePlain req.method clean.pathSolid (by decide) (by decide)))
    (fun h mem => cleanReadable (requestFieldsClean clean req.body h mem)) t (requestLineLength word)

theorem tryFromWire (few : (fieldsSent req).length ≤ maxHeaders) :
    HttpRequest.tryFrom (requestWire req) = .ok (delivered req) := by
  obtain ⟨w,items,parsed⟩ := parseFromText clean req.body req.method few (req.body.getD [])
  have whole : w = ⟨(fieldsSent req).take maxHeaders,List.length_take_le _ _⟩ :=
    Vec.ext (items.trans (List.take_of_length_le few).symm)
  rw [requestWire, tryFromBlock _ (requestCloses clean), fromUtf8AsBytes, Outcome.ofOptionSome,
    Outcome.okBind, parsed, whole]
  rfl

theorem tryFromMany (many : maxHeaders < (fieldsSent req).length) :
    HttpRequest.tryFrom (requestWire req) = .err (.invalidResponse "Too many headers") := by
  have plain := requestLinesPlain clean req.body req.method
  have text : lines (requestText req.method req.host req.path req.headers req.body) =
      requestLines req.method req.host req.path req.headers req.body :=
    linesJoined fun l mem => ⟨(plain l mem).1,(plain l mem).2.2⟩
  have refused :=
    parseFieldsMany (requestFieldsClean clean req.body) Vec.new
      (by simpa [Vec.new,fieldsSent] using many)
  rw [requestWire, tryFromBlock _ (requestCloses clean), fromUtf8AsBytes, Outcome.ofOptionSome,
    Outcome.okBind, HttpRequest.parseFrom, text]
  simp only [requestLines, requestLineWords req.method clean.pathSome clean.pathSolid,
    List.getElem?_cons_zero,
    List.getElem?_cons_succ, Outcome.ofOptionSome, Outcome.okBind, methodTryFrom.mpr rfl, refused,
      Outcome.errBind]

end Request

theorem requestBuilt {RQ : Nat} {req : HttpClientRequest} {head : Vec UInt8 RQ}
    (built : buildReq RQ req.method req.host req.path req.headers req.body = .ok head) :
    head.items ++ req.body.getD [] = requestWire req := buildReqBlock built _

def responseWire (r : HttpResponse) : Bytes := Block (asBytes (headText r)) r.body.asBytes

/- What the client makes of a response: the status by its number, the fields on the
wire, and the body in the shape its type asks for. -/
def received (r : HttpResponse) : HttpResponse :=
  let fields := (emitted r).take maxHeaders
  ⟨.fromU16 r.statusCode.asU16,⟨fields,List.length_take_le _ _⟩,parseBody fields r.body.asBytes⟩

structure Answerable (t : Target) (r : HttpResponse) : Prop where
  clean : ∀ h ∈ r.headers.items, CleanHeader h
  some : 1 ≤ (emitted r).length
  counted : Counted t (emitted r) r.body.asBytes
  plain : codedOf (emitted r) = false

instance (t : Target) (r : HttpResponse) : Decidable (Answerable t r) :=
  decidable_of_iff ((∀ h ∈ r.headers.items, CleanHeader h) ∧ 1 ≤ (emitted r).length ∧
      Counted t (emitted r) r.body.asBytes ∧
      codedOf (emitted r) = false) ⟨fun ⟨c,s,n,p⟩ => ⟨c,s,n,p⟩,fun ⟨c,s,n,p⟩ => ⟨c,s,n,p⟩⟩

theorem statusFirstWord (r : HttpResponse) :
    (splitWhitespace (statusLine r))[0]? = some versionText := by
  obtain ⟨more,words⟩ :=
    statusWords (show decimal r.statusCode.asU16.toNat ≠ [] from Nat.toDigits_ne_nil)
    (fun _ mem => decimalPlain mem) r.statusCode.text
  rw [statusLine, words]
  rfl

theorem answerReadable {t : Target} {r : HttpResponse} (good : Answerable t r) :
    ∀ h ∈ r.headers.items, ReadableHeader h :=
  fun h mem => cleanReadable (good.clean h mem)

/- A head of the response's status and of any fields, and what is made of it and of a body
behind it. `build_bytes` and `build_head_bytes` differ in the fields. -/
def headWith (r : HttpResponse) (fields : List HttpHeader) : Str :=
  joinPair '\r' '\n' (statusLine r :: fields.map headerLine)

def readWith (r : HttpResponse) (fields : List HttpHeader) (body : Bytes) : HttpResponse :=
  ⟨.fromU16 r.statusCode.asU16,⟨fields.take maxHeaders,List.length_take_le _ _⟩,
    parseBody (fields.take maxHeaders) body⟩

section Fields
variable (r : HttpResponse) {fields : List HttpHeader} (readable : ∀ h ∈ fields, ReadableHeader h)
include readable

theorem headWithCloses : Closes (asBytes (headWith r fields)) :=
  headEnds (positionAbsent (statusLinePlain r).2) readable (statusLinePlain r).1

theorem headWithLength (t : Target) :
    contentLength t (asBytes (headWith r fields)) = lengthOf t fields :=
  headLength (positionAbsent (statusLinePlain r).2) readable t
    (lineValueFirstWord (statusFirstWord r) (by decide) (by decide))

theorem headWithCoded : headChunked (asBytes (headWith r fields)) = codedOf fields :=
  headCoded (positionAbsent (statusLinePlain r).2) readable
    (lineValueFirstWord (statusFirstWord r) (by decide) (by decide))

theorem headWithLines : splitCrlf (headWith r fields) = statusLine r :: fields.map headerLine :=
  headSplit (positionAbsent (statusLinePlain r).2) readable

theorem parseRespWith (some : fields ≠ []) (body : Bytes) :
    parseResp (Block (asBytes (headWith r fields)) body) = .ok (readWith r fields body) := by
  have items : fieldsOf (fields.map headerLine) = ⟨fields.take maxHeaders,List.length_take_le _ _⟩ :=
    Vec.ext (congrArg (List.take maxHeaders) (linesRead readable))
  obtain ⟨h,hs,shape⟩ := List.exists_cons_of_ne_nil some
  have head : parseHead (headWith r fields) =
      .ok (.fromU16 r.statusCode.asU16,fieldsOf (fields.map headerLine)) := by
    rw [parseHead, headWithLines r readable, shape, List.map_cons]
    simp only [statusOfLine, Outcome.okBind]
  rw [parseRespBlock (headWithCloses r readable), fromUtf8AsBytes, Outcome.ofOptionSome,
    Outcome.okBind, head, items]
  rfl

end Fields

section Response
variable {r : HttpResponse} (readable : ∀ h ∈ r.headers.items, ReadableHeader h)
include readable

theorem responseCloses : Closes (asBytes (headText r)) := headWithCloses r (emittedReadable readable)

theorem responseLength (t : Target) : contentLength t (asBytes (headText r)) = lengthOf t (emitted r) :=
  headWithLength r (emittedReadable readable) t

theorem responseCoded : headChunked (asBytes (headText r)) = codedOf (emitted r) :=
  headWithCoded r (emittedReadable readable)

theorem parseRespWire (some : 1 ≤ (emitted r).length) : parseResp (responseWire r) = .ok (received r) :=
  parseRespWith r (emittedReadable readable) (List.length_pos_iff.mp some) r.body.asBytes

end Response
end Nanofish.Messages

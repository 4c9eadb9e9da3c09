import Nanofish.Deliveries

/-! Replies that are passed on: what the client's parser made of any bytes is written by
the server's serialiser, and parsed again by the next client. One passage brings a reply
into a form that no further one changes. -/
namespace Nanofish.Relay
open Rust Rust.Utf8 Rust.Text Rust.Pattern Rust.Reads
open Protocol Codes Response Codec HeaderBlock Parsing Client RoundTrip
open Messages Heads Exchanges Deliveries

def relay (N : Nat) (data : Bytes) : Outcome Error Bytes := do
  let r ← parseResp data
  let b ← r.buildBytes N
  .ok b.items

def hops (N : Nat) : Nat → Bytes → Outcome Error Bytes
  | 0, data => .ok data
  | n+1, data => do
    let data ← relay N data
    hops N n data

/- What the parser gives: a status it knows by its number, and a body in the shape its
fields ask for. -/
structure Canonical (r : HttpResponse) : Prop where
  status : r.statusCode = .fromU16 r.statusCode.asU16
  body : r.body = parseBody r.headers.items r.body.asBytes

theorem canonicalOf {code : UInt16} {headers : Vec HttpHeader maxHeaders} {data : Bytes} :
    Canonical ⟨.fromU16 code,headers,parseBody headers.items data⟩ :=
  ⟨by rw [asU16FromU16],by rw [parseBodyBytes]⟩

theorem statusKnown {line : Str} {status : StatusCode} (ok : statusOf line = .ok status) :
    ∃ code, status = .fromU16 code := by
  rcases statusOfCases line with ⟨code,found,_⟩ | ⟨e,failed,_⟩
  · exact ⟨_,Outcome.ok.inj (ok.symm.trans found)⟩
  · rw [failed] at ok
    contradiction

theorem parsedCanonical {data : Bytes} {r : HttpResponse} (parsed : parseResp data = .ok r) :
    Canonical r := by
  cases found : findDoubleCrlf data with
  | none =>
    rw [parseRespOpen found] at parsed
    contradiction
  | some pos =>
    obtain ⟨closes,_,whole⟩ := blockOf found
    rw [whole, parseRespBlock closes] at parsed
    obtain ⟨s,_,parsed⟩ := Outcome.bindOk.mp parsed
    obtain ⟨⟨status,headers⟩,head,built⟩ := Outcome.bindOk.mp parsed
    cases built
    suffices known : ∃ code, status = .fromU16 code by
      obtain ⟨code,rfl⟩ := known
      exact canonicalOf
    unfold parseHead at head
    split at head
    · contradiction
    · obtain ⟨_,_,never⟩ := Outcome.bindOk.mp head
      contradiction
    · obtain ⟨_,ok,same⟩ := Outcome.bindOk.mp head
      cases same
      exact statusKnown ok

/- The length line is added once: a response that was received carries it, or had no
room for it and adds it again. -/
theorem emittedReceived (r : HttpResponse) : emitted (received r) = emitted r := by
  have body : (received r).body.asBytes = r.body.asBytes := parseBodyBytes _ _
  have fits := r.headers.fits
  have items : (received r).headers.items = (emitted r).take maxHeaders := rfl
  by_cases adds : (!carriesLength r.headers.items && !r.body.asBytes.isEmpty) = true
  · have grown : emitted r = r.headers.items ++
      [⟨contentLengthName,decimal r.body.asBytes.length⟩] := if_pos adds
    by_cases full : r.headers.items.length = maxHeaders
    · have own : (received r).headers.items = r.headers.items := by
        rw [items, grown, List.take_append_of_le_length (Nat.le_of_eq full.symm),
          List.take_of_length_le fits]
      rw [emitted, own, body, if_pos adds, grown]
    · have all : (received r).headers.items = emitted r := by
        rw [items, List.take_of_length_le]
        rw [grown, List.length_append, List.length_singleton]
        omega
      have carried : carriesLength (emitted r) = true := by
        rw [grown, carriesLength, List.any_append, Bool.or_eq_true]
        exact .inr rfl
      rw [emitted, all, carried]
      rfl
  · have same : emitted r = r.headers.items := if_neg adds
    have own : (received r).headers.items = r.headers.items := by
      rw [items, same, List.take_of_length_le fits]
    rw [emitted, own, body, if_neg adds, same]

structure Kept (r kept : HttpResponse) : Prop where
  status : kept.statusCode = r.statusCode
  fields : kept.headers.items = (emitted r).take maxHeaders
  body : kept.body = r.body
  lookup : ∀ name, eqIgnoreAsciiCase contentLengthName name = false →
    kept.getHeader name = r.getHeader name

theorem receivedKept {r : HttpResponse} (canonical : Canonical r) : Kept r (received r) where
  status := canonical.status.symm
  fields := rfl
  body := by
    have type : contentType ((emitted r).take maxHeaders) = contentType r.headers.items :=
      emittedLookup r (by decide)
    rw [canonical.body, received]
    simp only [parseBody, type]
  lookup _ other := emittedLookup r other

theorem receivedLines {r : HttpResponse} (canonical : Canonical r) :
    headLines (received r) = headLines r := by
  have status := (receivedKept canonical).status
  rw [headLines, headLines, emittedReceived, statusLine, statusLine, status]

theorem receivedAdds {r : HttpResponse} (adds : addsLength (received r) true = true) :
    addsLength r true = true := by
  cases own : addsLength r true with
  | true => rfl
  | false =>
    have body : (received r).body.asBytes = r.body.asBytes := parseBodyBytes _ _
    have same : emitted r = r.headers.items := writtenOwn own
    have items : (received r).headers.items = r.headers.items := by
      rw [show (received r).headers.items = (emitted r).take maxHeaders from rfl, same,
        List.take_of_length_le r.headers.fits]
    rw [addsLength, items, body] at adds
    exact own.symm.trans adds

theorem receivedBuilt {N : Nat} {r : HttpResponse} (canonical : Canonical r) {b : Vec UInt8 N}
    (built : r.buildBytes N = .ok b) :
    (received r).buildBytes N = .ok b := by
  have short (adds : addsLength r true = true) : r.body.asBytes.length < 10 ^ scratchDigits := by
    obtain ⟨head,written,_⟩ := Outcome.bindOk.mp built
    exact writeHeadShort written adds
  have body : (received r).body.asBytes = r.body.asBytes := parseBodyBytes _ _
  rw [← built, buildBytesFitted N short, buildBytesFitted N fun adds =>
    by rw [body]; exact short (receivedAdds adds), receivedLines canonical, body]

section Passed
variable {N : Nat} {r : HttpResponse} (readable : ∀ h ∈ r.headers.items, ReadableHeader h)
  {b : Vec UInt8 N}
  (built : r.buildBytes N = .ok b)
include readable built

theorem passedParses (some : emitted r ≠ []) : parseResp b.items = .ok (received r) := by
  rw [show b.items = responseWire r from buildBytesBlock built]
  exact parseRespWire readable (List.length_pos_iff.mpr some)

theorem passedPanics (none : emitted r = []) : parseResp b.items = .panic := by
  have lines : splitCrlf (headText r) = [statusLine r] := by
    rw [headText, headLines, none, ← headWith, headWithLines r (by simp), List.map_nil]
  rw [show b.items = responseWire r from buildBytesBlock built, responseWire,
    parseRespBlock (responseCloses readable),
    fromUtf8AsBytes, Outcome.ofOptionSome, Outcome.okBind, parseHead, lines]
  simp only [statusOfLine, Outcome.okBind, Outcome.panicBind]

theorem relayFixed (canonical : Canonical r) (some : emitted r ≠ []) :
    relay N b.items = .ok b.items := by
  rw [relay, passedParses readable built some, Outcome.okBind, receivedBuilt canonical built]
  rfl

end Passed

theorem hopsFixed {N : Nat} {data : Bytes} (fixed : relay N data = .ok data) (n : Nat) :
    hops N n data = .ok data := by
  induction n with
  | zero => rfl
  | succ n ih => rw [hops, fixed, Outcome.okBind, ih]

theorem relayNormal (N : Nat) (data out : Bytes) (passed : relay N data = .ok out) :
    ∃ r, parseResp data = .ok r ∧
      (emitted r = [] → parseResp out = .panic) ∧
      (emitted r ≠ [] →
        (∃ kept, parseResp out = .ok kept ∧ Kept r kept) ∧ ∀ n, hops N n out = .ok out) := by
  obtain ⟨r,parsed,passed⟩ := Outcome.bindOk.mp passed
  obtain ⟨b,built,same⟩ := Outcome.bindOk.mp passed
  cases same
  have readable := parsedReadable parsed
  have canonical := parsedCanonical parsed
  refine ⟨r,parsed,passedPanics readable built,fun some =>
    ⟨⟨received r,passedParses readable built some,receivedKept canonical⟩,?_⟩⟩
  exact hopsFixed (relayFixed readable built canonical some)

def firstReply : Bytes := asBytes "HTTP/1.0 200 Fine\r\n a :1\r\n\r\nhi".toList
def passedReply : Bytes := asBytes "HTTP/1.1 200 OK\r\na: 1\r\nContent-Length: 2\r\n\r\nhi".toList
def firstResponse : HttpResponse := ⟨.ok,⟨[⟨"a".toList,"1".toList⟩],by decide⟩,.text "hi".toList⟩

theorem firstPassed : parseResp firstReply = .ok firstResponse ∧ relay 64 firstReply = .ok passedReply ∧
    emitted firstResponse ≠ [] := by
  simp only [firstReply, passedReply]
  repeat rw [String.toList_ofList]
  decide +kernel

theorem relayNormalFirst : hops 64 1000 passedReply = .ok passedReply := by
  obtain ⟨parsed,passed,some⟩ := firstPassed
  obtain ⟨r,found,_,kept⟩ := relayNormal 64 firstReply passedReply passed
  cases parsed.symm.trans found
  exact (kept some).2 1000

def Honest (t : Target) (r : HttpResponse) : Prop := Frames t (emitted r) r.body.asBytes

instance (t : Target) (r : HttpResponse) : Decidable (Honest t r) := by unfold Honest; infer_instance

example : ¬ Honest .bits32 ⟨.ok,⟨[⟨transferEncoding,chunkedCoding⟩],by decide⟩,
    .text "hi".toList⟩ := by decide +kernel

end Nanofish.Relay

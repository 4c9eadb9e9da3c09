import Nanofish.Messages
import Nanofish.Lengths
import Nanofish.Serving
import Nanofish.Transport

/-! A whole exchange: the client of this crate on one end of a connection, its server on
the other. What either end reads is a front of what the other has written; where the
connection is cut, into which reads the bytes fall and which reads fail is left open. -/
namespace Nanofish.Exchanges
open Rust Rust.Utf8 Rust.Reads
open Protocol Codes Response Codec HeaderBlock Parsing Client Request RoundTrip RequestRoundTrip
open Receiving Retries Sending Accepting Server Serving Transport Messages Heads

section Client
variable (t : Target)

section Front
variable (RQ maxRetries : Nat) (stream : Stream) (req : HttpClientRequest) (buffer : Bytes)

theorem requestFront : ∃ part, part <+: requestWire req ∧
    (requestWithRetryDelay t RQ maxRetries stream req buffer).written = stream.written ++ part := by
  unfold requestWithRetryDelay
  cases built : buildReq RQ req.method req.host req.path req.headers req.body with
  | ok head =>
    obtain ⟨part,front,wrote,_⟩ := sendFront stream head.items req.body
    rw [requestBuilt built] at front
    refine ⟨part,front,?_⟩
    rcases done : send stream head.items req.body with ⟨_ | _,u⟩
    · rw [done] at wrote
      simp only [done]
      exact wrote
    · rw [done] at wrote
      simp only [done]
      exact wrote
  | err e => exact ⟨[],List.nil_prefix,(List.append_nil _).symm⟩
  | panic => exact ⟨[],List.nil_prefix,(List.append_nil _).symm⟩
  | pending => exact ⟨[],List.nil_prefix,(List.append_nil _).symm⟩

end Front

variable {RQ maxRetries : Nat} {stream : Stream} {req : HttpClientRequest} {buffer : Bytes}

theorem requestDecodes {response : HttpResponse} {total : Nat}
    (ok : (requestWithRetryDelay t RQ maxRetries stream req buffer).result = .ok (response,total)) :
    decodeResponse t (readResponse t stream.reads buffer maxRetries) = .ok (response,total) := by
  have same : request t RQ maxRetries stream req buffer = .ok (response,total) := ok
  cases done : sent RQ stream req with
  | false =>
    obtain ⟨e,failed⟩ := requestUnsent t maxRetries stream req buffer done
    rw [failed] at same
    contradiction
  | true => rwa [requestSent t maxRetries stream req buffer done] at same

theorem settledWhole {r : HttpResponse} (good : Answerable t r) {d : Bytes}
    (start : d <+: responseWire r) (settled : Settled t d) {response : HttpResponse}
    (parsed : parseResp d = .ok response) : d = responseWire r := by
  have closes := responseCloses (answerReadable good)
  rcases blockPrefix closes start with ⟨_,inside⟩ | ⟨part,rfl,front⟩
  · rw [parseRespOpen inside] at parsed
    contradiction
  have coded := responseCoded (answerReadable good)
  have length := responseLength (answerReadable good) t
  rw [good.plain] at coded
  suffices whole : part = r.body.asBytes by rw [whole, responseWire]
  rcases settled with done | ⟨undeclared,_⟩
  · rw [completeBlock t closes, blockComplete, coded, length] at done
    rcases good.counted with counted | ⟨uncounted,none⟩
    · rw [counted] at done
      exact front.eq_of_length_le (of_decide_eq_true done)
    · rw [uncounted] at done
      contradiction
  · rw [declaresBlock t closes, coded, length] at undeclared
    rcases good.counted with counted | ⟨uncounted,none⟩
    · rw [counted] at undeclared
      contradiction
    · rw [none] at front ⊢
      exact List.prefix_nil.mp front

theorem plainFront {r : HttpResponse} (good : Answerable t r) {d : Bytes}
    (start : d <+: responseWire r) : chunked d = false := by
  have closes := responseCloses (answerReadable good)
  rcases blockPrefix closes start with ⟨_,inside⟩ | ⟨part,rfl,_⟩
  · exact chunkedOpen inside
  · rw [chunkedBlock closes, responseCoded (answerReadable good), good.plain]

theorem responseKept {r : HttpResponse} (good : Answerable t r)
    (arrives : arrived stream.reads <+: responseWire r) {response : HttpResponse} {total : Nat}
    (ok : (requestWithRetryDelay t RQ maxRetries stream req buffer).result = .ok (response,total)) :
    response = received r ∧ total = (responseWire r).length ∧
    responseWire r <+: arrived stream.reads := by
  have decodes := requestDecodes t ok
  have reported := responseReported t buffer stream.reads maxRetries
  generalize readResponse t stream.reads buffer maxRetries = run at decodes reported
  obtain ⟨result,held,delays⟩ := run
  cases result with
  | err e => contradiction
  | panic => contradiction
  | pending => contradiction
  | ok n =>
    obtain ⟨d,rfl,rfl,bound,start,settled⟩ := reported n rfl
    have front := start.trans arrives
    rw [decodePlain t buffer (plainFront t good front) bound] at decodes
    obtain ⟨found,parsed,same⟩ := Outcome.bindOk.mp decodes
    cases same
    obtain rfl := settledWhole t good front settled parsed
    rw [parseRespWire (answerReadable good) good.some] at parsed
    exact ⟨(Outcome.ok.inj parsed).symm,rfl,start⟩

end Client

section Server
variable (t : Target) {REQ_SIZE : Nat} (real : REQ_SIZE ≤ t.isizeMax) {req : HttpClientRequest}

theorem frameWire (clean : CleanRequest req.host req.path req.headers)
    (counted : Counted t (fieldsSent req) (req.body.getD [])) :
    frameEnd t (requestWire req) = some (requestWire req).length := by
  have length := requestLength clean t
  have body : declaredLength t
      (asBytes (RequestRoundTrip.requestText req.method req.host req.path req.headers req.body)) =
      (req.body.getD []).length := by
    rw [declaredLength, length]
    rcases counted with counted | ⟨uncounted,none⟩
    · rw [counted, Option.getD_some]
    · rw [uncounted, none]
      rfl
  rw [requestWire, frameEndBlock t (requestCloses clean), body, blockLength]

variable (good : Sendable t req)
include good real

theorem acceptedDelivered {stream : Stream} (arrives : arrived stream.reads <+: requestWire req)
    {q : HttpRequest} (ok : accepted t REQ_SIZE stream = .ok q) : q = delivered req := by
  obtain ⟨total,read,parsed⟩ := acceptedSource t REQ_SIZE stream ok
  obtain ⟨d,run,rfl,_,start,done⟩ := requestReported t
    (show (List.replicate REQ_SIZE (0 : UInt8)).length ≤ t.isizeMax by rwa [List.length_replicate])
    stream.reads read
  have front := start.trans arrives
  rw [framedStream t front, frameWire t good.clean good.counted] at done
  obtain rfl := front.eq_of_length_le (of_decide_eq_true done)
  rw [run, filledTake, tryFromWire good.clean good.few] at parsed
  exact (Outcome.ok.inj parsed).symm

end Server

section Served
variable {σ : Type} (MAX_RESPONSE_SIZE : Nat) (handler : Handler σ) (state : σ) (stream : Stream)

theorem servedAccepted (t : Target) {REQ_SIZE : Nat} {q : HttpRequest}
    (ok : accepted t REQ_SIZE stream = .ok q) :
    handleHttpConnectionWithSizes t REQ_SIZE MAX_RESPONSE_SIZE handler state stream =
      reply MAX_RESPONSE_SIZE handler state stream q := by
  rw [servedExact, ok]

theorem replyFront (q : HttpRequest) : ∃ part, part <+: responseWire (answer (handler state q).1) ∧
    (reply MAX_RESPONSE_SIZE handler state stream q).written = stream.written ++ part ∧
    ((reply MAX_RESPONSE_SIZE handler state stream q).result = .ok () →
      part = responseWire (answer (handler state q).1)) := by
  by_cases some : ∃ b, (answer (handler state q).1).buildBytes MAX_RESPONSE_SIZE = .ok b
  · obtain ⟨b,built⟩ := some
    obtain ⟨part,front,wrote,whole,_⟩ := replyBuilt MAX_RESPONSE_SIZE handler state stream built
    rw [buildBytesBlock built] at front whole
    exact ⟨part,front,wrote,whole⟩
  · obtain ⟨kept,failed⟩ :=
      replyUnbuilt MAX_RESPONSE_SIZE handler state stream fun b built => some ⟨b,built⟩
    exact ⟨[],List.nil_prefix,kept.trans (List.append_nil _).symm,fun done => absurd done failed⟩

end Served

theorem exchangeSafe (t : Target) {σ : Type} (RQ maxRetries REQ_SIZE MAX_RESPONSE_SIZE : Nat)
    (real : REQ_SIZE ≤ t.isizeMax) (handler : Handler σ) (state : σ) (req : HttpClientRequest)
    (good : Sendable t req) (able : Answerable t (answer (handler state (delivered req)).1))
    (near far : Stream) (buffer : Bytes) (fresh : near.written = [] ∧ far.written = []) :
    let run := requestWithRetryDelay t RQ maxRetries near req buffer
    let served := handleHttpConnectionWithSizes t REQ_SIZE MAX_RESPONSE_SIZE handler state far
    arrived far.reads <+: run.written → arrived near.reads <+: served.written →
    (served.handled = [] ∨ served.handled = [delivered req]) ∧
    ∀ response total, run.result = .ok (response,total) → served.handled = [delivered req] ∧
      response = received (answer (handler state (delivered req)).1) ∧
      total = (responseWire (answer (handler state (delivered req)).1)).length := by
  intro run served up down
  obtain ⟨part,front,wrote⟩ := requestFront t RQ maxRetries near req buffer
  have arrives : arrived far.reads <+: requestWire req := by
    rw [fresh.1, List.nil_append] at wrote
    exact up.trans (wrote ▸ front)
  by_cases some : ∃ q, accepted t REQ_SIZE far = .ok q
  · obtain ⟨q,ok⟩ := some
    obtain rfl := acceptedDelivered t real good arrives ok
    have whole : served = reply MAX_RESPONSE_SIZE handler state far (delivered req) :=
      servedAccepted MAX_RESPONSE_SIZE handler state far t ok
    have handled := replyHandled MAX_RESPONSE_SIZE handler state far (delivered req)
    rw [whole, handled]
    refine ⟨.inr rfl,fun response total ok => ⟨rfl,?_⟩⟩
    obtain ⟨part,front,wrote,_⟩ := replyFront MAX_RESPONSE_SIZE handler state far (delivered req)
    rw [fresh.2, List.nil_append] at wrote
    rw [whole, wrote] at down
    obtain ⟨same,size,_⟩ := responseKept t able (down.trans front) ok
    exact ⟨same,size⟩
  · obtain ⟨handled,_,kept⟩ :=
      servedNone t REQ_SIZE MAX_RESPONSE_SIZE handler state far fun q ok => some ⟨q,ok⟩
    have silent : served.written = [] := kept.trans fresh.2
    refine ⟨.inl handled,fun response total ok => ?_⟩
    -- Nothing was written back, so there was nothing to read.
    rw [silent] at down
    have none : arrived near.reads = [] := List.prefix_nil.mp down
    obtain ⟨_,_,came⟩ := responseKept t able (none ▸ List.nil_prefix) ok
    rw [none] at came
    exact absurd (List.prefix_nil.mp came) (blockNe _ _)

section Delivery
variable (t : Target)

theorem errorsMetFew (cap : Nat) (events : List (ReadEvent UInt8)) (held : Bytes) :
    errorsMet t cap held events ≤ events.count .fault := by
  induction events generalizing held with
  | nil => exact Nat.le_refl _
  | cons event rest ih =>
    unfold errorsMet
    split
    · cases event with
      | fault =>
        rw [List.count_cons_self]
        exact Nat.succ_le_succ (ih held)
      | close => exact Nat.zero_le _
      | data fragment =>
        rw [List.count_cons_of_ne (by simp)]
        simp only
        split
        · exact Nat.zero_le _
        · split
          · exact Nat.zero_le _
          · exact ih _
    · exact Nat.zero_le _

theorem responseCalm {maxRetries : Nat} {events : List (ReadEvent UInt8)}
    (few : events.count .fault < maxRetries) (buffer : Bytes) :
    decodeResponse t (readResponse t events buffer maxRetries) =
      decodeResponse t (readResponse t (calm events) buffer maxRetries) := by
  have tries : 0 < maxRetries := by omega
  have met := errorsMetFew t buffer.length events []
  obtain ⟨goes,_⟩ :=
    loopSimulates t buffer tries events
      (show ([] : Bytes).length ≤ buffer.length from Nat.zero_le _) tries 0
  have same : readResponse t events buffer maxRetries =
      { readResponse t (calm events) buffer maxRetries with
        delays := 0 + errorsMet t buffer.length [] events } := goes (by omega)
  rw [same]
  rfl

theorem loopSilent {events : List (ReadEvent UInt8)} (silent : arrived events = [])
    (ends : calm events ≠ []) (buffer : Bytes) {retries : Nat} (few : events.count .fault < retries)
    (delays : Nat) :
    (readLoop t events (holding buffer [] retries delays)).result = .err .noResponse := by
  have bound : ([] : Bytes).length ≤ buffer.length := Nat.zero_le _
  induction events generalizing retries delays with
  | nil => contradiction
  | cons event rest ih =>
    have tries : 0 < retries := by omega
    by_cases room : ([] : Bytes).length < buffer.length
    · cases event with
      | fault =>
        rw [List.count_cons_self] at few
        have skipped : calm (.fault :: rest) = calm rest := List.filter_cons_of_neg (by simp)
        rw [loopFault t buffer tries delays rest room, if_neg (by omega)]
        exact ih silent (skipped ▸ ends) (by omega) (delays + 1)
      | close =>
        rw [loopClose t buffer tries delays rest room, readEndHolding]
        rfl
      | data fragment =>
        by_cases empty : fragment = []
        · rw [empty, loopEmpty t buffer tries delays rest room, readEndHolding]
          rfl
        · rw [arrivedFragment empty] at silent
          exact absurd (List.append_eq_nil_iff.mp silent).1 empty
    · rw [loopEnd t buffer room _ bound, readEndHolding]
      rfl

/- Every client that gets these bytes, in whichever reads and with retries left, returns
this response. -/
def Delivered (response : HttpResponse) (wire : Bytes) : Prop :=
  ∀ (RQ maxRetries : Nat) (stream : Stream) (req : HttpClientRequest) (buffer : Bytes)
    (reads : List Bytes)
    (tail : List (ReadEvent UInt8)), sent RQ stream req = true → (∀ p ∈ reads, p ≠ []) →
    reads.flatten = wire → calm stream.reads = reads.map ReadEvent.data ++ .close :: tail →
    stream.reads.count .fault < maxRetries →
    wire.length < buffer.length → request t RQ maxRetries stream req buffer = .ok (response,wire.length)

section Reply
variable (r : HttpResponse) {fields : List HttpHeader} (readable : ∀ h ∈ fields, ReadableHeader h)
  (plain : codedOf fields = false)
  {body : Bytes} (framed : lengthOf t fields = some body.length ∨ lengthOf t fields = none)
include readable plain framed

theorem replyRead {maxRetries : Nat} (tries : 0 < maxRetries) {reads : List Bytes}
    (nonempty : ∀ p ∈ reads, p ≠ [])
    (whole : reads.flatten = Block (asBytes (headWith r fields)) body)
    (tail : List (ReadEvent UInt8)) {buffer : Bytes}
    (room : (Block (asBytes (headWith r fields)) body).length < buffer.length) :
    readResponse t (reads.map ReadEvent.data ++ .close :: tail) buffer maxRetries =
      ⟨.ok (Block (asBytes (headWith r fields)) body).length,
        filled buffer (Block (asBytes (headWith r fields)) body),0⟩ := by
  have closes := headWithCloses r readable
  have coded : headChunked (asBytes (headWith r fields)) = false :=
    (headWithCoded r readable).trans plain
  have length := headWithLength r readable t
  rcases framed with counted | uncounted
  · exact Lengths.countedWhole t buffer closes coded tries nonempty _ (length.trans counted) whole
      (Nat.le_of_lt room)
  · exact Lengths.closedWhole t buffer closes coded tries nonempty tail
      (length.trans uncounted) whole room

theorem replyDelivered (some : fields ≠ []) :
    Delivered t (readWith r fields body) (Block (asBytes (headWith r fields)) body) := by
  have coded : chunked (Block (asBytes (headWith r fields)) body) = false := by
    rw [chunkedBlock (headWithCloses r readable), headWithCoded r readable, plain]
  intro RQ maxRetries stream req buffer reads tail done nonempty whole script few room
  rw [requestSent t maxRetries stream req buffer done, responseCalm t few, script,
    replyRead t r readable plain framed (by omega) nonempty whole tail room,
    decodePlain t buffer coded (Nat.le_of_lt room), parseRespWith r readable some]
  rfl

end Reply

theorem responseDelivered {r : HttpResponse} (good : Answerable t r) :
    Delivered t (received r) (responseWire r) :=
  replyDelivered t r (emittedReadable (answerReadable good)) good.plain
    (good.counted.imp id And.left) (List.length_pos_iff.mp good.some)

variable {REQ_SIZE : Nat} (real : REQ_SIZE ≤ t.isizeMax) {req : HttpClientRequest}
  (clean : CleanRequest req.host req.path req.headers)
  (counted : Counted t (fieldsSent req) (req.body.getD [])) {up : List Bytes}
  (nonempty : ∀ p ∈ up, p ≠ [])
  (whole : up.flatten = requestWire req) {stream : Stream} {behind : List (ReadEvent UInt8)}
  (script : stream.reads = up.map ReadEvent.data ++ behind)
include real clean counted nonempty whole script

theorem requestArrives (room : (requestWire req).length ≤ REQ_SIZE) :
    accepted t REQ_SIZE stream = HttpRequest.tryFrom (requestWire req) := by
  have size : (List.replicate REQ_SIZE (0 : UInt8)).length = REQ_SIZE := List.length_replicate
  obtain ⟨d,hit,_,start,long,_⟩ := hitWhole t (frameWire t clean counted) (Nat.le_refl _) room whole
  obtain rfl := start.eq_of_length_le long
  have run := requestHit t (size.symm ▸ real) nonempty behind (by rwa [size])
  have fits : (requestWire req).length ≤
      (filled (List.replicate REQ_SIZE 0) (requestWire req)).length := by
    rwa [filledLength (by rwa [size]), size]
  rw [accepted, script, run, Outcome.okBind, sliceToFits fits, filledTake, Outcome.okBind]

theorem requestOverflows (small : REQ_SIZE < (requestWire req).length) :
    accepted t REQ_SIZE stream = .err .bufferOverflow := by
  have size : (List.replicate REQ_SIZE (0 : UInt8)).length = REQ_SIZE := List.length_replicate
  have miss := missFrame t REQ_SIZE (prefixOfEq whole) fun n same => .inl (by
    rw [frameWire t clean counted, Option.some.injEq] at same
    omega)
  have full := requestFull t (size.symm ▸ real) nonempty behind (by rwa [size])
    (by rw [size, whole]; omega)
  rw [accepted, script, full, Outcome.errBind]

end Delivery

section Live
variable (t : Target) {req : HttpClientRequest} (good : Sendable t req)

include good in
theorem servedLive {σ : Type} {REQ_SIZE MAX_RESPONSE_SIZE : Nat} (real : REQ_SIZE ≤ t.isizeMax)
    (handler : Handler σ) (state : σ) {far : Stream} (clear : ∀ w ∈ far.writes, w = .accept)
    {up : List Bytes} (nonempty : ∀ p ∈ up, p ≠ []) (whole : up.flatten = requestWire req)
    {behind : List (ReadEvent UInt8)} (script : far.reads = up.map ReadEvent.data ++ behind)
    (room : (requestWire req).length ≤ REQ_SIZE) {b : Vec UInt8 MAX_RESPONSE_SIZE}
    (answered : (answer (handler state (delivered req)).1).buildBytes MAX_RESPONSE_SIZE = .ok b) :
    handleHttpConnectionWithSizes t REQ_SIZE MAX_RESPONSE_SIZE handler state far =
      ⟨.ok (),[delivered req],far.written ++ b.items⟩ := by
  obtain ⟨rest,wrote⟩ := sendClear far clear b.items none
  have accept := requestArrives t real good.clean good.counted nonempty whole script room
  rw [tryFromWire good.clean good.few] at accept
  rw [servedAccepted MAX_RESPONSE_SIZE handler state far t accept, reply, answered]
  simp only [wrote, Option.getD_none, List.append_nil]

theorem requestLive {RQ maxRetries : Nat} {near : Stream} {buffer : Bytes}
    (clear : ∀ w ∈ near.writes, w = .accept) {head : Vec UInt8 RQ}
    (built : buildReq RQ req.method req.host req.path req.headers req.body = .ok head)
    {r : HttpResponse} (able : Answerable t r) (room : (responseWire r).length < buffer.length)
    {down : List Bytes} (nonempty : ∀ p ∈ down, p ≠ []) (whole : down.flatten = responseWire r)
    {later : List (ReadEvent UInt8)}
    (script : calm near.reads = down.map ReadEvent.data ++ .close :: later)
    (few : near.reads.count .fault < maxRetries) :
    let run := requestWithRetryDelay t RQ maxRetries near req buffer
    run.written = near.written ++ requestWire req ∧
    run.result = .ok (received r,(responseWire r).length) := by
  intro run
  have done : sent RQ near req = true := by
    obtain ⟨rest,wrote⟩ := sendClear near clear head.items req.body
    simp only [sent, built, wrote]
  refine ⟨?_,?_⟩
  · rw [exchangeWritten t RQ maxRetries near req buffer clear built, List.append_assoc,
      requestBuilt built]
  · exact responseDelivered t able RQ maxRetries near req buffer down later done nonempty whole
      script few room

end Live

theorem exchangeRefused (t : Target) {σ : Type} (RQ maxRetries REQ_SIZE MAX_RESPONSE_SIZE : Nat)
    (real : REQ_SIZE ≤ t.isizeMax) (handler : Handler σ) (state : σ) (req : HttpClientRequest)
    (clean : CleanRequest req.host req.path req.headers)
    (counted : Counted t (fieldsSent req) (req.body.getD [])) (near far : Stream) (buffer : Bytes)
    (fresh : far.written = []) (up : List Bytes) (nonempty : ∀ p ∈ up, p ≠ [])
    (whole : up.flatten = requestWire req) (behind : List (ReadEvent UInt8))
    (script : far.reads = up.map ReadEvent.data ++ behind) :
    let served := handleHttpConnectionWithSizes t REQ_SIZE MAX_RESPONSE_SIZE handler state far
    let large := REQ_SIZE < (requestWire req).length
    let many := maxHeaders < (fieldsSent req).length
    let unwritable :=
      ∀ b, (answer (handler state (delivered req)).1).buildBytes MAX_RESPONSE_SIZE ≠ .ok b
    (large → served = ⟨.err .bufferOverflow,[],[]⟩) ∧
    (¬ large → many → served = ⟨.err (.invalidResponse "Too many headers"),[],[]⟩) ∧
    (¬ large → ¬ many → unwritable → served.handled = [delivered req] ∧ served.result ≠ .ok () ∧
      served.written = []) ∧
    (large ∨ many ∨ unwritable → sent RQ near req = true → arrived near.reads <+: served.written →
      calm near.reads ≠ [] → near.reads.count .fault < maxRetries →
        request t RQ maxRetries near req buffer = .err .noResponse) := by
  intro served large many unwritable
  have first : large → served = ⟨.err .bufferOverflow,[],[]⟩ := by
    intro small
    have overflows := requestOverflows t real clean counted nonempty whole script small
    simp only [served, servedExact, overflows, fresh]
  have second : ¬ large → many → served = ⟨.err (.invalidResponse "Too many headers"),[],[]⟩ := by
    intro fits full
    have refused := requestArrives t real clean counted nonempty whole script (Nat.le_of_not_lt fits)
    rw [tryFromMany clean full] at refused
    simp only [served, servedExact, refused, fresh]
  have third : ¬ large → ¬ many → unwritable →
      served.handled = [delivered req] ∧ served.result ≠ .ok () ∧ served.written = [] := by
    intro fits few unbuilt
    have accept := requestArrives t real clean counted nonempty whole script (Nat.le_of_not_lt fits)
    rw [tryFromWire clean (Nat.le_of_not_lt few)] at accept
    have whole : served = _ := servedAccepted MAX_RESPONSE_SIZE handler state far t accept
    obtain ⟨kept,failed⟩ := replyUnbuilt MAX_RESPONSE_SIZE handler state far unbuilt
    rw [whole]
    exact ⟨replyHandled MAX_RESPONSE_SIZE handler state far _,failed,kept.trans fresh⟩
  refine ⟨first,second,third,fun refused done down ends few => ?_⟩
  have silent : served.written = [] := by
    by_cases wide : large
    · rw [first wide]
    · by_cases full : many
      · rw [second wide full]
      · exact (third wide full ((refused.resolve_left wide).resolve_left full)).2.2
  rw [silent] at down
  rw [requestSent t maxRetries near req buffer done]
  exact decodeFailed t (loopSilent t (List.prefix_nil.mp down) ends buffer few 0)

theorem exchangeRefusedFields :
    let req : HttpClientRequest :=
      ⟨.GET,"h".toList,"/".toList,List.replicate 15 ⟨"X".toList,"1".toList⟩,none⟩
    let far : Stream := ⟨[.data (requestWire req)],[],[]⟩
    let handler : Handler Nat := fun calls _ => (.error .tcpError,calls + 1)
    handleHttpConnectionWithSizes .bits32 256 128 handler 0 far =
      ⟨.err (.invalidResponse "Too many headers"),[],[]⟩ ∧
    request .bits32 256 2 ⟨[.fault,.close],[],[]⟩ req (List.replicate 8 0) = .err .noResponse := by
  intro req far handler
  obtain ⟨clean,counted,fits,many,some,done⟩ : CleanRequest req.host req.path req.headers ∧
      Counted .bits32 (fieldsSent req) (req.body.getD []) ∧ ¬ 256 < (requestWire req).length ∧
      maxHeaders < (fieldsSent req).length ∧ (∀ p ∈ [requestWire req], p ≠ []) ∧
      sent 256 ⟨[.fault,.close],[],[]⟩ req = true := by decide +kernel
  obtain ⟨_,second,_,client⟩ :=
    exchangeRefused .bits32 256 2 256 128 (by decide) handler 0 req clean counted
      ⟨[.fault,.close],[],[]⟩
    far (List.replicate 8 0) rfl [requestWire req] some (List.append_nil _) [] rfl
  exact ⟨second fits many,client (.inr (.inl many)) done List.nil_prefix (by decide) (by decide)⟩

end Nanofish.Exchanges

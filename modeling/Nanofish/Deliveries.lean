import Nanofish.Builder
import Nanofish.Exchanges
import Nanofish.Injection
import Nanofish.Reception

/-! Replies that every client gets as they were meant, in whatever reads they come: those
whose framing fields say what the body is. Two ways to write one: a head with a streamed
body behind it, and what the builder makes. -/
namespace Nanofish.Deliveries
open Rust Rust.Utf8 Rust.Text Rust.Reads
open Protocol Codes Response Codec HeaderBlock Parsing Client RoundTrip
open Receiving Retries Sending Dechunk Transport Messages Heads Exchanges Reception

-- Not coded, and as long as it is or of no stated length.
def Frames (t : Target) (fields : List HttpHeader) (body : Bytes) : Prop :=
  codedOf fields = false ∧ (lengthOf t fields = some body.length ∨ lengthOf t fields = none)

instance (t : Target) (fields : List HttpHeader) (body : Bytes) : Decidable (Frames t fields body) := by
  unfold Frames; infer_instance

theorem decodeShrinks (t : Target) {pos : Nat} {rest payload : Bytes}
    (ok : decodeChunks t pos rest = .ok payload) (some : rest ≠ []) :
    payload.length < rest.length := by
  have positive := List.length_pos_iff.mpr some
  fun_cases decodeChunks t pos rest with
  | case1 next => rw [decodeStop next] at ok; cases ok; exact positive
  | case2 start size next =>
    obtain ⟨behind,_,inside⟩ := nextChunkSome t next
    rw [decodeNext next] at ok
    obtain ⟨more,tail,same⟩ := Outcome.bindOk.mp ok
    cases same
    have shorter := decodeLength tail
    simp only [crlfLen, crlf, List.length_cons] at behind
    simp only [List.length_append, List.length_take, List.length_drop] at shorter ⊢
    omega
  | case3 e next => rw [decodeErr next] at ok; contradiction
  | case4 next => rw [decodePanic next] at ok; contradiction
  | case5 next =>
    have view := nextChunkView t pos rest
    rw [next] at view
    cases view

theorem sentScript (RQ : Nat) (stream : Stream) (req : HttpClientRequest)
    (reads : List (ReadEvent UInt8)) :
    sent RQ { stream with reads := reads } req = sent RQ stream req := by
  unfold sent
  cases buildReq RQ req.method req.host req.path req.headers req.body <;> simp only [sendScript]

def plainGet : HttpClientRequest := ⟨.GET,"h".toList,"/".toList,[],none⟩

section Read
variable {t : Target} {response : HttpResponse} {wire : Bytes} (delivered : Delivered t response wire)
include delivered

theorem deliveredRead {reads : List Bytes} (nonempty : ∀ p ∈ reads, p ≠ [])
    (whole : reads.flatten = wire) :
    decodeResponse t (readResponse t (reads.map ReadEvent.data ++ [.close])
      (List.replicate (wire.length + 1) 0) 1) =
      .ok (response,wire.length) := by
  let script := reads.map ReadEvent.data ++ [.close]
  have done : sent 64 ⟨[],[],[]⟩ plainGet = true := by decide +kernel
  have again := sentScript 64 ⟨[],[],[]⟩ plainGet script
  have errorFree : ∀ event ∈ script, event ≠ .fault := by
    intro event mem
    rcases List.mem_append.mp mem with read | last
    · obtain ⟨p,_,rfl⟩ := List.mem_map.mp read
      simp
    · rw [List.mem_singleton.mp last]
      simp
  have got :=
    delivered 64 1 { (⟨[],[],[]⟩ : Stream) with reads := script } plainGet
      (List.replicate (wire.length + 1) 0) reads []
    (again.trans done) nonempty whole (List.filter_eq_self.mpr fun event mem =>
      by simpa using errorFree event mem)
    (by rw [List.count_eq_zero.mpr fun mem => errorFree .fault mem rfl]; decide)
    (by rw [List.length_replicate]; omega)
  rw [← got]
  exact (exchangeSent t 64 1 ⟨[],[],[]⟩ plainGet (List.replicate (wire.length + 1) 0) done script).1.symm

variable (some : wire ≠ [])
include some

theorem oneReadFrom (real : wire.length < t.isizeMax) :
    ∃ d, d <+: wire ∧ Settled t d ∧ decoded t d = .ok (response,wire.length) := by
  have one : ∀ p ∈ [wire], p ≠ [] := List.forall_mem_singleton.mpr some
  have whole : [wire].flatten = wire := List.append_nil _
  obtain ⟨d,start,_,settled,ok⟩ := responseFrom t (List.replicate (wire.length + 1) 0)
    (by rw [List.length_replicate]; omega) (deliveredRead delivered one whole)
  rw [arrivedReads one, whole, show arrived [ReadEvent.close] = ([] : Bytes) from rfl,
    List.append_nil] at start
  exact ⟨d,start,settled,ok⟩

theorem deliveredOnce {other : HttpResponse} (again : Delivered t other wire) : other = response := by
  have one : ∀ p ∈ [wire], p ≠ [] := List.forall_mem_singleton.mpr some
  have same :=
    (deliveredRead again one (List.append_nil _)).symm.trans
      (deliveredRead delivered one (List.append_nil _))
  exact congrArg Prod.fst (Outcome.ok.inj same)

end Read

section Framing
variable {t : Target} (r : HttpResponse) {fields : List HttpHeader}
  (readable : ∀ h ∈ fields, ReadableHeader h) {body : Bytes}
include readable

theorem codedLoses (coded : codedOf fields = true) (filled : body ≠ []) {d : Bytes}
    (start : d <+: Block (asBytes (headWith r fields)) body) {response : HttpResponse} {total : Nat}
    (ok : decoded t d = .ok (response,total)) :
    total < (Block (asBytes (headWith r fields)) body).length := by
  have closes := headWithCloses r readable
  have again := (headWithCoded r readable).trans coded
  unfold decoded at ok
  rcases blockPrefix closes start with ⟨_,inside⟩ | ⟨part,rfl,front⟩
  · rw [inside] at ok
    contradiction
  · have head : (Block (asBytes (headWith r fields)) part).take
        (asBytes (headWith r fields)).length = asBytes (headWith r fields) := by
      rw [Block, List.append_assoc, List.take_left]
    simp only [blockFound closes, head, again, if_true, blockDrop] at ok
    obtain ⟨payload,walk,ok⟩ := Outcome.bindOk.mp ok
    obtain ⟨_,_,same⟩ := Outcome.bindOk.mp ok
    cases same
    have bound := front.length_le
    rw [blockLength, blockLength]
    by_cases none : part = []
    · have empty := decodeLength walk
      have positive := List.length_pos_iff.mpr filled
      rw [none, List.length_nil] at empty
      omega
    · have shorter := decodeShrinks t walk none
      omega

variable (real : (Block (asBytes (headWith r fields)) body).length < t.isizeMax)
  {response : HttpResponse}
  (delivered : Delivered t response (Block (asBytes (headWith r fields)) body))
include real delivered

theorem deliveredPlain (filled : body ≠ []) : codedOf fields = false := by
  cases coded : codedOf fields with
  | false => rfl
  | true =>
    obtain ⟨d,start,_,ok⟩ := oneReadFrom delivered (blockNe _ _) real
    have lost := codedLoses r readable coded filled start ok
    omega

/- A declared length that is not the body's: too long a one is waited for in vain, and at
too short a one the client of some reads stops. -/
theorem deliveredFramed (plain : codedOf fields = false) {n : Nat}
    (declared : lengthOf t fields = some n) : n = body.length := by
  have closes := headWithCloses r readable
  have coded : headChunked (asBytes (headWith r fields)) = false :=
    (headWithCoded r readable).trans plain
  have length : contentLength t (asBytes (headWith r fields)) = some n :=
    (headWithLength r readable t).trans declared
  have size := blockLength (asBytes (headWith r fields)) body
  rcases Nat.lt_trichotomy n body.length with short | same | long
  · let part := body.take n
    let rest := body.drop n
    let buffer : Bytes := List.replicate ((Block (asBytes (headWith r fields)) body).length + 1) 0
    have cut : part.length = n := by rw [List.length_take]; omega
    have front := blockLength (asBytes (headWith r fields)) part
    have first : ∀ p ∈ [Block (asBytes (headWith r fields)) part], p ≠ [] :=
      List.forall_mem_singleton.mpr (blockNe _ _)
    have more : rest ≠ [] := List.ne_nil_of_length_pos (by rw [List.length_drop]; omega)
    have both : ∀ p ∈ [Block (asBytes (headWith r fields)) part,rest], p ≠ [] :=
      List.forall_mem_cons.mpr ⟨blockNe _ _,List.forall_mem_singleton.mpr more⟩
    have whole : [Block (asBytes (headWith r fields)) part,rest].flatten =
        Block (asBytes (headWith r fields)) body := by
      rw [List.flatten_cons, List.flatten_cons, List.flatten_nil, List.append_nil, blockGrows,
        List.take_append_drop]
    have room : (Block (asBytes (headWith r fields)) part).length ≤ buffer.length := by
      rw [List.length_replicate]
      omega
    have stops :=
      Lengths.countedWhole t buffer closes coded (show 0 < 1 by decide) first [.data rest,.close]
        (by rw [length, cut])
      (List.append_nil _) room
    have got := deliveredRead delivered both whole
    rw [show [Block (asBytes (headWith r fields)) part,rest].map ReadEvent.data ++ [.close] =
      [Block (asBytes (headWith r fields)) part].map ReadEvent.data ++ [.data rest,.close] from rfl,
      stops, decodePlain t buffer (by rw [chunkedBlock closes, coded]) room] at got
    obtain ⟨_,_,same⟩ := Outcome.bindOk.mp got
    have total := congrArg Prod.snd (Outcome.ok.inj same)
    simp only at total
    omega
  · exact same
  · obtain ⟨d,start,settled,ok⟩ := oneReadFrom delivered (blockNe _ _) real
    rcases blockPrefix closes start with ⟨_,inside⟩ | ⟨part,rfl,front⟩
    · rw [decoded, inside] at ok
      contradiction
    · have bound := front.length_le
      rcases settled with done | ⟨undeclared,_⟩
      · rw [completeBlock t closes, blockComplete, coded, length] at done
        have reached := of_decide_eq_true done
        omega
      · rw [declaresBlock t closes, coded, length] at undeclared
        contradiction

theorem deliveredFrames (filled : body ≠ []) : Frames t fields body := by
  have plain := deliveredPlain r readable real delivered filled
  refine ⟨plain,?_⟩
  cases declared : lengthOf t fields with
  | none => exact .inr rfl
  | some n =>
    exact .inl (congrArg Option.some (deliveredFramed r readable real delivered plain declared))

end Framing

theorem framesDelivered {t : Target} (r : HttpResponse) {fields : List HttpHeader}
    (readable : ∀ h ∈ fields, ReadableHeader h) (some : fields ≠ []) {body : Bytes}
    (frames : Frames t fields body) :
    Delivered t (readWith r fields body) (Block (asBytes (headWith r fields)) body) :=
  replyDelivered t r readable frames.1 frames.2 some

theorem streamDelivered (t : Target) (N : Nat) (r : HttpResponse) (head : Vec UInt8 N)
    (built : r.buildHeadBytes N = .ok head) (readable : ∀ h ∈ r.headers.items, ReadableHeader h)
    (some : r.headers.items ≠ []) (body : Bytes) (real : (head.items ++ body).length < t.isizeMax) :
    let kept := readWith r r.headers.items body
    (Frames t r.headers.items body → Delivered t kept (head.items ++ body)) ∧
    (body ≠ [] → ∀ response, Delivered t response (head.items ++ body) →
      Frames t r.headers.items body ∧ response = kept) ∧
    ∀ M b, r.buildBytes M = .ok b →
    (b.items = head.items ++ r.body.asBytes ↔ addsLength r true = false) := by
  intro kept
  have block (behind : Bytes) :
      head.items ++ behind = Block (asBytes (headWith r r.headers.items)) behind := by
    rw [Injection.buildHeadItems built, terminatedBlock (List.cons_ne_nil _ _)]
    rfl
  have framed (frames : Frames t r.headers.items body) : Delivered t kept (head.items ++ body) :=
    block body ▸ framesDelivered r readable some frames
  refine ⟨framed,fun filled response delivered => ?_,fun M b whole => ?_⟩
  · have frames : Frames t r.headers.items body :=
      deliveredFrames r readable (block body ▸ real) (block body ▸ delivered) filled
    exact ⟨frames,deliveredOnce (framed frames) (block body ▸ blockNe _ _) delivered⟩
  · have items : b.items = terminated (headLines r) ++ crlf ++ r.body.asBytes := by
      rw [buildBytesBlock whole, headText,
        terminatedBlock (show headLines r ≠ [] from List.cons_ne_nil _ _)]
    rw [items, Injection.buildHeadItems built]
    cases adds : addsLength r true with
    | false =>
      have own : emitted r = r.headers.items := writtenOwn adds
      rw [headLines, own]
      exact iff_of_true rfl rfl
    | true =>
      have grown : emitted r = r.headers.items ++
        [⟨contentLengthName,decimal r.body.asBytes.length⟩] := writtenAdded adds
      refine iff_of_false (fun same => ?_) (by decide)
      rw [headLines, grown, List.map_append, List.map_singleton, ← List.cons_append,
        terminatedAppend, headerLineTerminated] at same
      have longer := congrArg List.length same
      simp only [List.length_append, crlf, List.length_cons] at longer
      omega

def events : HttpResponse := ⟨.ok,⟨[⟨contentTypeName,"text/event-stream".toList⟩],by decide⟩,.empty⟩
def firstEvent : Bytes := asBytes "data: 1\n\n".toList

theorem streamDeliveredEvent : ∃ head, events.buildHeadBytes 128 = .ok head ∧
    Delivered .bits32 (readWith events events.headers.items firstEvent) (head.items ++ firstEvent) := by
  let data := terminated (statusLine events :: events.headers.items.map headerLine) ++ crlf
  have fits : data.length ≤ 128 := by decide +kernel
  have built : events.buildHeadBytes 128 = .ok ⟨data,fits⟩ :=
    (buildHeadBytesFitted 128 events).trans (dif_pos fits)
  have real : (data ++ firstEvent).length < Target.bits32.isizeMax := by decide +kernel
  have clean : ∀ h ∈ events.headers.items, CleanHeader h := by decide +kernel
  have readable := fun h mem => cleanReadable (clean h mem)
  exact ⟨_,built,(streamDelivered .bits32 128 events ⟨data,fits⟩ built readable (by decide)
    firstEvent real).1 (by decide +kernel)⟩

theorem emittedLookup (r : HttpResponse) {name : Str}
    (other : eqIgnoreAsciiCase contentLengthName name = false) :
    (received r).getHeader name = r.getHeader name := by
  show (((emitted r).take maxHeaders).find? fun h => eqIgnoreAsciiCase h.name name).map
    HttpHeader.value = _
  unfold emitted
  split
  · have silent : (List.take (maxHeaders - r.headers.items.length)
        [(⟨contentLengthName,decimal r.body.asBytes.length⟩ : HttpHeader)]).find?
          (fun h => eqIgnoreAsciiCase h.name name) = none := by
      refine List.find?_eq_none.mpr fun h mem => ?_
      rw [List.mem_singleton.mp (List.mem_of_mem_take mem)]
      exact Bool.eq_false_iff.mp other
    rw [List.take_append, List.take_of_length_le r.headers.fits, List.find?_append, silent,
      Option.or_none]
    rfl
  · rw [List.take_of_length_le r.headers.fits]
    rfl

section Own
variable {r : HttpResponse}
  (free : ∀ h ∈ r.headers.items, isNamed contentLengthName h = false ∧
    isNamed transferEncoding h = false)
include free

theorem freeFrames {t : Target} (fits : r.body.asBytes.length ≤ t.usizeMax) :
    Frames t (emitted r) r.body.asBytes := by
  have unnamed (name : Str) (known : name = contentLengthName ∨ name = transferEncoding) :
      r.headers.items.find? (isNamed name) = none := by
    refine List.find?_eq_none.mpr fun h mem => ?_
    rcases known with rfl | rfl
    · exact Bool.eq_false_iff.mp (free h mem).1
    · exact Bool.eq_false_iff.mp (free h mem).2
  have coding := unnamed transferEncoding (.inr rfl)
  have length := unnamed contentLengthName (.inl rfl)
  cases adds : addsLength r true with
  | false =>
    have own : emitted r = r.headers.items := writtenOwn adds
    exact ⟨by rw [own, codedOf, coding],.inr (by rw [own, lengthOf, length]; rfl)⟩
  | true =>
    have grown : emitted r = r.headers.items ++
      [⟨contentLengthName,decimal r.body.asBytes.length⟩] := writtenAdded adds
    have counted : isNamed contentLengthName ⟨contentLengthName,decimal r.body.asBytes.length⟩ =
      true := eqIgnoreRefl _
    have uncoded : isNamed transferEncoding ⟨contentLengthName,decimal r.body.asBytes.length⟩ = false :=
      show eqIgnoreAsciiCase contentLengthName transferEncoding = false by decide
    refine ⟨?_,.inl ?_⟩
    · rw [grown, codedOf, List.find?_append, coding, Option.none_or, List.find?_singleton, uncoded]
      rfl
    · rw [grown, lengthOf, List.find?_append, length, Option.none_or, List.find?_singleton, counted]
      exact parseDecimal _ fits

end Own

section Built
open Builder

theorem lastOfNameSome {hs : List HttpHeader} (some : hs ≠ []) : lastOfName hs ≠ [] := by
  intro none
  obtain ⟨h,rest,rfl⟩ := List.exists_cons_of_ne_nil some
  have found := lastOfNameFind (h :: rest) h.name
  rw [none, List.find?_nil,
    List.filter_cons_of_pos (show isNamed h.name h = true from eqIgnoreRefl h.name),
      List.getLast?_cons] at found
  contradiction

theorem builtDelivered (t : Target) (N : Nat) (start : StatusCode) (calls : List Call)
    (b : HttpResponseBuilder) (ran : run calls (withStatus start) = .ok b)
    (readable : ∀ h ∈ calls.flatMap pushed, ReadableHeader h)
    (free : ∀ h ∈ calls.flatMap pushed, isNamed contentLengthName h = false ∧
      isNamed transferEncoding h = false)
    (r : HttpResponse) (built : build b = .ok r) (out : Vec UInt8 N)
    (written : r.buildBytes N = .ok out) (real : out.items.length ≤ t.usizeMax) :
    let status := (calls.filterMap statusSet).getLast?.getD start
    let body := ((calls.filterMap bodySet).getLast?.getD .empty).asBytes
    calls.flatMap pushed ≠ [] ∨ body ≠ [] →
    ∃ got, Delivered t got out.items ∧ got.statusCode = .fromU16 status.asU16 ∧ got.body.asBytes = body ∧
      ∀ name, eqIgnoreAsciiCase contentLengthName name = false →
        got.getHeader name =
          (((calls.flatMap pushed).filter (isNamed name)).getLast?).map HttpHeader.value := by
  intro status body some
  rw [runExtends] at ran
  obtain ⟨hs,extended,made⟩ := Outcome.bindOk.mp ran
  have items : hs.items = calls.flatMap pushed := Vec.extendSome.mp (Outcome.ofOptionOk.mp extended)
  cases made
  obtain ⟨_,again,statusKept,kept,bodyKept⟩ :=
    buildHeaders ⟨(calls.filterMap statusSet).getLast?.getD (withStatus start).status,hs,
    (calls.filterMap bodySet).getLast?.or (withStatus start).body⟩
  cases again.symm.trans built
  rw [items] at kept
  have inside : ∀ h ∈ r.headers.items, h ∈ calls.flatMap pushed := by
    intro h mem
    rw [kept, lastOfNameFilter] at mem
    exact (List.pwFilter_sublist _).subset mem
  have bytes : r.body.asBytes = body := by
    rw [bodyKept]
    simp only [withStatus, Option.or_none, body]
  have wire : out.items = Block (asBytes (headWith r (emitted r))) r.body.asBytes :=
    buildBytesBlock written
  have fits : r.body.asBytes.length ≤ t.usizeMax := by
    rw [wire, blockLength] at real
    omega
  have shown : emitted r ≠ [] := by
    intro none
    cases adds : addsLength r true with
    | true =>
      have grown : emitted r = r.headers.items ++
        [⟨contentLengthName,decimal r.body.asBytes.length⟩] := writtenAdded adds
      rw [grown] at none
      exact List.append_ne_nil_of_right_ne_nil _ (List.cons_ne_nil _ _) none
    | false =>
      have own : r.headers.items = [] := (writtenOwn adds).symm.trans none
      have filled := some.resolve_left fun more => lastOfNameSome more (kept.symm.trans own)
      simp only [addsLength, own, bytes, carriesLength, List.any_nil, Bool.not_false, Bool.true_and,
        Bool.not_eq_false', List.isEmpty_iff] at adds
      exact filled adds
  refine ⟨received r,?_,?_,?_,?_⟩
  · rw [wire]
    exact framesDelivered r (emittedReadable fun h mem => readable h (inside h mem)) shown
      (freeFrames (fun h mem => free h (inside h mem)) fits)
  · rw [received, statusKept]
    rfl
  · exact (parseBodyBytes _ _).trans bytes
  · intro name other
    rw [emittedLookup r other, HttpResponse.getHeader, ← lastOfNameFind, ← kept]
    rfl

theorem builtDeliveredJson :
    let calls : List Call :=
      [.header "X-A".toList "1".toList,.json "[]".toList,.header "x-a".toList "2".toList,
        .status .notFound]
    ∃ b r, run calls new = .ok b ∧ build b = .ok r ∧ ∃ out : Vec UInt8 128, r.buildBytes 128 = .ok out ∧
      ∃ got, Delivered .bits32 got out.items ∧ got.statusCode = .notFound ∧
      got.body.asBytes = asBytes "[]".toList ∧
        got.getHeader "X-a".toList = some "2".toList := by
  intro calls
  let b : HttpResponseBuilder :=
    ⟨.notFound,⟨calls.flatMap pushed,by decide +kernel⟩,some (.text "[]".toList)⟩
  let r : HttpResponse :=
    ⟨.notFound,⟨[⟨contentTypeName,mimeJson⟩,⟨"x-a".toList,"2".toList⟩],by decide⟩,.text "[]".toList⟩
  have ran : run calls (withStatus .ok) = .ok b := by decide +kernel
  have built : build b = .ok r := by decide +kernel
  let data := terminated (headLines r) ++ crlf ++ r.body.asBytes
  have fits : data.length ≤ 128 := by decide +kernel
  have written : r.buildBytes 128 = .ok ⟨data,fits⟩ :=
    (buildBytesFitted 128 fun _ => by decide +kernel).trans (dif_pos fits)
  have clean : ∀ h ∈ calls.flatMap pushed, CleanHeader h := by decide +kernel
  have free : ∀ h ∈ calls.flatMap pushed, isNamed contentLengthName h = false ∧
      isNamed transferEncoding h = false := by
    decide +kernel
  have real : data.length ≤ Target.bits32.usizeMax := by decide +kernel
  obtain ⟨got,delivered,status,body,found⟩ :=
    builtDelivered .bits32 128 .ok calls b ran (fun h mem => cleanReadable (clean h mem))
    free r built ⟨data,fits⟩ written real (.inl (by decide +kernel))
  exact ⟨b,r,ran,built,_,written,got,delivered,status.trans (by decide +kernel),
    body.trans (by decide +kernel),
    (found "X-a".toList (by decide +kernel)).trans (by decide +kernel)⟩

end Built

end Nanofish.Deliveries

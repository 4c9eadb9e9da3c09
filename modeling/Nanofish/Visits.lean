import Nanofish.Exchanges
import Nanofish.ServeLoop
import Nanofish.Urls

/-! A visit: a URL in the hands of the client that connects by itself, a handler behind
the server, and between them name lookups, a connection and what of it arrives. -/
namespace Nanofish.Visits
open Rust Rust.Utf8 Rust.Text Rust.Reads
open Protocol Codes Response Codec Client Request RoundTrip RequestRoundTrip Builder
open Retries Accepting Server Serving ServeLoop Transport Messages Exchanges
open Endpoint Authority

theorem endpointPieces {url : Str} {e : HttpEndpoint} (parsed : parseEndpoint url = .ok e) :
    (e.scheme = "http".toList ∨ e.scheme = "https".toList) ∧ e.path ≠ [] ∧ (∀ c ∈ e.host, c ∈ url) ∧
    ∀ c ∈ e.path, c = '/' ∨ c ∈ url := by
  obtain ⟨scheme,hostPort,known,rfl,rfl⟩ := parseEndpointOk.mp parsed
  obtain ⟨authority,target,rfl,absent,start⟩ := authoritySplit hostPort
  rw [Urls.endpointAt scheme absent start]
  have host : ∀ c ∈ ((portOf authority).getD (authority,defaultPort scheme)).1, c ∈ authority := by
    intro c mem
    cases found : portOf authority with
    | none => rwa [found] at mem
    | some pair =>
      obtain ⟨name,port⟩ := pair
      obtain ⟨digits,rfl,_⟩ := portOfText found
      rw [found] at mem
      exact List.mem_append_left _ mem
  have path : Urls.pathOr target ≠ [] ∧ ∀ c ∈ Urls.pathOr target, c = '/' ∨ c ∈ target := by
    unfold Urls.pathOr
    split
    · exact ⟨by decide,fun c mem => .inl (List.mem_singleton.mp mem)⟩
    · rename_i some
      exact ⟨some,fun c mem => .inr mem⟩
  exact ⟨known,path.1,fun c mem =>
    by simp [host c mem],fun c mem => (path.2 c mem).imp id fun own => by simp [own]⟩

theorem urlClean {url : Str} {e : HttpEndpoint} (parsed : parseEndpoint url = .ok e)
    (solid : ∀ c ∈ url, isWhitespace c = false) {headers : List HttpHeader}
    (clean : ∀ h ∈ headers, CleanHeader h) : CleanRequest e.host e.path headers := by
  obtain ⟨_,some,host,path⟩ := endpointPieces parsed
  have hostSolid : ∀ c ∈ e.host, isWhitespace c = false := fun c mem => solid c (host c mem)
  have unbroken (c : Char) (blank : isWhitespace c = true) : c ∉ e.host := by
    intro mem
    rw [hostSolid c mem] at blank
    contradiction
  refine ⟨some,fun c mem => ?_,⟨unbroken '\r' (by decide),unbroken '\n' (by decide)⟩,?_,clean⟩
  · rcases path c mem with rfl | own
    · decide
    · exact solid c own
  · exact ⟨fun c mem => hostSolid c (List.mem_of_mem_head? mem),fun c mem =>
      hostSolid c (List.mem_of_mem_getLast? mem)⟩

theorem freeCounted {t : Target} {req : HttpClientRequest}
    (free : ∀ h ∈ req.headers, isNamed contentLengthName h = false)
    (fits : (req.body.getD []).length ≤ t.usizeMax) :
    Counted t (fieldsSent req) (req.body.getD []) := by
  have none : req.headers.find? (isNamed contentLengthName) = none :=
    List.find?_eq_none.mpr fun h mem => Bool.eq_false_iff.mp (free h mem)
  have carries : carriesLength req.headers = false :=
    List.any_eq_false.mpr fun h mem => Bool.eq_false_iff.mp (free h mem)
  have host : isNamed contentLengthName (hostHeader req.host) = false :=
    show eqIgnoreAsciiCase "Host".toList contentLengthName = false by decide
  have closes : isNamed contentLengthName connectionClose = false := by decide
  have found : (fieldsSent req).find? (isNamed contentLengthName) =
      (autoLength req.headers req.body).find? (isNamed contentLengthName) := by
    rw [fieldsSent, requestFields, List.append_assoc, List.cons_append,
      List.find?_cons_of_neg (Bool.eq_false_iff.mp host),
      List.find?_append, none, Option.none_or, List.find?_append, List.find?_singleton, closes]
    simp
  rw [Counted, lengthOf, found]
  cases body : req.body with
  | none => exact .inr ⟨rfl,rfl⟩
  | some data =>
    rw [body] at fits
    have own : isNamed contentLengthName ⟨contentLengthName,decimal data.length⟩ = true := eqIgnoreRefl _
    rw [autoLength, carries, if_neg (by decide), List.find?_singleton, own]
    exact .inl (parseDecimal _ fits)

theorem fieldsFew {req : HttpClientRequest} (few : req.headers.length + 3 ≤ maxHeaders) :
    (fieldsSent req).length ≤ maxHeaders := by
  have auto : (autoLength req.headers req.body).length ≤ 1 := by
    rw [autoLengthIf]
    split
    · exact Nat.le_refl _
    · exact Nat.zero_le _
  simp only [fieldsSent, requestFields, List.length_append, List.length_cons, List.length_nil]
  omega

def mimeHtml : Str := "text/html".toList

def page (status : StatusCode) (mime body : Str) : HttpResponse :=
  ⟨status,(Vec.new.push (contentTypeHeader mime)).getD Vec.new,.text body⟩

/- `SimpleHandler::handle_request`. It looks at the whole target, and at nothing else. -/
def simpleResponse (path : Str) : HttpResponse :=
  if path = "/".toList then page .ok mimeHtml "<h1>Hello from nanofish HTTP server!</h1>".toList
  else if path = "/health".toList then page .ok mimeJson "\x7b\"status\":\"ok\"\x7d".toList
  else page .notFound mimeText "404 Not Found".toList

def simpleHandler : Handler Unit := fun state request => (.ok (simpleResponse request.path),state)

theorem simpleCases (path : Str) :
    path = "/".toList ∧ simpleResponse path =
      page .ok mimeHtml "<h1>Hello from nanofish HTTP server!</h1>".toList ∨
    path = "/health".toList ∧
    simpleResponse path = page .ok mimeJson "\x7b\"status\":\"ok\"\x7d".toList ∨
    (path ≠ "/".toList ∧ path ≠ "/health".toList) ∧
    simpleResponse path = page .notFound mimeText "404 Not Found".toList := by
  by_cases root : path = "/".toList
  · exact .inl ⟨root,if_pos root⟩
  · by_cases health : path = "/health".toList
    · exact .inr (.inl ⟨health,(if_neg root).trans (if_pos health)⟩)
    · exact .inr (.inr ⟨⟨root,health⟩,(if_neg root).trans (if_neg health)⟩)

theorem simpleAnswers (t : Target) (path : Str) : Answerable t (simpleResponse path) ∧
    (received (simpleResponse path)).body = (simpleResponse path).body ∧
    (received (simpleResponse path)).statusCode = (simpleResponse path).statusCode := by
  rcases simpleCases path with ⟨_,shape⟩ | ⟨_,shape⟩ | ⟨_,shape⟩
  · rw [shape]
    cases t <;> decide +kernel
  · rw [shape]
    cases t <;> decide +kernel
  · rw [shape]
    cases t <;> decide +kernel

theorem simpleStatus (path : Str) : (simpleResponse path).statusCode =
    if path = "/".toList ∨ path = "/health".toList then .ok else .notFound := by
  rcases simpleCases path with ⟨root,shape⟩ | ⟨health,shape⟩ | ⟨other,shape⟩
  · rw [shape, if_pos (.inl root)]
    rfl
  · rw [shape, if_pos (.inr health)]
    rfl
  · rw [shape, if_neg (not_or.mpr other)]
    rfl

section Network
variable {Addr : Type} (net : Network Addr)

def addresses (host : Str) : List Addr := (net.query host .A).getD [] ++ (net.query host .Aaaa).getD []

theorem resolveHostOk {host : Str} {addr : Addr} :
    resolveHost net host = .ok addr ↔ (addresses net host).head? = some addr := by
  unfold resolveHost addresses
  cases net.query host .A with
  | none => cases net.query host .Aaaa with
    | none => simp
    | some others => cases others <;> simp
  | some found => cases found with
    | cons first more => simp
    | nil => cases net.query host .Aaaa with
      | none => simp
      | some others => cases others <;> simp

/- The connection that carries a request: to the first address of the host, and behind the
handshake where the scheme asks for one. -/
def Reaches (e : HttpEndpoint) (near : Stream) : Prop :=
  ∃ addr socket, (addresses net e.host).head? = some addr ∧ net.connect addr e.port = some socket ∧
    (e.scheme = "http".toList ∧ near = socket ∨
      e.scheme = "https".toList ∧ ∃ tlsOpen, net.tlsOpen = some tlsOpen ∧
        tlsOpen e.host socket = .ok near)

theorem connectToOk {host : Str} {port : Nat} {socket : Stream} : connectTo net host port = .ok socket ↔
    ∃ addr, (addresses net host).head? = some addr ∧ net.connect addr port = some socket := by
  unfold connectTo
  constructor
  · intro connected
    cases resolved : resolveHost net host with
    | error e =>
      rw [resolved] at connected
      contradiction
    | ok addr =>
      refine ⟨addr,(resolveHostOk net).mp resolved,?_⟩
      simp only [resolved, bind, Except.bind] at connected
      cases reached : net.connect addr port with
      | none => simp [reached] at connected
      | some other => simpa [reached] using connected
  · rintro ⟨addr,first,reached⟩
    simp only [(resolveHostOk net).mpr first, bind, Except.bind, reached]

section Request
variable (t : Target) (RQ maxRetries : Nat) (method : HttpMethod) {url : Str}
  (headers : List HttpHeader) (body : Option Bytes)
  (buffer : Bytes)

theorem requestReached {e : HttpEndpoint} (parsed : parseEndpoint url = .ok e) {near : Stream}
    (reaches : Reaches net e near) :
    EmbassyHttpClient.request net t RQ maxRetries method url headers body buffer =
      requestWithRetryDelay t RQ maxRetries near ⟨method,e.host,e.path,headers,body⟩ buffer := by
  obtain ⟨addr,socket,first,connected,carried⟩ := reaches
  have reached : connectTo net e.host e.port = .ok socket := (connectToOk net).mpr ⟨addr,first,connected⟩
  rcases carried with ⟨plain,rfl⟩ | ⟨secure,tlsOpen,enabled,opened⟩
  · have other : ¬ "http".toList = "https".toList := by decide
    simp only [EmbassyHttpClient.request, parsed, other, plain, if_true, if_false, makeHttpRequest,
      reached]
  · simp only [EmbassyHttpClient.request, parsed, secure, if_true, enabled, makeHttpsRequest,
      reached, opened]

theorem requestUnreached (unreached : ∀ e near, parseEndpoint url = .ok e → ¬ Reaches net e near) :
    ∃ failure, EmbassyHttpClient.request net t RQ maxRetries method url headers body buffer =
      ⟨.err failure,[],0⟩ := by
  cases parsed : parseEndpoint url with
  | err failure => exact ⟨failure,by simp only [EmbassyHttpClient.request, parsed]⟩
  | panic =>
    have returns := Urls.parseEndpointReturns url
    rw [parsed] at returns
    exact returns.elim
  | pending =>
    have returns := Urls.parseEndpointReturns url
    rw [parsed] at returns
    exact returns.elim
  | ok e =>
    obtain ⟨known,_⟩ := endpointPieces parsed
    simp only [EmbassyHttpClient.request, parsed]
    rcases known with plain | secure
    · have other : ¬ "http".toList = "https".toList := by decide
      simp only [plain, other, if_true, if_false, makeHttpRequest]
      cases reached : connectTo net e.host e.port with
      | error failure => exact ⟨failure,rfl⟩
      | ok socket =>
        obtain ⟨addr,first,connected⟩ := (connectToOk net).mp reached
        exact absurd ⟨addr,socket,first,connected,.inl ⟨plain,rfl⟩⟩ (unreached e socket parsed)
    · simp only [secure, if_true]
      cases enabled : net.tlsOpen with
      | none => exact ⟨_,rfl⟩
      | some tlsOpen =>
        simp only [makeHttpsRequest]
        cases reached : connectTo net e.host e.port with
        | error failure => exact ⟨failure,rfl⟩
        | ok socket =>
          cases opened : tlsOpen e.host socket with
          | error failure => exact ⟨failure,by simp only [opened]⟩
          | ok near =>
            obtain ⟨addr,first,connected⟩ := (connectToOk net).mp reached
            exact absurd ⟨addr,socket,first,connected,.inr ⟨secure,tlsOpen,enabled,opened⟩⟩
              (unreached e near parsed)

end Request

theorem visitSafe (t : Target) {σ : Type} (RQ maxRetries REQ_SIZE MAX_RESPONSE_SIZE : Nat)
    (real : REQ_SIZE ≤ t.isizeMax) (handler : Handler σ) (state : σ) (method : HttpMethod)
    (url : Str) (solid : ∀ c ∈ url, isWhitespace c = false) (headers : List HttpHeader)
    (clean : ∀ h ∈ headers, CleanHeader h)
    (free : ∀ h ∈ headers, isNamed contentLengthName h = false)
    (few : headers.length + 3 ≤ maxHeaders) (body : Option Bytes)
    (fits : (body.getD []).length ≤ t.usizeMax) (buffer : Bytes) :
    let exchange := EmbassyHttpClient.request net t RQ maxRetries method url headers body buffer
    ((∀ e near, parseEndpoint url = .ok e → ¬ Reaches net e near) →
      ∃ failure, exchange = ⟨.err failure,[],0⟩) ∧
    ∀ e near far, parseEndpoint url = .ok e → Reaches net e near → near.written = [] ∧ far.written = [] →
      let asked := delivered ⟨method,e.host,e.path,headers,body⟩
      let response := answer (handler state asked).1
      let served := handleHttpConnectionWithSizes t REQ_SIZE MAX_RESPONSE_SIZE handler state far
      Answerable t response → arrived far.reads <+: exchange.written →
      arrived near.reads <+: served.written →
      (served.handled = [] ∨ served.handled = [asked]) ∧ ∀ got total, exchange.result = .ok (got,total) →
        served.handled = [asked] ∧ got = received response ∧ total = (responseWire response).length := by
  intro exchange
  refine ⟨requestUnreached net t RQ maxRetries method headers body buffer,
    fun e near far parsed reaches fresh => ?_⟩
  intro asked response served able
  have good : Sendable t ⟨method,e.host,e.path,headers,body⟩ :=
    ⟨urlClean parsed solid clean,fieldsFew few,freeCounted free fits⟩
  have same : exchange = _ :=
    requestReached net t RQ maxRetries method headers body buffer parsed reaches
  rw [same]
  exact exchangeSafe t RQ maxRetries REQ_SIZE MAX_RESPONSE_SIZE real handler state _ good able near
    far buffer fresh

end Network

theorem simpleBuilt {path : Str} {N : Nat} (room : (responseWire (simpleResponse path)).length ≤ N) :
    (simpleResponse path).buildBytes N = .ok ⟨responseWire (simpleResponse path),room⟩ := by
  have short : (simpleResponse path).body.asBytes.length < 10 ^ scratchDigits := by
    rcases simpleCases path with ⟨_,shape⟩ | ⟨_,shape⟩ | ⟨_,shape⟩ <;> rw [shape] <;> decide +kernel
  have wire : terminated (headLines (simpleResponse path)) ++ crlf ++
      (simpleResponse path).body.asBytes =
      responseWire (simpleResponse path) :=
    terminatedBlock (show headLines (simpleResponse path) ≠ [] from List.cons_ne_nil _ _) _
  rw [buildBytesFitted N fun _ => short, wire]
  exact dif_pos room

theorem visitSimple {Addr : Type} (net : Network Addr) (t : Target)
    (RQ maxRetries REQ_SIZE MAX_RESPONSE_SIZE : Nat) (real : REQ_SIZE ≤ t.isizeMax)
    (method : HttpMethod) (url : Str) (solid : ∀ c ∈ url, isWhitespace c = false)
    (headers : List HttpHeader) (clean : ∀ h ∈ headers, CleanHeader h)
    (free : ∀ h ∈ headers, isNamed contentLengthName h = false)
    (few : headers.length + 3 ≤ maxHeaders) (body : Option Bytes)
    (fits : (body.getD []).length ≤ t.usizeMax) (buffer : Bytes) (e : HttpEndpoint)
    (parsed : parseEndpoint url = .ok e) (near far : Stream) (reaches : Reaches net e near)
    (fresh : near.written = [] ∧ far.written = [])
    (clear : ∀ w ∈ near.writes ++ far.writes, w = .accept) (head : Vec UInt8 RQ)
    (built : buildReq RQ method e.host e.path headers body = .ok head) (up down : List Bytes)
    (nonempty : ∀ p ∈ up ++ down, p ≠ []) (behind later : List (ReadEvent UInt8))
    (farScript : far.reads = up.map ReadEvent.data ++ behind)
    (nearScript : calm near.reads = down.map ReadEvent.data ++ .close :: later)
    (patient : near.reads.count .fault < maxRetries) :
    let exchange := EmbassyHttpClient.request net t RQ maxRetries method url headers body buffer
    let req : HttpClientRequest := ⟨method,e.host,e.path,headers,body⟩
    let response := simpleResponse e.path
    up.flatten = requestWire req → (requestWire req).length ≤ REQ_SIZE →
    down.flatten = responseWire response →
    (responseWire response).length ≤ MAX_RESPONSE_SIZE → (responseWire response).length < buffer.length →
    handleHttpConnectionWithSizes t REQ_SIZE MAX_RESPONSE_SIZE simpleHandler () far =
      ⟨.ok (),[delivered req],responseWire response⟩ ∧ exchange.written = requestWire req ∧
    ∃ got, exchange.result = .ok (got,(responseWire response).length) ∧ got.body = response.body ∧
      got.statusCode = if e.path = "/".toList ∨ e.path = "/health".toList then .ok else .notFound := by
  intro exchange req response asks fitting answers room small
  have good : Sendable t req := ⟨urlClean parsed solid clean,fieldsFew few,freeCounted free fits⟩
  have same : exchange = _ :=
    requestReached net t RQ maxRetries method headers body buffer parsed reaches
  have served :=
    servedLive t good real simpleHandler () (fun w mem => clear w (List.mem_append_right _ mem))
    (fun p mem => nonempty p (List.mem_append_left _ mem)) asks farScript fitting (simpleBuilt room)
  obtain ⟨able,bodyKept,statusKept⟩ := simpleAnswers t e.path
  have asked : buildReq RQ req.method req.host req.path req.headers req.body = .ok head := built
  obtain ⟨wrote,result⟩ :=
    requestLive t (fun w mem => clear w (List.mem_append_left _ mem)) asked able small
    (fun p mem => nonempty p (List.mem_append_right _ mem)) answers nearScript patient
  rw [fresh.2, List.nil_append] at served
  rw [fresh.1, List.nil_append] at wrote
  rw [same]
  exact ⟨served,wrote,received response,result,bodyKept,statusKept.trans (simpleStatus e.path)⟩

def oneHost (near : Stream) : Network Unit := ⟨fun _ _ => some [()],fun _ _ => some near,none⟩

theorem oneHostReaches (near : Stream) (host path : Str) (port : Nat) :
    Reaches (oneHost near) ⟨"http".toList,host,port,path⟩ near :=
  ⟨(),near,rfl,rfl,.inl ⟨rfl,rfl⟩⟩

def healthUrl : Str := "http://h/health".toList
def healthEndpoint : HttpEndpoint := ⟨"http".toList,"h".toList,80,"/health".toList⟩
def healthRequest : HttpClientRequest := ⟨.GET,"h".toList,"/health".toList,[],none⟩
def healthAnswer : Stream :=
  ⟨[.fault,.data (responseWire (simpleResponse "/health".toList)),.close],[],[]⟩

theorem healthUrlParsed :
    parseEndpoint healthUrl = .ok healthEndpoint ∧ ∀ c ∈ healthUrl, isWhitespace c = false := by
  decide +kernel

theorem visitSimpleHealth :
    let far : Stream := ⟨[.data (requestWire healthRequest)],[],[]⟩
    let response := simpleResponse "/health".toList
    handleHttpConnectionWithSizes .bits32 128 128 simpleHandler () far =
      ⟨.ok (),[delivered healthRequest],responseWire response⟩ ∧
    ∃ got, (EmbassyHttpClient.request (oneHost healthAnswer) .bits32 128 2 .GET healthUrl [] none
      (List.replicate 128 0)).result =
      .ok (got,(responseWire response).length) ∧ got.body = response.body ∧ got.statusCode = .ok := by
  intro far response
  obtain ⟨parsed,solid⟩ := healthUrlParsed
  have room : (terminated (requestLines .GET "h".toList "/health".toList [] none) ++ crlf).length ≤
    128 := by decide +kernel
  have built : buildReq 128 .GET "h".toList "/health".toList [] none = .ok ⟨_,room⟩ :=
    ((buildReqCases .GET "h".toList "/health".toList [] none).1 fun _ mem => by contradiction).trans
      (dif_pos room)
  obtain ⟨fitting,answered,small⟩ : (requestWire healthRequest).length ≤ 128 ∧
      (responseWire response).length ≤ 128 ∧
      (responseWire response).length < (List.replicate 128 (0 : UInt8)).length := by decide +kernel
  have none (P : HttpHeader → Prop) : ∀ h ∈ ([] : List HttpHeader), P h :=
    fun h mem => absurd mem List.not_mem_nil
  obtain ⟨served,_,got,result,body,status⟩ :=
    visitSimple (oneHost healthAnswer) .bits32 128 2 128 128 (by decide) .GET healthUrl solid
    [] (none _) (none _) (by decide) Option.none (by decide) (List.replicate 128 0) healthEndpoint
      parsed healthAnswer far
    (oneHostReaches _ _ _ _) ⟨rfl,rfl⟩ (by decide) ⟨_,room⟩
    built [requestWire healthRequest] [responseWire response]
    (by decide +kernel) [] [] rfl (by decide +kernel) (by decide) (List.append_nil _) fitting
    (List.append_nil _) answered small
  exact ⟨served,got,result,body,status.trans (by decide +kernel)⟩

theorem visitSafeHealth :
    let far : Stream := ⟨[.data ((requestWire healthRequest).take 10),.close],[],[]⟩
    let served := handleHttpConnectionWithSizes .bits32 128 128 simpleHandler () far
    served.handled = [] ∨ served.handled = [delivered healthRequest] := by
  intro far served
  obtain ⟨parsed,solid⟩ := healthUrlParsed
  have none (P : HttpHeader → Prop) : ∀ h ∈ ([] : List HttpHeader), P h :=
    fun h mem => absurd mem List.not_mem_nil
  have safe :=
    (visitSafe (oneHost ⟨[.close],[],[]⟩) .bits32 128 2 128 128 (by decide) simpleHandler () .GET
      healthUrl solid [] (none _)
    (none _) (by decide) Option.none (by decide) (List.replicate 128 0)).2 healthEndpoint
    ⟨[.close],[],[]⟩ far parsed
    (oneHostReaches _ _ _ _) ⟨rfl,rfl⟩
  exact (safe (simpleAnswers .bits32 _).1 (by decide +kernel) List.nil_prefix).1

end Nanofish.Visits

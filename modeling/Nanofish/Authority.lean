import Nanofish.Endpoint
import Nanofish.Injection

/-! What of a URL's authority comes back in the Host field. The parser cuts the port
off, the client connects to it and passes on the rest, and nothing puts it back. -/
namespace Nanofish.Authority
open Rust Rust.Utf8 Rust.Text Rust.Pattern
open Protocol Codes Codec Client RoundTrip RequestRoundTrip Injection Endpoint

def defaultPort (scheme : Str) : Nat :=
  if scheme = "https".toList then defaultHttpsPort else defaultHttpPort

def portOf (authority : Str) : Option (Str × Nat) :=
  if ':' ∈ authority then
    let text := (authority.reverse.takeWhile (· ≠ ':')).reverse
    (fromStrRadix 10 maxU16 text).map fun port =>
      (authority.take (authority.length - text.length - 1),port)
  else none

def authorityOf (hostPort : Str) : Str := hostPort.takeWhile (· ≠ '/')

def targetOf (hostPort : Str) : Str :=
  if hostPort.dropWhile (· ≠ '/') = [] then "/".toList else hostPort.dropWhile (· ≠ '/')

def endpointOf (scheme hostPort : Str) : HttpEndpoint :=
  let parts := (portOf (authorityOf hostPort)).getD (authorityOf hostPort,defaultPort scheme)
  ⟨scheme,parts.1,parts.2,targetOf hostPort⟩

theorem portOfAt (name : Str) {text : Str} (absent : ':' ∉ text) :
    portOf (name ++ ':' :: text) = (fromStrRadix 10 maxU16 text).map fun port => (name,port) := by
  have behind : ((name ++ ':' :: text).reverse.takeWhile (· ≠ ':')).reverse = text := by
    have plain := alwaysApart fun mem => absent (List.mem_reverse.mp mem)
    rw [List.reverse_append, List.reverse_cons, List.append_assoc, List.takeWhile_append_of_pos plain]
    simp
  have size : (name ++ ':' :: text).length - text.length - 1 = name.length := by
    rw [List.length_append, List.length_cons]
    omega
  rw [portOf, if_pos (by simp)]
  simp only [behind, size, List.take_left]

theorem splitAtLast {s : Str} (mem : ':' ∈ s) : ∃ name text, s = name ++ ':' :: text ∧ ':' ∉ text := by
  obtain ⟨front,back,shape,absent⟩ := List.eq_append_cons_of_mem (List.mem_reverse.mpr mem)
  refine ⟨back.reverse,front.reverse,?_,fun inside => absent (List.mem_reverse.mp inside)⟩
  have whole := congrArg List.reverse shape
  rwa [List.reverse_reverse, List.reverse_append, List.reverse_cons, List.append_assoc,
    List.singleton_append] at whole

theorem authorityAt {authority : Str} (absent : '/' ∉ authority) {target : Str}
    (start : target = [] ∨ target.head? = some '/') :
    authorityOf (authority ++ target) = authority ∧
    (authority ++ target).dropWhile (· ≠ '/') = target := by
  have front := alwaysApart absent
  rw [authorityOf, List.takeWhile_append_of_pos front, List.dropWhile_append_of_pos front]
  rcases start with rfl | start
  · simp
  · obtain ⟨rest,rfl⟩ := List.head?_eq_some_iff.mp start
    simp

theorem authoritySplit (hostPort : Str) :
    ∃ authority target, hostPort = authority ++ target ∧ '/' ∉ authority ∧
    (target = [] ∨ target.head? = some '/') := by
  by_cases mem : '/' ∈ hostPort
  · obtain ⟨front,back,rfl,absent⟩ := List.eq_append_cons_of_mem mem
    exact ⟨front,'/' :: back,rfl,absent,.inr rfl⟩
  · exact ⟨hostPort,[],by simp,mem,.inl rfl⟩

theorem hostFirst {authority : Str} (absent : '/' ∉ authority) {target : Str}
    (start : target = [] ∨ target.head? = some '/') :
    ((authority ++ target).splitOn '/').head? = some authority := by
  rcases start with rfl | start
  · rw [List.append_nil, List.splitOn_eq_singleton absent, List.head?_cons]
  · obtain ⟨rest,rfl⟩ := List.head?_eq_some_iff.mp start
    rw [List.splitOn_append_cons_self_of_not_mem absent, List.head?_cons]

theorem splitPortExact (authority : Str) (default : Nat) :
    splitPort authority default = .ok ((portOf authority).getD (authority,default)) := by
  by_cases mem : ':' ∈ authority
  · obtain ⟨name,text,rfl,absent⟩ := splitAtLast mem
    have size : byteLen name + 1 = byteLen (name ++ [':']) := by rw [byteLenAppend]; rfl
    have behind : (strFrom (name ++ ':' :: text) (byteLen name + 1) : Outcome Error Str) = .ok text := by
      rw [size, show name ++ ':' :: text = name ++ [':'] ++ text by simp, strFromAppend]
    simp only [splitPort, rfindLast name absent, behind, Outcome.okBind, portOfAt name absent]
    cases fromStrRadix 10 maxU16 text with
    | none => rfl
    | some port => simp only [strToAppend, Outcome.okBind, Option.map_some, Option.getD_some]
  · have none : portOf authority = none := if_neg mem
    rw [splitPort, rfindAbsent mem, none]
    rfl

theorem splitSchemeOk {endpoint scheme hostPort : Str} : splitScheme endpoint = .ok (scheme,hostPort) ↔
    (scheme = "http".toList ∨ scheme = "https".toList) ∧
    endpoint = scheme ++ "://".toList ++ hostPort := by
  have plain (rest : Str) : "http".toList ++ "://".toList ++ rest = "http://".toList ++ rest := rfl
  have secure (rest : Str) : "https".toList ++ "://".toList ++ rest = "https://".toList ++ rest := rfl
  have apart (rest : Str) : stripPrefix "http://".toList ("https://".toList ++ rest) = none := rfl
  unfold splitScheme
  constructor
  · intro cut
    split at cut
    · rename_i rest stripped
      cases cut
      exact ⟨.inl rfl,stripPrefixSome.mp stripped⟩
    · split at cut
      · rename_i rest stripped
        cases cut
        exact ⟨.inr rfl,stripPrefixSome.mp stripped⟩
      · contradiction
  · rintro ⟨rfl | rfl,rfl⟩
    · rw [plain, stripPrefixSome.mpr rfl]
    · rw [secure, apart, stripPrefixSome.mpr rfl]

theorem parseEndpointOk {endpoint : Str} {e : HttpEndpoint} : parseEndpoint endpoint = .ok e ↔
    ∃ scheme hostPort, (scheme = "http".toList ∨ scheme = "https".toList) ∧
      endpoint = scheme ++ "://".toList ++ hostPort ∧ e = endpointOf scheme hostPort := by
  have behind (scheme hostPort : Str) (cut : splitScheme endpoint = .ok (scheme,hostPort)) :
      parseEndpoint endpoint = .ok (endpointOf scheme hostPort) := by
    obtain ⟨authority,target,rfl,absent,start⟩ := authoritySplit hostPort
    obtain ⟨front,rest⟩ := authorityAt absent start
    rw [parseEndpoint, cut, Outcome.okBind]
    simp only [hostFirst absent start, Outcome.ofOptionSome, Outcome.okBind, strFromAppend,
      splitPortExact, endpointOf, targetOf, front, rest, List.isEmpty_iff, defaultPort]
  constructor
  · intro parsed
    obtain ⟨⟨scheme,hostPort⟩,cut,_⟩ := Outcome.bindOk.mp parsed
    obtain ⟨known,shape⟩ := splitSchemeOk.mp cut
    rw [behind scheme hostPort cut] at parsed
    cases parsed
    exact ⟨scheme,hostPort,known,shape,rfl⟩
  · rintro ⟨scheme,hostPort,known,shape,rfl⟩
    exact behind scheme hostPort (splitSchemeOk.mpr ⟨known,shape⟩)

theorem portOfText {authority name : Str} {port : Nat} (found : portOf authority = some (name,port)) :
    ∃ text, authority = name ++ ':' :: text ∧ fromStrRadix 10 maxU16 text = some port := by
  by_cases mem : ':' ∈ authority
  · obtain ⟨front,text,rfl,absent⟩ := splitAtLast mem
    rw [portOfAt front absent] at found
    obtain ⟨number,parsed,same⟩ := Option.map_eq_some_iff.mp found
    cases same
    exact ⟨text,rfl,parsed⟩
  · rw [portOf, if_neg mem] at found
    contradiction

/- The value in the line that is written for a host: its text as far as the first line end,
trimmed. -/
def hostValue (host : Str) : Str := trim ((splitCrlf host).headD [])

theorem hostValueInfix (host : Str) : hostValue host <:+: host := by
  refine (trimInfix _).trans ?_
  rw [splitCrlf]
  rcases splitPairFirst (a := '\r') (b := '\n') host with ⟨_,whole⟩ | ⟨l,u,rfl,_,first⟩
  · simpa only [whole, List.headD_cons] using List.infix_refl host
  · rw [first, List.headD_cons]
    exact (List.prefix_append l _).isInfix

theorem hostValueWhole {host : Str} : hostValue host = host ↔ OneLine host ∧ EdgesClean host := by
  constructor
  · intro same
    refine ⟨?_,same ▸ trimEdges _⟩
    obtain ⟨l,ls,split⟩ := List.exists_cons_of_ne_nil (splitPairNe (a := '\r') (b := '\n') host)
    have single : position ['\r','\n'] l = none :=
      splitSingle (by decide) host l (by rw [split]; exact List.mem_cons_self)
    have part : host <:+: l := by
      conv => lhs; rw [← same]
      rw [hostValue, splitCrlf, split, List.headD_cons]
      exact trimInfix l
    exact positionInfix (by simp) single part
  · rintro ⟨single,edges⟩
    rw [hostValue, splitCrlf, splitPairWhole.mpr single, List.headD_cons, trimClean edges]

theorem hostLineRead (host more : Str) :
    (splitCrlf (headerLine (hostHeader host) ++ "\r\n".toList ++ more)).head?.bind
    (lineValue "Host".toList) =
      some (hostValue host) := by
  obtain ⟨l,ls,split⟩ := List.exists_cons_of_ne_nil (splitPairNe (a := '\r') (b := '\n') host)
  have front : '\r' ∉ "Host: ".toList := by decide
  have first : splitCrlf (headerLine (hostHeader host) ++ "\r\n".toList ++ more) =
      ("Host: ".toList ++ l) :: (ls ++ splitCrlf more) := by
    rw [show headerLine (hostHeader host) = "Host: ".toList ++ host from rfl, List.append_assoc,
      show "\r\n".toList ++ more = '\r' :: '\n' :: more from rfl, splitCrlfAppend, splitCrlf,
      splitPairPadded front, split]
    rfl
  rw [first, List.head?_cons, Option.bind_some, hostValue, splitCrlf, split, List.headD_cons]
  refine lineValueShape.mpr ⟨"Host".toList,' ' :: l,rfl,by decide,by decide,?_⟩
  rw [trimPadded (by decide)]

theorem passedOn (scheme hostPort : Str) {h : Str} (part : h <:+: (endpointOf scheme hostPort).host) :
    authorityOf (h ++ (endpointOf scheme hostPort).path) = h ∧
      targetOf (h ++ (endpointOf scheme hostPort).path) = (endpointOf scheme hostPort).path := by
  obtain ⟨authority,target,rfl,absent,start⟩ := authoritySplit hostPort
  obtain ⟨front,rest⟩ := authorityAt absent start
  have host : '/' ∉ (endpointOf scheme (authority ++ target)).host := by
    simp only [endpointOf, front]
    cases found : portOf authority with
    | none => exact absent
    | some pair =>
      obtain ⟨name,port⟩ := pair
      obtain ⟨text,shape,_⟩ := portOfText found
      exact fun mem => absent (by rw [shape]; exact List.mem_append_left _ mem)
  have path : (endpointOf scheme (authority ++ target)).path.head? = some '/' := by
    simp only [endpointOf, targetOf, rest]
    split
    · rfl
    · rename_i some
      exact start.resolve_left some
  obtain ⟨again,behind⟩ := authorityAt (fun mem => host (part.subset mem)) (.inr path)
  refine ⟨again,?_⟩
  rw [targetOf, behind, if_neg (by rintro none; rw [none] at path; contradiction)]

/- The same endpoint comes back exactly when its host is read whole, its port is the default
one and its host does not look like a host and port. -/
theorem reparsed (scheme hostPort : Str) {h : Str} (part : h <:+: (endpointOf scheme hostPort).host) :
    let e := endpointOf scheme hostPort
    let e' := endpointOf scheme (h ++ e.path)
    (e'.host = e.host ∧ e'.port = e.port ∧ e'.path = e.path) ↔
      h = e.host ∧ portOf e.host = none ∧ e.port = defaultPort scheme := by
  intro e e'
  obtain ⟨authority,target⟩ := passedOn scheme hostPort part
  have shape : e' = ⟨scheme,((portOf h).getD (h,defaultPort scheme)).1,
      ((portOf h).getD (h,defaultPort scheme)).2,e.path⟩ := by
    simp only [e', endpointOf]
    rw [authority, target]
  rw [shape]
  cases found : portOf h with
  | none =>
    simp only [Option.getD_none, and_true]
    constructor
    · rintro ⟨same,port⟩
      exact ⟨same,same ▸ found,port.symm⟩
    · rintro ⟨same,_,port⟩
      exact ⟨same,port.symm⟩
  | some pair =>
    obtain ⟨name,port⟩ := pair
    obtain ⟨text,whole,_⟩ := portOfText found
    refine iff_of_false ?_ ?_
    · rintro ⟨same,_⟩
      have longer := congrArg List.length whole
      have shorter := part.length_le
      rw [← show name = e.host from same] at shorter
      simp at longer
      omega
    · rintro ⟨same,plain,_⟩
      rw [same, plain] at found
      contradiction

def nameOf (authority : Str) : Str := ((portOf authority).map Prod.fst).getD authority

structure NamedWhole (scheme authority : Str) : Prop where
  port : ∀ name port, portOf authority = some (name,port) →
    port = defaultPort scheme ∧ portOf name = none
  line : OneLine (nameOf authority)
  edges : EdgesClean (nameOf authority)

theorem namedWholeIff (scheme hostPort : Str) :
    let e := endpointOf scheme hostPort
    hostValue e.host = e.host ∧ portOf e.host = none ∧ e.port = defaultPort scheme ↔
      NamedWhole scheme (authorityOf hostPort) := by
  intro e
  have host : e.host = nameOf (authorityOf hostPort) := by
    simp only [e, endpointOf, nameOf]
    cases portOf (authorityOf hostPort) <;> rfl
  have plain : portOf e.host = none ∧ e.port = defaultPort scheme ↔ ∀ name port,
      portOf (authorityOf hostPort) = some (name,port) →
      port = defaultPort scheme ∧ portOf name = none := by
    simp only [e, endpointOf]
    cases found : portOf (authorityOf hostPort) with
    | none => simp [found]
    | some pair =>
      obtain ⟨name,port⟩ := pair
      simp only [Option.getD_some, Option.some.injEq, Prod.mk.injEq]
      constructor
      · rintro ⟨plain,default⟩ _ _ ⟨rfl,rfl⟩
        exact ⟨default,plain⟩
      · intro whole
        exact (whole name port ⟨rfl,rfl⟩).symm
  rw [plain, hostValueWhole, host]
  exact ⟨fun ⟨⟨line,edges⟩,port⟩ => ⟨port,line,edges⟩,fun whole => ⟨⟨whole.line,whole.edges⟩,whole.port⟩⟩

section Sent
variable {Addr : Type} (net : Network Addr) (t : Target) (RQ maxRetries : Nat) (method : HttpMethod)
  (headers : List HttpHeader) (body : Option Bytes) (buffer : Bytes)

theorem requestEndpoint {url : Str} {e : HttpEndpoint} (parsed : parseEndpoint url = .ok e) :
    (∃ failure, EmbassyHttpClient.request net t RQ maxRetries method url headers body buffer =
      ⟨.err failure,[],0⟩) ∨
    ∃ socket stream, connectTo net e.host e.port = .ok socket ∧
      EmbassyHttpClient.request net t RQ maxRetries method url headers body buffer =
        requestWithRetryDelay t RQ maxRetries stream ⟨method,e.host,e.path,headers,body⟩ buffer := by
  simp only [EmbassyHttpClient.request, parsed]
  split
  · split
    · exact .inl ⟨_,rfl⟩
    · rename_i tlsOpen _
      simp only [makeHttpsRequest]
      cases connected : connectTo net e.host e.port with
      | error failure => exact .inl ⟨failure,rfl⟩
      | ok socket =>
        cases opened : tlsOpen e.host socket with
        | error failure => exact .inl ⟨failure,by simp only [opened]⟩
        | ok tls => exact .inr ⟨socket,tls,rfl,by simp only [opened]⟩
  · split
    · simp only [makeHttpRequest]
      cases connected : connectTo net e.host e.port with
      | error failure => exact .inl ⟨failure,rfl⟩
      | ok socket => exact .inr ⟨socket,socket,rfl,rfl⟩
    · exact .inl ⟨_,rfl⟩

end Sent

theorem hostLineWritten {RQ : Nat} {method : HttpMethod} {host path : Str}
    {headers : List HttpHeader} {body : Option Bytes} {head : Vec UInt8 RQ}
    (built : buildReq RQ method host path headers body = .ok head) :
    ∃ more, head.items = asBytes (requestLine method path ++ "\r\n".toList ++ more) ∧
      (splitCrlf more).head?.bind (lineValue "Host".toList) = some (hostValue host) := by
  let fields := (headers ++ autoLength headers body ++ [connectionClose]).map headerLine
  refine ⟨headerLine (hostHeader host) ++ "\r\n".toList ++
    (fields.flatMap (· ++ ['\r','\n']) ++ ['\r','\n']),?_,
    hostLineRead host _⟩
  have lines : requestLines method host path headers body =
      requestLine method path :: headerLine (hostHeader host) :: fields := by
    simp [requestLines,requestFields,fields]
  rw [buildReqItems built, lines, terminated, ← crlfEncoded, ← asBytesAppend]
  simp [show "\r\n".toList = ['\r','\n'] from rfl]

theorem hostNamesAuthority (url : Str) (e : HttpEndpoint) (accepted : parseEndpoint url = .ok e) :
    (∀ (Addr : Type) (net : Network Addr) (t : Target) (RQ maxRetries : Nat) (method : HttpMethod)
        (headers : List HttpHeader) (body : Option Bytes) (buffer : Bytes),
      let exchange := EmbassyHttpClient.request net t RQ maxRetries method url headers body buffer
      (∃ failure, exchange = ⟨.err failure,[],0⟩) ∨
      ∃ socket stream, connectTo net e.host e.port = .ok socket ∧
        exchange =
          requestWithRetryDelay t RQ maxRetries stream ⟨method,e.host,e.path,headers,body⟩ buffer ∧
        ∀ head, buildReq RQ method e.host e.path headers body = .ok head →
          ∃ more, head.items = asBytes (requestLine method e.path ++ "\r\n".toList ++ more) ∧
            (splitCrlf more).head?.bind (lineValue "Host".toList) = some (hostValue e.host)) ∧
    ∃ hostPort, url = e.scheme ++ "://".toList ++ hostPort ∧
      ((∃ e', parseEndpoint (e.scheme ++ "://".toList ++ (hostValue e.host ++ e.path)) = .ok e' ∧
        e'.host = e.host ∧ e'.port = e.port ∧ e'.path = e.path) ↔
      NamedWhole e.scheme (authorityOf hostPort)) := by
  constructor
  · intro Addr net t RQ maxRetries method headers body buffer exchange
    rcases requestEndpoint net t RQ maxRetries method headers body buffer accepted with
      failed | ⟨socket,stream,connected,same⟩
    · exact .inl failed
    · exact .inr ⟨socket,stream,connected,same,fun head built => hostLineWritten built⟩
  · obtain ⟨scheme,hostPort,known,shape,rfl⟩ := parseEndpointOk.mp accepted
    refine ⟨hostPort,shape,?_⟩
    have again : parseEndpoint (scheme ++ "://".toList ++ (hostValue (endpointOf scheme hostPort).host ++
        (endpointOf scheme hostPort).path)) = .ok _ := parseEndpointOk.mpr ⟨scheme,_,known,rfl,rfl⟩
    have same := (reparsed scheme hostPort (hostValueInfix _)).trans (namedWholeIff scheme hostPort)
    refine Iff.trans ⟨?_,fun back => ⟨_,again,back⟩⟩ same
    rintro ⟨e',parsed,back⟩
    cases again.symm.trans parsed
    exact back

theorem hostNamesAuthorityDefault :
    ∃ hostPort, "http://[::1]:80/a".toList = "http".toList ++ "://".toList ++ hostPort ∧
      ((∃ e', parseEndpoint ("http".toList ++ "://".toList ++
        (hostValue "[::1]".toList ++ "/a".toList)) = .ok e' ∧
        e'.host = "[::1]".toList ∧ e'.port = 80 ∧ e'.path = "/a".toList) ↔
      NamedWhole "http".toList (authorityOf hostPort)) :=
  (hostNamesAuthority "http://[::1]:80/a".toList ⟨"http".toList,"[::1]".toList,80,"/a".toList⟩
    (by decide +kernel)).2

theorem hostLosesPort :
    let net : Network Unit := ⟨fun _ _ => some [()],fun _ _ => some ⟨[],[],[]⟩,none⟩
    parseEndpoint "http://h:8080/x".toList = .ok ⟨"http".toList,"h".toList,8080,"/x".toList⟩ ∧
    (EmbassyHttpClient.request net .bits32 128 1 .GET "http://h:8080/x".toList [] none []).written =
      asBytes "GET /x HTTP/1.1\r\nHost: h\r\nConnection: close\r\n\r\n".toList ∧
    parseEndpoint ("http".toList ++ "://".toList ++ ("h".toList ++ "/x".toList)) =
      .ok ⟨"http".toList,"h".toList,80,"/x".toList⟩ := by
  repeat rw [String.toList_ofList]
  decide +kernel

end Nanofish.Authority

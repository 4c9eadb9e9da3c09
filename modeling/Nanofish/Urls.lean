import Nanofish.Authority

/-! What `parse_endpoint` makes of a URL as a whole: it gives back the parts a URL was
put together from, it keeps every character of any URL it accepts, and what it calls a
host need not be one. -/
namespace Nanofish.Urls
open Rust Rust.Utf8 Rust.Text
open Protocol Codes Client Endpoint Authority

def Known (scheme : Str) : Prop := scheme = "http".toList ∨ scheme = "https".toList

def pathOr (target : Str) : Str := if target = [] then "/".toList else target

def HostText (host : Str) : Prop :=
  ('/' ∉ host ∧ ':' ∉ host) ∨ ∃ inner, host = '[' :: (inner ++ [']']) ∧ '/' ∉ inner

theorem numberPlain {c : Char} (noDigit : digitValue 10 c = none) (noSign : c ≠ '+') {max p : Nat}
    {text : Str} (number : fromStrRadix 10 max text = some p) : c ∉ text := by
  obtain ⟨_,ds,⟨_,digits,_⟩,shape⟩ := (fromStrRadixIff (by decide)).mp number
  have absent : c ∉ ds := fun mem => by simpa [noDigit] using digits c mem
  rcases shape with rfl | rfl
  · exact absent
  · simp [noSign,absent]

-- Behind every colon comes a bracket, so none of them starts a port.
theorem portOfClosed {authority : Str}
    (closed : ∀ name text, authority = name ++ ':' :: text → ']' ∈ text) :
    portOf authority = none := by
  by_cases mem : ':' ∈ authority
  · obtain ⟨name,text,rfl,absent⟩ := splitAtLast mem
    rw [portOfAt name absent, Option.map_eq_none_iff]
    cases number : fromStrRadix 10 maxU16 text with
    | none => rfl
    | some p => exact absurd (closed name text rfl) (numberPlain (by decide) (by decide) number)
  · exact if_neg mem

theorem portOfHost {host : Str} (form : HostText host) : portOf host = none := by
  rcases form with ⟨_,plain⟩ | ⟨inner,rfl,_⟩
  · exact if_neg plain
  · refine portOfClosed fun name text shape => ?_
    rcases List.eq_nil_or_concat text with rfl | ⟨more,c,rfl⟩
    · exact absurd (List.append_inj' (show ('[' :: inner) ++ [']'] = name ++ [':'] from shape)
        rfl).2 (by decide)
    · have ends : ('[' :: inner) ++ [']'] = (name ++ ':' :: more) ++ [c] := by simpa using shape
      have last : [']'] = [c] := (List.append_inj' ends rfl).2
      rw [List.concat_eq_append]
      exact List.mem_append_right _ (last ▸ List.mem_singleton_self _)

theorem hostNoSlash {host : Str} (form : HostText host) : '/' ∉ host := by
  rcases form with ⟨plain,_⟩ | ⟨inner,rfl,plain⟩
  · exact plain
  · simp [plain]

theorem endpointAt (scheme : Str) {authority : Str} (absent : '/' ∉ authority) {target : Str}
    (start : target = [] ∨ target.head? = some '/') : endpointOf scheme (authority ++ target) =
      ⟨scheme,((portOf authority).getD (authority,defaultPort scheme)).1,
        ((portOf authority).getD (authority,defaultPort scheme)).2,pathOr target⟩ := by
  obtain ⟨front,rest⟩ := authorityAt absent start
  rw [endpointOf, targetOf, front, rest]
  rfl

theorem parseEndpointReturns (url : Str) : (parseEndpoint url).Returns := by
  cases cut : splitScheme url with
  | ok parts =>
    obtain ⟨known,shape⟩ := splitSchemeOk.mp cut
    rw [parseEndpointOk.mpr ⟨parts.1,parts.2,known,shape,rfl⟩]
    trivial
  | err e => rw [parseEndpoint, cut]; trivial
  | panic =>
    unfold splitScheme at cut
    split at cut
    · contradiction
    · split at cut <;> contradiction
  | pending =>
    unfold splitScheme at cut
    split at cut
    · contradiction
    · split at cut <;> contradiction

theorem urlParts :
    (∀ scheme host path, Known scheme → HostText host → (path = [] ∨ path.head? = some '/') →
      parseEndpoint (scheme ++ "://".toList ++ host ++ path) =
        .ok ⟨scheme,host,defaultPort scheme,pathOr path⟩ ∧
      ∀ digits port, Numeral 10 digits port → port ≤ maxU16 →
        parseEndpoint (scheme ++ "://".toList ++ host ++ ':' :: digits ++ path) =
          .ok ⟨scheme,host,port,pathOr path⟩) ∧
    ∀ url, (parseEndpoint url).Returns ∧ ∀ e, parseEndpoint url = .ok e →
      ∃ authority target, url = e.scheme ++ "://".toList ++ authority ++ target ∧
        (target = e.path ∨ target = [] ∧ e.path = "/".toList) ∧
        (authority = e.host ∧ e.port = defaultPort e.scheme ∨
          ∃ digits, authority = e.host ++ ':' :: digits ∧
            fromStrRadix 10 maxU16 digits = some e.port) := by
  refine ⟨fun scheme host path known form start => ⟨?_,fun digits port numeral small => ?_⟩,
    fun url => ⟨parseEndpointReturns url,fun e parsed => ?_⟩⟩
  · refine parseEndpointOk.mpr ⟨scheme,host ++ path,known,by simp,?_⟩
    rw [endpointAt scheme (hostNoSlash form) start, portOfHost form]
    rfl
  · have number : fromStrRadix 10 maxU16 digits = some port :=
      (fromStrRadixIff (by decide)).mpr ⟨small,digits,numeral,.inl rfl⟩
    have apart : '/' ∉ host ++ ':' :: digits := by
      simp [hostNoSlash form,numberPlain (c := '/') (by decide) (by decide) number]
    refine parseEndpointOk.mpr ⟨scheme,host ++ ':' :: digits ++ path,known,by simp,?_⟩
    rw [endpointAt scheme apart start, portOfAt host (numberPlain (by decide) (by decide) number),
      number]
    rfl
  · obtain ⟨scheme,hostPort,known,shape,rfl⟩ := parseEndpointOk.mp parsed
    obtain ⟨authority,target,rfl,absent,start⟩ := authoritySplit hostPort
    rw [endpointAt scheme absent start]
    refine ⟨authority,target,by rw [shape, List.append_assoc _ authority],?_,?_⟩
    · by_cases none : target = []
      · exact .inr ⟨none,if_pos none⟩
      · exact .inl (if_neg none).symm
    · cases found : portOf authority with
      | none => exact .inl ⟨rfl,rfl⟩
      | some pair =>
        obtain ⟨name,port⟩ := pair
        obtain ⟨digits,rfl,number⟩ := portOfText found
        exact .inr ⟨digits,rfl,number⟩

theorem urlPartsBrackets :
    parseEndpoint ("https".toList ++ "://".toList ++ "[::1]".toList ++ ':' :: "443".toList ++
      "/a:b?c".toList) =
      .ok ⟨"https".toList,"[::1]".toList,443,"/a:b?c".toList⟩ :=
  (urlParts.1 "https".toList "[::1]".toList "/a:b?c".toList (.inr rfl)
    (.inr ⟨"::1".toList,by decide,by decide⟩)
    (.inr (by decide))).2 "443".toList 443 (by decide) (by decide)

/- What deserves the name of a host. A colon stands in a literal when the brackets next
to it open before and close behind it. -/
def InBrackets (before behind : Str) : Prop :=
  ∃ a b c d, before = a ++ '[' :: b ∧ behind = c ++ ']' :: d ∧ ∀ x ∈ b ++ c, x ≠ '[' ∧ x ≠ ']'

structure HostOnly (host : Str) : Prop where
  nonempty : host ≠ []
  plain : '/' ∉ host ∧ '?' ∉ host ∧ '#' ∉ host
  colons : ∀ before behind, host = before ++ ':' :: behind → InBrackets before behind

def WellFormed (authority : Str) : Prop :=
  HostOnly authority ∨ ∃ host digits port, authority = host ++ ':' :: digits ∧ HostOnly host ∧
    fromStrRadix 10 maxU16 digits = some port

def BadPort (authority : Str) : Prop :=
  ∃ host digits, authority = host ++ ':' :: digits ∧ HostOnly host ∧ ':' ∉ digits ∧ ']' ∉ digits ∧
    fromStrRadix 10 maxU16 digits = none

def HasAuthority (url authority : Str) : Prop :=
  ∃ scheme target, Known scheme ∧ '/' ∉ authority ∧ (target = [] ∨ target.head? = some '/') ∧
    url = scheme ++ "://".toList ++ (authority ++ target)

theorem hostClosed {host : Str} (only : HostOnly host) : portOf host = none := by
  refine portOfClosed fun name text shape => ?_
  obtain ⟨_,_,c,d,_,behind,_⟩ := only.colons name text shape
  simp [behind]

theorem endpointHost {scheme authority : Str} (absent : '/' ∉ authority) {target : Str}
    (start : target = [] ∨ target.head? = some '/') :
    HostOnly (endpointOf scheme (authority ++ target)).host ↔ WellFormed authority := by
  rw [endpointAt scheme absent start]
  constructor
  · intro only
    cases found : portOf authority with
    | none =>
      rw [found] at only
      exact .inl only
    | some pair =>
      obtain ⟨name,port⟩ := pair
      obtain ⟨digits,shape,number⟩ := portOfText found
      rw [found] at only
      exact .inr ⟨name,digits,port,shape,only,number⟩
  · rintro (only | ⟨host,digits,port,rfl,only,number⟩)
    · rw [hostClosed only]
      exact only
    · rw [portOfAt host (numberPlain (by decide) (by decide) number), number]
      exact only

theorem badPortMalformed {authority : Str} (bad : BadPort authority) : ¬ WellFormed authority := by
  obtain ⟨host,digits,rfl,_,last,outside,noNumber⟩ := bad
  rintro (only | ⟨host',digits',port,shape,_,number⟩)
  · obtain ⟨_,_,c,d,_,behind,_⟩ := only.colons host digits rfl
    exact outside (by simp [behind])
  · have first := portOfAt host last
    have second := portOfAt host' (numberPlain (c := ':') (by decide) (by decide) number)
    rw [shape, second, number, noNumber] at first
    contradiction

theorem hostOnly (url : Str) :
    ((∀ e, parseEndpoint url = .ok e → HostOnly e.host) ∧
      ∀ authority, HasAuthority url authority → BadPort authority →
        parseEndpoint url = .err .invalidUrl) ↔
    ∀ authority, HasAuthority url authority → WellFormed authority := by
  constructor
  · rintro ⟨hosts,_⟩ authority ⟨scheme,target,known,absent,start,shape⟩
    have parsed := parseEndpointOk.mpr ⟨scheme,authority ++ target,known,shape,rfl⟩
    exact (endpointHost absent start).mp (hosts _ parsed)
  · intro formed
    refine ⟨fun e parsed => ?_,fun authority has bad =>
      absurd (formed authority has) (badPortMalformed bad)⟩
    obtain ⟨scheme,hostPort,known,shape,rfl⟩ := parseEndpointOk.mp parsed
    obtain ⟨authority,target,rfl,absent,start⟩ := authoritySplit hostPort
    exact (endpointHost absent start).mpr (formed authority ⟨scheme,target,known,absent,start,shape⟩)

/- A query taken into the host, a port that is too large, and no host at all. -/
theorem hostNotOnly :
    parseEndpoint "http://h?q=1".toList = .ok ⟨"http".toList,"h?q=1".toList,80,"/".toList⟩ ∧
    parseEndpoint "http://h:99999/x".toList = .ok ⟨"http".toList,"h:99999".toList,80,"/x".toList⟩ ∧
    parseEndpoint "http:///x".toList = .ok ⟨"http".toList,[],80,"/x".toList⟩ ∧
    ¬ ∀ url e, parseEndpoint url = .ok e → HostOnly e.host := by
  refine ⟨by decide +kernel,by decide +kernel,by decide +kernel,fun always => ?_⟩
  have only :=
    always "http://h?q=1".toList ⟨"http".toList,"h?q=1".toList,80,"/".toList⟩ (by decide +kernel)
  exact only.plain.2.1 (by decide)

end Nanofish.Urls

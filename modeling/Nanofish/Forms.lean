import Mathlib.Data.List.Find
import Nanofish.Exchanges
import Nanofish.PercentDecode
import Nanofish.Query

/-! Forms in the query of a target: what a caller writes there, pair by pair, is what the
handler on the other side finds, by the iterator and its decoder or by name and index. -/
namespace Nanofish.Forms
open Rust Rust.Utf8 Rust.Text Rust.Reads
open Protocol Codes Client Request Retries Messages Exchanges Serving
open Query PercentDecode

def segmentOf (pair : QueryPair) : Str := pair.name ++ '=' :: pair.value

def formTarget (route : Str) (form : List QueryPair) : Str :=
  route ++ '?' :: ['&'].intercalate (form.map segmentOf)

-- The first `=` of a segment stands between name and value, and the separators around it.
def Separable (pair : QueryPair) : Prop := '=' ∉ pair.name ∧ '&' ∉ pair.name ∧ '&' ∉ pair.value
instance (pair : QueryPair) : Decidable (Separable pair) := by unfold Separable; infer_instance

theorem pairSegment {pair : QueryPair} (separable : Separable pair) :
    pairOf (segmentOf pair) = pair := by
  obtain ⟨name,value⟩ := takeDropAt separable.1 pair.value
  rw [pairOf, segmentOf, name, value]

theorem pairsJoined {form : List QueryPair} (separable : ∀ pair ∈ form, Separable pair) :
    pairsOf (['&'].intercalate (form.map segmentOf)) = form := by
  cases form with
  | nil => rfl
  | cons first rest =>
    have apart : ∀ segment ∈ (first :: rest).map segmentOf, '&' ∉ segment := by
      intro segment mem
      obtain ⟨pair,own,rfl⟩ := List.mem_map.mp mem
      obtain ⟨_,name,value⟩ := separable pair own
      simp [segmentOf,name,value]
    have solid : ((first :: rest).map segmentOf).filter (· ≠ []) = (first :: rest).map segmentOf := by
      refine List.filter_eq_self.mpr fun segment mem => ?_
      obtain ⟨pair,_,rfl⟩ := List.mem_map.mp mem
      simp [segmentOf]
    rw [pairsOf, List.splitOn_intercalate '&' apart (by simp), solid, List.map_map]
    exact (List.map_congr_left fun pair mem => pairSegment (separable pair mem)).trans (List.map_id _)

section Target
variable {route : Str} (plain : '?' ∉ route) {form : List QueryPair} {q : HttpRequest}
  (path : q.path = formTarget route form)
include plain path

theorem formParts :
    routePath q = route ∧ (queryPairs q).remaining = ['&'].intercalate (form.map segmentOf) := by
  rw [routePath, queryPairs, queryString, path, formTarget, splitOnceFirst plain]
  exact ⟨rfl,rfl⟩

theorem formItems (separable : ∀ pair ∈ form, Separable pair) :
    queryPairsIter.items (queryPairs q) = form := by
  rw [itemsPairs, (formParts plain path).2, pairsJoined separable]

end Target

structure Encodes (raw meant : QueryPair) : Prop where
  separable : Separable raw
  name : Spelled Literal (asBytes raw.name) (asBytes meant.name)
  value : Spelled Literal (asBytes raw.value) (asBytes meant.value)

theorem textDecodes {raw meant : Str} (spelled : Spelled Literal (asBytes raw) (asBytes meant))
    (out : Bytes) :
    (percentDecode raw out).1 = if byteLen meant ≤ out.length then .ok meant else
    .err .bufferOverflow := by
  rw [percentDecodeSpelled spelled, fromUtf8AsBytes, ← byteLen]
  split <;> rfl

theorem formDelivered (t : Target) (REQ_SIZE : Nat) (real : REQ_SIZE ≤ t.isizeMax) (route : Str)
    (plain : '?' ∉ route) (form : List (QueryPair × QueryPair))
    (encoded : ∀ pair ∈ form, Encodes pair.1 pair.2) (req : HttpClientRequest)
    (good : Sendable t req) (path : req.path = formTarget route (form.map Prod.fst))
    (stream : Stream) (arrives : arrived stream.reads <+: requestWire req) (q : HttpRequest)
    (ok : accepted t REQ_SIZE stream = .ok q) :
    routePath q = route ∧ queryPairsIter.items (queryPairs q) = form.map Prod.fst ∧
    (∀ n, queryPairsIter.call n (queryPairs q) = (form[n]?).map Prod.fst) ∧
    ∀ raw meant, (raw,meant) ∈ form → ∀ out,
      (percentDecode raw.name out).1 = (if byteLen meant.name ≤ out.length then .ok meant.name else
        .err .bufferOverflow) ∧
      (percentDecode raw.value out).1 = if byteLen meant.value ≤ out.length then .ok meant.value
      else .err .bufferOverflow := by
  obtain rfl := acceptedDelivered t real good arrives ok
  have separable : ∀ raw ∈ form.map Prod.fst, Separable raw := by
    intro raw mem
    obtain ⟨pair,own,rfl⟩ := List.mem_map.mp mem
    exact (encoded pair own).separable
  have items := formItems plain (q := delivered req) path separable
  refine ⟨(formParts plain (q := delivered req) path).1,items,fun n => ?_,fun raw meant mem out => ?_⟩
  · rw [Iter.callItems pairsFused, items, List.getElem?_map]
  · have both := encoded (raw,meant) mem
    exact ⟨textDecodes both.name out,textDecodes both.value out⟩

def searched : QueryPair × QueryPair := (⟨"a+b".toList,"%C3%b6".toList⟩,⟨"a b".toList,"ö".toList⟩)
def search : HttpClientRequest := ⟨.GET,"h".toList,"/s?a+b=%C3%b6".toList,[],none⟩

theorem formDeliveredSearch : ∃ q, accepted .bits32 128 ⟨[.data (requestWire search)],[],[]⟩ = .ok q ∧
    queryPairsIter.items (queryPairs q) = [searched.1] ∧
    (percentDecode "a+b".toList [0,0,0,0]).1 = .ok "a b".toList ∧
    (percentDecode "%C3%b6".toList [0,0]).1 = .ok "ö".toList := by
  have encoded : Encodes searched.1 searched.2 := by
    have name : asBytes searched.1.name = [97,43,98] ∧ asBytes searched.2.name = [97,32,98] := by
      decide +kernel
    have value : asBytes searched.1.value = [37,67,51,37,98,54] ∧
      asBytes searched.2.value = [195,182] := by decide +kernel
    refine ⟨by decide,?_,?_⟩
    · rw [name.1, name.2]
      exact .literal ⟨by decide,by decide⟩ (.space (.literal ⟨by decide,by decide⟩ .done))
    · rw [value.1, value.2]
      exact .escape (by decide) (by decide) (.escape (by decide) (by decide) .done)
  obtain ⟨good,path,ok⟩ : Sendable .bits32 search ∧ search.path = formTarget "/s".toList [searched.1] ∧
      accepted .bits32 128 ⟨[.data (requestWire search)],[],[]⟩ = .ok (delivered search) := by
    decide +kernel
  have arrives : arrived [.data (requestWire search)] <+: requestWire search := by decide +kernel
  obtain ⟨_,items,_,decodes⟩ := formDelivered .bits32 128 (by decide) "/s".toList (by decide) [searched]
    (List.forall_mem_singleton.mpr encoded) search good path _ arrives _ ok
  obtain ⟨name,_⟩ := decodes searched.1 searched.2 (List.mem_singleton_self _) [0,0,0,0]
  obtain ⟨_,value⟩ := decodes searched.1 searched.2 (List.mem_singleton_self _) [0,0]
  exact ⟨_,ok,items,name.trans (by decide +kernel),value.trans (by decide +kernel)⟩

theorem matchesIndexIff {t : Target} {queryName name : Str} {index : Nat} :
    queryNameMatchesIndex t queryName name index = true ↔
      ∃ text, queryName = name ++ '[' :: (text ++ [']']) ∧
      fromStrRadix 10 t.usizeMax text = some index := by
  unfold queryNameMatchesIndex
  constructor
  · intro matched
    split at matched
    · contradiction
    · rename_i rest front
      obtain rfl := stripPrefixSome.mp front
      split at matched
      · contradiction
      · rename_i text inside
        obtain ⟨more,opened,closed⟩ := Option.bind_eq_some_iff.mp inside
        obtain rfl := stripPrefixSome.mp opened
        obtain rfl := stripSuffixSome.mp closed
        exact ⟨text,rfl,eq_of_beq matched⟩
  · rintro ⟨text,rfl,number⟩
    have inside : (stripPrefix ['['] ('[' :: (text ++ [']']))).bind (stripSuffix ']') = some text :=
      Option.bind_eq_some_iff.mpr ⟨text ++ [']'],stripPrefixSome.mpr rfl,stripSuffixSome.mpr rfl⟩
    simp only [stripPrefixSome.mpr rfl, inside, number, beq_self_eq_true]

theorem numberBracketFree {max n : Nat} {text : Str} (number : fromStrRadix 10 max text = some n) :
    '[' ∉ text := by
  obtain ⟨_,ds,⟨_,digits,_⟩,shape⟩ := (fromStrRadixIff (by decide)).mp number
  have absent : '[' ∉ ds := fun mem => absurd (digits '[' mem) (by decide)
  rcases shape with rfl | rfl
  · exact absent
  · simp [absent]

theorem lastCut {c : Char} {a b x y : Str} (absent : c ∉ b) (missing : c ∉ y)
    (same : a ++ c :: b = x ++ c :: y) : a = x ∧ b = y := by
  have behind (front back : Str) :
    (front ++ c :: back).reverse = back.reverse ++ c :: front.reverse := by simp
  have cut := congrArg (fun s => cutOnce c s.reverse) same
  simp only [behind, cutFirst (fun mem => absent (List.mem_reverse.mp mem)),
    cutFirst (fun mem => missing (List.mem_reverse.mp mem)), Prod.mk.injEq, List.reverse_inj] at cut
  exact cut.symm

theorem matchesOnce {t : Target} {queryName name other : Str} {index place : Nat}
    (first : queryNameMatchesIndex t queryName name index = true)
    (second : queryNameMatchesIndex t queryName other place = true) :
    name = other ∧ index = place := by
  obtain ⟨text,rfl,number⟩ := matchesIndexIff.mp first
  obtain ⟨digits,shape,value⟩ := matchesIndexIff.mp second
  have absent : '[' ∉ text ++ [']'] := by simp [numberBracketFree number]
  have missing : '[' ∉ digits ++ [']'] := by simp [numberBracketFree value]
  obtain ⟨names,texts⟩ := lastCut absent missing shape
  obtain rfl := List.append_cancel_right texts
  exact ⟨names,Option.some.inj (number.symm.trans value)⟩

structure Entry where
  name : Str
  index : Nat
  value : Str
  deriving DecidableEq, Repr

def indexedName (name : Str) (index : Nat) : Str := name ++ '[' :: (decimal index ++ [']'])

def entryPair (e : Entry) : QueryPair := ⟨indexedName e.name e.index,e.value⟩

def isAt (name : Str) (index : Nat) (e : Entry) : Bool := e.name == name && e.index == index

section Entry
variable {t : Target} {e : Entry} (small : e.index ≤ t.usizeMax)
include small

theorem entryMatches (name : Str) (index : Nat) :
    queryNameMatchesIndex t (entryPair e).name name index = isAt name index e := by
  have own : queryNameMatchesIndex t (entryPair e).name e.name e.index = true :=
    matchesIndexIff.mpr ⟨decimal e.index,rfl,parseDecimal e.index small⟩
  rw [Bool.eq_iff_iff, isAt, Bool.and_eq_true, beq_iff_eq, beq_iff_eq]
  constructor
  · intro matched
    exact matchesOnce own matched
  · rintro ⟨rfl,rfl⟩
    exact own

theorem entryNamed (name : Str) {index : Nat} (room : index ≤ t.usizeMax) :
    named (indexedName name index) (entryPair e) = isAt name index e := by
  have asked : queryNameMatchesIndex t (indexedName name index) name index = true :=
    matchesIndexIff.mpr ⟨decimal index,rfl,parseDecimal index room⟩
  rw [← entryMatches small, Bool.eq_iff_iff, named, beq_iff_eq]
  constructor
  · intro same
    rw [same]
    exact asked
  · intro matched
    obtain ⟨rfl,rfl⟩ :=
      matchesOnce (matchesIndexIff.mpr ⟨decimal e.index,rfl,parseDecimal e.index small⟩) matched
    rfl

end Entry

theorem indexedDelivered (t : Target) (REQ_SIZE : Nat) (real : REQ_SIZE ≤ t.isizeMax) (route : Str)
    (plain : '?' ∉ route) (entries : List Entry)
    (separable : ∀ e ∈ entries, Separable ⟨e.name,e.value⟩)
    (small : ∀ e ∈ entries, e.index ≤ t.usizeMax) (req : HttpClientRequest) (good : Sendable t req)
    (path : req.path = formTarget route (entries.map entryPair)) (stream : Stream)
    (arrives : arrived stream.reads <+: requestWire req) (q : HttpRequest)
    (ok : accepted t REQ_SIZE stream = .ok q) (name : Str) (index : Nat) :
    queryIndexed t q name index = (entries.find? (isAt name index)).map Entry.value ∧
    (index ≤ t.usizeMax → query q (indexedName name index) = queryIndexed t q name index) := by
  obtain rfl := acceptedDelivered t real good arrives ok
  have apart : ∀ pair ∈ entries.map entryPair, Separable pair := by
    intro pair mem
    obtain ⟨e,own,rfl⟩ := List.mem_map.mp mem
    obtain ⟨equals,joins,value⟩ := separable e own
    have digits (c : Char) (noDigit : c.isDigit = false) : c ∉ decimal e.index := by
      intro inside
      rw [decimalDigits inside] at noDigit
      contradiction
    simp only [Separable, entryPair, indexedName, List.mem_append, List.mem_cons, List.not_mem_nil,
      or_false, not_or]
    exact ⟨⟨equals,by decide,digits '=' (by decide),by decide⟩,
      ⟨joins,by decide,digits '&' (by decide),by decide⟩,value⟩
  have items := formItems plain (q := delivered req) path apart
  have found (p : QueryPair → Bool) (same : ∀ e ∈ entries, p (entryPair e) = isAt name index e) :
      (queryPairsIter.find p (queryPairs (delivered req))).1.map QueryPair.value =
        (entries.find? (isAt name index)).map Entry.value := by
    have there : entries.find? (p ∘ entryPair) = entries.find? (isAt name index) := List.find?_congr same
    rw [Iter.findItems, items, List.find?_map, Option.map_map, there]
    rfl
  have first : queryIndexed t (delivered req) name index =
      (entries.find? (isAt name index)).map Entry.value :=
    found _ fun e mem => entryMatches (small e mem) name index
  refine ⟨first,fun room => ?_⟩
  rw [first]
  exact found _ fun e mem => entryNamed (small e mem) name room

def filled : List Entry :=
  [⟨"f".toList,1,"x".toList⟩,⟨"f[1]".toList,0,"y".toList⟩,⟨"f".toList,0,"z".toList⟩]
def filling : HttpClientRequest := ⟨.GET,"h".toList,"/?f[1]=x&f[1][0]=y&f[0]=z".toList,[],none⟩

theorem indexedDeliveredThree : ∃ q, accepted .bits32 128 ⟨[.data (requestWire filling)],[],[]⟩ = .ok q ∧
    queryIndexed .bits32 q "f".toList 0 = some "z".toList ∧ query q "f[0]".toList = some "z".toList := by
  obtain ⟨good,path,ok⟩ : Sendable .bits32 filling ∧
      filling.path = formTarget "/".toList (filled.map entryPair) ∧
      accepted .bits32 128 ⟨[.data (requestWire filling)],[],[]⟩ = .ok (delivered filling) := by
    decide +kernel
  have arrives : arrived [.data (requestWire filling)] <+: requestWire filling := by decide +kernel
  obtain ⟨indexed,literal⟩ :=
    indexedDelivered .bits32 128 (by decide) "/".toList (by decide) filled (by decide)
      (by decide) filling
    good path _ arrives _ ok "f".toList 0
  have found : queryIndexed .bits32 (delivered filling) "f".toList 0 = some "z".toList :=
    indexed.trans (by decide +kernel)
  exact ⟨_,ok,found,(literal (by decide)).trans found⟩

end Nanofish.Forms

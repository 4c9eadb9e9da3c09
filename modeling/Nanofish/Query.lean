import Mathlib.Data.List.TakeWhile
import Nanofish.Rust.Iter
import Nanofish.Request

/-! Query parameters of a request target: the iterators of request.rs and the lookups
over them, beside the reading of the query as a list of pairs. -/
namespace Nanofish.Query
open Rust Rust.Utf8 Rust.Text
open Request

structure QueryPair where
  name : Str
  value : Str
  deriving DecidableEq, Repr

structure QueryPairs where
  remaining : Str
  deriving DecidableEq, Repr

structure QueryValues where
  pairs : QueryPairs
  name : Str
  deriving DecidableEq, Repr

-- `split_once` with the whole text in front of nothing where the character is missing.
def cutOnce (c : Char) (s : Str) : Str × Str := (splitOnce c s).getD (s,[])

theorem cutAbsent {c : Char} {s : Str} (absent : c ∉ s) : cutOnce c s = (s,[]) := by
  rw [cutOnce, splitOnceAbsent absent, Option.getD_none]

theorem cutFirst {c : Char} {a : Str} (absent : c ∉ a) (b : Str) : cutOnce c (a ++ c :: b) = (a,b) := by
  rw [cutOnce, splitOnceFirst absent, Option.getD_some]

theorem cutShorter {c : Char} {s : Str} (more : s ≠ []) : (cutOnce c s).2.length < s.length := by
  by_cases mem : c ∈ s
  · obtain ⟨a,b,rfl,absent⟩ := List.eq_append_cons_of_mem mem
    simp only [cutFirst absent, List.length_append, List.length_cons]
    omega
  · rw [cutAbsent mem]
    exact List.length_pos_iff.mpr more

theorem cutNil (c : Char) : cutOnce c [] = ([],[]) := rfl

/- The loop of `next`. An empty segment with nothing behind it ends the iteration, be it
the last segment or the end. -/
def QueryPairs.next (it : QueryPairs) : Option QueryPair × QueryPairs :=
  let segment := (cutOnce '&' it.remaining).1
  let remaining := (cutOnce '&' it.remaining).2
  if segment = [] then
    if _ : remaining = [] then (none,⟨remaining⟩) else QueryPairs.next ⟨remaining⟩
  else (some ⟨(cutOnce '=' segment).1,(cutOnce '=' segment).2⟩,⟨remaining⟩)
termination_by it.remaining.length
decreasing_by
  refine cutShorter fun none => ?_
  rename_i more
  exact more (by simp only [remaining, none, cutNil])

theorem nextSome {it : QueryPairs} {pair : QueryPair} (gives : it.next.1 = some pair) :
    it.next.2.remaining.length < it.remaining.length := by
  fun_induction QueryPairs.next it with
  | case1 it segment remaining empty done => contradiction
  | case2 it segment remaining empty more ih =>
    have shorter : remaining.length < it.remaining.length :=
      cutShorter fun none => more (by simp only [remaining, none, cutNil])
    exact Nat.lt_trans (ih gives) shorter
  | case3 it segment remaining solid =>
    exact cutShorter fun none => solid (by simp only [segment, none, cutNil])

theorem nextNone {it : QueryPairs} (gives : it.next.1 = none) : it.next.2 = ⟨[]⟩ := by
  fun_induction QueryPairs.next it with
  | case1 it segment remaining empty done => rw [done]
  | case2 it segment remaining empty more ih => exact ih gives
  | case3 it segment remaining solid => contradiction

def queryPairsIter : Iter QueryPairs QueryPair where
  next := QueryPairs.next
  size it := it.remaining.length
  shrinks := nextSome

def QueryValues.next (it : QueryValues) : Option Str × QueryValues :=
  let found := queryPairsIter.find (fun pair => pair.name == it.name) it.pairs
  (found.1.map QueryPair.value,⟨found.2,it.name⟩)

def queryValuesIter : Iter QueryValues Str where
  next := QueryValues.next
  size it := it.pairs.remaining.length
  shrinks gives := by
    obtain ⟨pair,found,_⟩ := Option.map_eq_some_iff.mp gives
    exact (queryPairsIter.findLeaves found).2.1

def named (name : Str) (pair : QueryPair) : Bool := pair.name == name

def target (r : HttpRequest) : Str := r.path

def routePath (r : HttpRequest) : Str := ((splitOnce '?' r.path).map Prod.fst).getD r.path

def queryString (r : HttpRequest) : Option Str := (splitOnce '?' r.path).map Prod.snd

def queryPairs (r : HttpRequest) : QueryPairs := ⟨(queryString r).getD []⟩

def queryFirst (r : HttpRequest) (name : Str) : Option Str :=
  (queryPairsIter.find (named name) (queryPairs r)).1.map QueryPair.value

def query (r : HttpRequest) (name : Str) : Option Str := queryFirst r name

def queryLast (r : HttpRequest) (name : Str) : Option Str :=
  ((queryPairsIter.filter (named name)).map QueryPair.value).last (queryPairs r)

def queryAll (r : HttpRequest) (name : Str) : QueryValues := ⟨queryPairs r,name⟩

def queryParam (r : HttpRequest) (name : Str) : Option Str := query r name

def queryNameMatchesIndex (t : Target) (queryName name : Str) (index : Nat) : Bool :=
  match stripPrefix name queryName with
  | none => false
  | some rest => match (stripPrefix ['['] rest).bind (stripSuffix ']') with
    | none => false
    | some indexStr => fromStrRadix 10 t.usizeMax indexStr == some index

def queryIndexed (t : Target) (r : HttpRequest) (name : Str) (index : Nat) : Option Str :=
  (queryPairsIter.find (fun pair => queryNameMatchesIndex t pair.name name index)
    (queryPairs r)).1.map QueryPair.value

/- The query as a list: the text behind the first `?`, split at every `&`, without empty
segments, each of the others cut at its first `=`. -/
def queryText (target : Str) : Str := (target.dropWhile (· ≠ '?')).drop 1

def pairOf (segment : Str) : QueryPair :=
  ⟨segment.takeWhile (· ≠ '='),(segment.dropWhile (· ≠ '=')).drop 1⟩

def pairsOf (query : Str) : List QueryPair := ((query.splitOn '&').filter (· ≠ [])).map pairOf

def valuesOf (name : Str) (pairs : List QueryPair) : List Str :=
  (pairs.filter (named name)).map QueryPair.value

theorem takeDropAt {c : Char} {a : Str} (absent : c ∉ a) (b : Str) :
    (a ++ c :: b).takeWhile (· ≠ c) = a ∧ ((a ++ c :: b).dropWhile (· ≠ c)).drop 1 = b := by
  rw [List.takeWhile_append_of_pos (alwaysApart absent),
    List.dropWhile_append_of_pos (alwaysApart absent)]
  simp

theorem takeDropAbsent {c : Char} {s : Str} (absent : c ∉ s) :
    s.takeWhile (· ≠ c) = s ∧ (s.dropWhile (· ≠ c)).drop 1 = [] := by
  rw [List.takeWhile_eq_self_iff.mpr (alwaysApart absent),
    List.dropWhile_eq_nil_iff.mpr (alwaysApart absent)]
  exact ⟨rfl,rfl⟩

theorem cutWhile (c : Char) (s : Str) :
    cutOnce c s = (s.takeWhile (· ≠ c),(s.dropWhile (· ≠ c)).drop 1) := by
  by_cases mem : c ∈ s
  · obtain ⟨a,b,rfl,absent⟩ := List.eq_append_cons_of_mem mem
    rw [cutFirst absent, (takeDropAt absent b).1, (takeDropAt absent b).2]
  · rw [cutAbsent mem, (takeDropAbsent mem).1, (takeDropAbsent mem).2]

theorem pairCut (segment : Str) :
    (⟨(cutOnce '=' segment).1,(cutOnce '=' segment).2⟩ : QueryPair) = pairOf segment := by
  rw [cutWhile, pairOf]

theorem segmentPairs (segment : Str) (rest : List Str) : ((segment :: rest).filter (· ≠ [])).map pairOf =
    (if segment = [] then [] else [pairOf segment]) ++ (rest.filter (· ≠ [])).map pairOf := by
  by_cases empty : segment = []
  · rw [if_pos empty, List.filter_cons_of_neg (by simpa using empty)]
    rfl
  · rw [if_neg empty, List.filter_cons_of_pos (by simpa using empty)]
    rfl

theorem pairsCut (s : Str) : pairsOf s =
    (if (cutOnce '&' s).1 = [] then [] else [pairOf (cutOnce '&' s).1]) ++
      pairsOf (cutOnce '&' s).2 := by
  by_cases mem : '&' ∈ s
  · obtain ⟨a,b,rfl,absent⟩ := List.eq_append_cons_of_mem mem
    rw [cutFirst absent, pairsOf, List.splitOn_append_cons_self_of_not_mem absent]
    exact segmentPairs a (b.splitOn '&')
  · rw [cutAbsent mem, pairsOf, List.splitOn_eq_singleton mem]
    exact segmentPairs s []

theorem nextPairs (it : QueryPairs) :
    pairsOf it.remaining = it.next.1.toList ++ pairsOf it.next.2.remaining := by
  fun_induction QueryPairs.next it with
  | case1 it segment remaining empty done => rw [pairsCut, if_pos empty]; rfl
  | case2 it segment remaining empty more ih => rw [pairsCut, if_pos empty, ← ih]; rfl
  | case3 it segment remaining solid => rw [pairsCut, if_neg solid, pairCut]; rfl

theorem itemsPairs (it : QueryPairs) : queryPairsIter.items it = pairsOf it.remaining := by
  fun_induction Iter.items queryPairsIter it with
  | case1 it gives =>
    have none : it.next.1 = none := gives
    rw [nextPairs, nextNone none, none]
    rfl
  | case2 it pair gives ih =>
    have first : it.next.1 = some pair := gives
    rw [nextPairs, first, ih]
    rfl

theorem pairsFused : queryPairsIter.Fused := by
  intro it gives
  have none : it.next.1 = none := gives
  show (QueryPairs.next (QueryPairs.next it).2).1 = _
  rw [nextNone none, QueryPairs.next]
  rfl

theorem itemsValues (pairs : QueryPairs) (name : Str) :
    queryValuesIter.items ⟨pairs,name⟩ = valuesOf name (pairsOf pairs.remaining) := by
  have same :=
    Iter.itemsSimulated ((queryPairsIter.filter (named name)).map QueryPair.value) queryValuesIter
    (fun pairs => ⟨pairs,name⟩) (fun _ => rfl) pairs
  rw [same, Iter.mapItems, Iter.filterItems, itemsPairs]
  rfl

theorem valuesFused : queryValuesIter.Fused := fun it =>
  Iter.mapFused (Iter.filterFused pairsFused (named it.name)) QueryPair.value it.pairs

theorem queryParts (r : HttpRequest) : (queryString r).getD [] = queryText r.path ∧
    ('?' ∈ r.path → ∃ query, queryString r = some query ∧ routePath r ++ '?' :: query = r.path) := by
  have text : (queryString r).getD [] = (cutOnce '?' r.path).2 := by
    rw [queryString, cutOnce]
    cases splitOnce '?' r.path <;> rfl
  refine ⟨by rw [text, cutWhile, queryText],fun mem => ?_⟩
  obtain ⟨a,b,whole,absent⟩ := List.eq_append_cons_of_mem mem
  refine ⟨b,?_,?_⟩
  · rw [queryString, whole, splitOnceFirst absent]
    rfl
  · rw [routePath, whole, splitOnceFirst absent]
    rfl

theorem queryReading (r : HttpRequest) (name : Str) :
    let pairs := pairsOf (queryText r.path)
    let values := valuesOf name pairs
    (queryPairsIter.items (queryPairs r) = pairs ∧ ∀ n,
      queryPairsIter.call n (queryPairs r) = pairs[n]?) ∧
    (queryValuesIter.items (queryAll r name) = values ∧ ∀ n,
      queryValuesIter.call n (queryAll r name) = values[n]?) ∧
    (queryFirst r name = values.head? ∧ query r name = values.head? ∧ queryParam r name = values.head?) ∧
    queryLast r name = values.getLast? ∧
    ('?' ∈ r.path → ∃ query, queryString r = some query ∧ routePath r ++ '?' :: query = r.path) := by
  intro pairs values
  obtain ⟨text,parts⟩ := queryParts r
  have items : queryPairsIter.items (queryPairs r) = pairs := by rw [itemsPairs, queryPairs, text]
  have all : queryValuesIter.items (queryAll r name) = values := by
    rw [queryAll, itemsValues, queryPairs, text]
  have first : queryFirst r name = values.head? := by
    rw [queryFirst, Iter.findItems, items, ← List.head?_filter, ← List.head?_map]
    rfl
  have last : queryLast r name = values.getLast? := by
    rw [queryLast, Iter.lastItems, Iter.mapItems, Iter.filterItems, items]
    rfl
  refine ⟨⟨items,fun n => ?_⟩,⟨all,fun n => ?_⟩,⟨first,first,first⟩,last,parts⟩
  · rw [Iter.callItems pairsFused, items]
  · rw [Iter.callItems valuesFused, all]

end Nanofish.Query

import Mathlib.Data.List.Basic
import Nanofish.Accepting
import Nanofish.Rust.Pieces

/-! The request parser read by lines, and the two readers of `Content-Length`: framing
splits the head at CR LF, the parser reads it by lines and stops at the first empty
one. -/
namespace Nanofish.RequestFields
open Rust Rust.Utf8 Rust.Text Rust.Pattern Rust.Reads Rust.Pieces
open Protocol Codes Codec HeaderBlock Client Request Server Accepting

theorem parseFieldsItems {lines : List Str} {v w : Vec HttpHeader maxHeaders}
    (parsed : parseFields lines v = .ok w) :
    w.items = v.items ++ (lines.takeWhile (· ≠ [])).filterMap headerField := by
  induction lines generalizing v with
  | nil => cases parsed; simp
  | cons line lines ih =>
    by_cases empty : line = []
    · rw [parseFields, if_pos empty] at parsed
      cases parsed
      simp [empty]
    · simp only [parseFields, empty, if_false, splitFieldExact, Outcome.okBind] at parsed
      rw [List.takeWhile_cons_of_pos (by simpa using empty)]
      cases field : headerField line with
      | none =>
        rw [field] at parsed
        rw [ih parsed, List.filterMap_cons_none field]
      | some header =>
        rw [field] at parsed
        obtain ⟨u,pushed,parsed⟩ := Outcome.bindOk.mp parsed
        cases grown : v.push header with
        | none => rw [grown] at pushed; contradiction
        | some u' =>
          rw [grown] at pushed
          cases pushed
          have items := Vec.extendSome.mp grown
          rw [ih parsed, items, List.filterMap_cons_some field, List.append_assoc, List.singleton_append]

theorem parseFieldsReturns (lines : List Str) (v : Vec HttpHeader maxHeaders) :
    (parseFields lines v).Returns := by
  induction lines generalizing v with
  | nil => trivial
  | cons line lines ih =>
    rw [parseFields]
    split
    · trivial
    · rw [splitFieldExact, Outcome.okBind]
      cases headerField line with
      | none => exact ih v
      | some header => exact Outcome.bindReturns (Outcome.ofOptionReturns _ _) ih

section Parse
variable (s : Str) (body : Bytes)

theorem parseFromReturns : (HttpRequest.parseFrom s body).Returns := by
  unfold HttpRequest.parseFrom
  split
  · trivial
  · iterate 4 refine Outcome.bindReturns (Outcome.ofOptionReturns _ _) fun _ => ?_
    exact Outcome.bindReturns (parseFieldsReturns _ _) fun _ => trivial

theorem parseFromBody : HttpRequest.parseFrom s body =
    (HttpRequest.parseFrom s [] >>= fun request => .ok { request with body := body }) := by
  unfold HttpRequest.parseFrom
  split
  · rfl
  · simp only [Outcome.bindAssoc, Outcome.okBind]

theorem tryFromOpen {data : Bytes} (none : findDoubleCrlf data = none) :
    HttpRequest.tryFrom data = .err (.invalidResponse "Incomplete request headers") := by
  simp only [HttpRequest.tryFrom, none, Outcome.ofOptionNone, Outcome.errBind]

theorem tryFromBlock {head : Bytes} (closes : Closes head) : HttpRequest.tryFrom (Block head body) = (do
    let s ← Outcome.ofOption (.invalidResponse "Invalid UTF-8 in request") (fromUtf8 head)
    HttpRequest.parseFrom s body) := by
  have size := blockLength head body
  have front : (Block head body).take head.length = head := by simp [Block]
  simp only [HttpRequest.tryFrom, blockFound closes, Outcome.ofOptionSome, Outcome.okBind,
    sliceToFits (show head.length ≤ (Block head body).length by omega), front,
    sliceFromFits (show head.length + doubleCrlfLen ≤ (Block head body).length by omega), blockDrop]

theorem parseFromOk {request : HttpRequest} (parsed : HttpRequest.parseFrom s body = .ok request) :
    ∃ first rest, lines s = first :: rest ∧ (splitWhitespace first)[0]? = some request.method.asStr ∧
      request.headers.items = (rest.takeWhile (· ≠ [])).filterMap headerField ∧ request.body = body := by
  unfold HttpRequest.parseFrom at parsed
  split at parsed
  · contradiction
  · rename_i first rest text
    obtain ⟨word,hw,parsed⟩ := Outcome.bindOk.mp parsed
    obtain ⟨path,_,parsed⟩ := Outcome.bindOk.mp parsed
    obtain ⟨version,_,parsed⟩ := Outcome.bindOk.mp parsed
    obtain ⟨method,hm,parsed⟩ := Outcome.bindOk.mp parsed
    obtain ⟨headers,fields,parsed⟩ := Outcome.bindOk.mp parsed
    cases parsed
    refine ⟨first,rest,text,?_,by simpa [Vec.new] using parseFieldsItems fields,rfl⟩
    cases named : (splitWhitespace first)[0]? with
    | none => rw [named] at hw; contradiction
    | some w =>
      rw [named] at hw
      cases hw
      cases known : HttpMethod.tryFrom word with
      | none => rw [known] at hm; contradiction
      | some m =>
        rw [known] at hm
        cases hm
        exact congrArg some (methodTryFrom.mp known)

end Parse

theorem methodNotLength (method : HttpMethod) :
    ¬ method.asStr.map Char.toLower <+: contentLengthName.map Char.toLower := by cases method <;> decide

theorem methodPlain (method : HttpMethod) : ':' ∉ method.asStr := by cases method <;> decide

theorem requestLineLength {line : Str} {method : HttpMethod}
    (word : (splitWhitespace line)[0]? = some method.asStr) : lineValue contentLengthName line = none :=
  lineValueFirstWord word (methodPlain method) (methodNotLength method)

section Width
variable (t : Target)

def lengthIn (lines : List Str) : Option Nat :=
  (lines.findSome? (lineValue contentLengthName)).bind (fromStrRadix 10 t.usizeMax)

theorem contentLengthLines {head : Bytes} {s : Str} (text : fromUtf8 head = some s) :
    contentLength t head = lengthIn t (splitCrlf s) := by
  simp only [contentLength, text, bind, Option.bind_some]
  rfl

theorem headerLines (lines : List Str) (target : Str) :
    ((lines.filterMap headerField).find? fun h => eqIgnoreAsciiCase h.name target).map HttpHeader.value =
      lines.findSome? (lineValue target) := by
  induction lines with
  | nil => rfl
  | cons line lines ih =>
    rw [List.findSome?_cons]
    cases field : headerField line with
    | none => rw [List.filterMap_cons_none field, ih, lineValue, field]
    | some header =>
      rw [List.filterMap_cons_some field, lineValue, field, List.find?_cons]
      by_cases named : eqIgnoreAsciiCase header.name target = true
      · simp [named]
      · rw [Bool.not_eq_true] at named
        simp only [named, Bool.false_eq_true, if_false, ih]

theorem requestLengthLines {s : Str} {body : Bytes} {request : HttpRequest}
    (parsed : HttpRequest.parseFrom s body = .ok request) :
    request.contentLength t = lengthIn t ((lines s).takeWhile (· ≠ [])) := by
  obtain ⟨first,rest,text,word,items,_⟩ := parseFromOk s body parsed
  have solid : first ≠ [] := by rintro rfl; simp [splitWhitespace] at word
  rw [HttpRequest.contentLength, HttpRequest.header, items, headerLines, text,
    List.takeWhile_cons_of_pos (by simpa using solid), lengthIn, List.findSome?_cons,
      requestLineLength word]
  rfl

def wholeLines (s : Str) : List Str := (splitCrlf s).takeWhile fun l => decide ('\n' ∉ l)
def brokenLines (s : Str) : List Str := (splitCrlf s).dropWhile fun l => decide ('\n' ∉ l)

-- Digits, at most one plus sign before them, for a number of the type's width.
def Denotes (v : Str) (n : Nat) : Prop :=
  n ≤ t.usizeMax ∧ ∃ ds, Numeral 10 ds n ∧ (v = ds ∨ v = '+' :: ds)

theorem lengthInSome {lines : List Str} {n : Nat} : lengthIn t lines = some n ↔
    ∃ v, lines.findSome? (lineValue contentLengthName) = some v ∧ Denotes t v n := by
  simp only [lengthIn, Option.bind_eq_some_iff, fromStrRadixIff (show 0 < 10 by decide), Denotes]

/- From the first bare line feed on, framing looks for the first CR LF line that is a
field as it stands. -/
structure Framed (s : Str) (front : List Str) (l v : Str) : Prop where
  place : front ++ [l] <+: brokenLines s
  silent : ∀ x ∈ front, lineValue contentLengthName x = none
  field : lineValue contentLengthName l = some v

/- The parser cuts these lines at their line feeds and looks for the first piece that is
a field; an empty piece ends its search. -/
structure Parsed (s : Str) (front : List Str) (l : Str) (lead : List Str) (p : Str)
    (tail : List Str) (v : Str) : Prop where
  place : front ++ [l] <+: brokenLines s
  pieces : l.splitOn '\n' = lead ++ p :: tail
  silent : ∀ x ∈ front.flatMap (·.splitOn '\n') ++ lead, x ≠ [] ∧ lineValue contentLengthName x = none
  field : lineValue contentLengthName p = some v

/- Where the two readers find the same length: a field before the first bare line feed;
one field for both, with only white space around it on its line; fields on two lines that
denote one number; no number for either. -/
inductive LengthsMeet (s : Str) : Prop
  | before {l : Str} : l ∈ wholeLines s → (lineValue contentLengthName l).isSome = true → LengthsMeet s
  | shared {front : List Str} {l v : Str} {lead : List Str} {p : Str} {tail : List Str} {w : Str} :
      Framed s front l v → Parsed s front l lead p tail w → (∀ x ∈ lead ++ tail, Blank x) → LengthsMeet s
  | doubled {front : List Str} {l v : Str} {front' : List Str} {l' : Str} {lead : List Str} {p : Str}
      {tail : List Str} {w : Str} {n : Nat} :
      Framed s front l v → Parsed s front' l' lead p tail w → front.length ≠ front'.length →
      Denotes t v n → Denotes t w n → LengthsMeet s
  | neither : (∀ front l v, Framed s front l v → ∀ n, ¬ Denotes t v n) →
      (∀ front l lead p tail w, Parsed s front l lead p tail w → ∀ n, ¬ Denotes t w n) → LengthsMeet s

/- Without a bare line feed there is nothing they could disagree about. -/
theorem pairedMeets {s : Str} (paired : CrlfOnly s) : LengthsMeet t s := by
  have none : brokenLines s = [] := by
    refine List.dropWhile_eq_nil_iff.mpr fun l mem => ?_
    exact decide_eq_true (pairedPieces paired l mem)
  have never (front : List Str) (l : Str) : ¬ front ++ [l] <+: brokenLines s := by
    rw [none]
    simp
  exact .neither (fun front l _ framed => absurd framed.place (never front l))
    (fun front l _ _ _ _ parsed => absurd parsed.place (never front l))

theorem framedFinds {s v : Str} : (brokenLines s).findSome? (lineValue contentLengthName) = some v ↔
    ∃ front l, Framed s front l v := by
  rw [List.findSome?_eq_some_iff]
  constructor
  · rintro ⟨front,l,back,whole,field,silent⟩
    exact ⟨front,l,⟨back,by simp [whole]⟩,silent,field⟩
  · rintro ⟨front,l,⟨back,whole⟩,silent,field⟩
    exact ⟨front,l,back,by simp [← whole],field,silent⟩

def brokenPieces (s : Str) : List Str := (brokenLines s).flatMap (·.splitOn '\n')

theorem parsedFinds {s w : Str} :
    ((brokenPieces s).takeWhile (· ≠ [])).findSome? (lineValue contentLengthName) = some w ↔
      ∃ front l lead p tail, Parsed s front l lead p tail w := by
  rw [brokenPieces, firstPiece]
  constructor
  · rintro ⟨front,l,back,lead,p,tail,whole,pieces,silent,_,field⟩
    refine ⟨front,l,lead,p,tail,⟨back,by simp [whole]⟩,pieces,fun x mem => ?_,field⟩
    simpa using silent x mem
  · rintro ⟨front,l,lead,p,tail,⟨back,whole⟩,pieces,silent,field⟩
    have solid : p ≠ [] := by rintro rfl; contradiction
    refine ⟨front,l,back,lead,p,tail,by simp [← whole],pieces,fun x mem => ?_,by simpa using solid,field⟩
    simpa using silent x mem

theorem lengthName {name : Str} (named : eqIgnoreAsciiCase name contentLengthName = true) :
    '\n' ∉ name ∧ name ≠ [] := by
  have lower : name.map Char.toLower = contentLengthName.map Char.toLower := by
    simpa [eqIgnoreAsciiCase] using named
  refine ⟨fun mem => ?_,?_⟩
  · have inside : '\n'.toLower ∈ contentLengthName.map Char.toLower := lower ▸ List.mem_map_of_mem mem
    exact absurd inside (by decide)
  · rintro rfl
    exact absurd lower (by decide)

theorem denotesPlain {v : Str} {n : Nat} (denotes : Denotes t v n) : '\n' ∉ v ∧ ':' ∉ v ∧ v ≠ [] := by
  obtain ⟨_,ds,⟨solid,digits,_⟩,rfl | rfl⟩ := denotes
  · exact ⟨fun mem => absurd (digits _ mem) (by decide),fun mem =>
      absurd (digits _ mem) (by decide),solid⟩
  · refine ⟨fun mem => ?_,fun mem => ?_,List.cons_ne_nil _ _⟩
    · exact absurd (digits _ ((List.mem_cons.mp mem).resolve_left (by decide))) (by decide)
    · exact absurd (digits _ ((List.mem_cons.mp mem).resolve_left (by decide))) (by decide)

section Line
variable {l p w : Str} {lead tail : List Str} (pieces : l.splitOn '\n' = lead ++ p :: tail)
include pieces

theorem piecesJoined : l = lead.flatMap (· ++ ['\n']) ++ p ++ tail.flatMap ('\n' :: ·) := by
  rw [← joinedAround, ← pieces, List.intercalate_splitOn]

theorem fieldShared (field : lineValue contentLengthName p = some w)
    (blank : ∀ x ∈ lead ++ tail, Blank x) :
    lineValue contentLengthName l = some w := by
  obtain ⟨name,value,rfl,absent,named,rfl⟩ := lineValueShape.mp field
  have front : Blank (lead.flatMap (· ++ ['\n'])) := by
    intro c mem
    obtain ⟨x,inside,mem⟩ := List.mem_flatMap.mp mem
    rcases List.mem_append.mp mem with mem | mem
    · exact blank x (List.mem_append_left _ inside) c mem
    · cases List.mem_singleton.mp mem
      decide
  have back : Blank (tail.flatMap ('\n' :: ·)) := by
    intro c mem
    obtain ⟨x,inside,mem⟩ := List.mem_flatMap.mp mem
    rcases List.mem_cons.mp mem with rfl | mem
    · decide
    · exact blank x (List.mem_append_right _ inside) c mem
  refine lineValueShape.mpr ⟨lead.flatMap (· ++ ['\n']) ++ name,value ++ tail.flatMap ('\n' :: ·),
    ?_,?_,?_,?_⟩
  · rw [piecesJoined pieces]
    simp
  · intro mem
    rcases List.mem_append.mp mem with mem | mem
    · exact absurd (front ':' mem) (by decide)
    · exact absent mem
  · rwa [trimBlankFront front]
  · rw [trimBlankBack back]

theorem fieldAlone {v : Str} {n m : Nat} (whole : lineValue contentLengthName l = some v)
    (field : lineValue contentLengthName p = some w) (left : Denotes t v n) (right : Denotes t w m) :
    ∀ x ∈ lead ++ tail, Blank x := by
  obtain ⟨name,value,shape,absent,named,rfl⟩ := lineValueShape.mp whole
  obtain ⟨name',value',rfl,absent',named',rfl⟩ := lineValueShape.mp field
  have single : ':' ∉ value := fun mem => (denotesPlain t left).2.1 (trimHolds (by decide) mem)
  have joined : name ++ ':' :: value =
      (lead.flatMap (· ++ ['\n']) ++ name') ++ ':' :: (value' ++ tail.flatMap ('\n' :: ·)) := by
    rw [← shape, piecesJoined pieces]
    simp
  obtain ⟨rfl,_,rfl⟩ := (List.append_cons_inj_of_notMem absent single).mp joined
  intro x mem
  rcases List.mem_append.mp mem with mem | mem
  · obtain ⟨a,b,rfl⟩ := List.append_of_mem mem
    have gone := (lengthName named).1
    rw [show (a ++ x :: b).flatMap (· ++ ['\n']) ++ name' =
      (a.flatMap (· ++ ['\n']) ++ x) ++ '\n' :: (b.flatMap (· ++ ['\n']) ++ name') by simp] at gone
    rcases trimSides gone with blank | blank
    · exact fun c mem => blank c (List.mem_append_right _ mem)
    · exact absurd (fun c mem => blank c (List.mem_append_right _ mem))
        (trimFilled (lengthName named').2)
  · obtain ⟨a,b,rfl⟩ := List.append_of_mem mem
    have gone := (denotesPlain t left).1
    rw [show value' ++ (a ++ x :: b).flatMap ('\n' :: ·) =
      (value' ++ a.flatMap ('\n' :: ·)) ++ '\n' :: (x ++ b.flatMap ('\n' :: ·)) by simp] at gone
    rcases trimSides gone with blank | blank
    · exact absurd (fun c mem => blank c (List.mem_append_left _ mem))
        (trimFilled (denotesPlain t right).2.2)
    · exact fun c mem => blank c (List.mem_append_left _ mem)

end Line

theorem brokenMeet {s : Str} :
    lengthIn t (brokenLines s) = lengthIn t ((brokenPieces s).takeWhile (· ≠ [])) →
    LengthsMeet t s := by
  intro same
  cases found : lengthIn t (brokenLines s) with
  | none =>
    refine .neither (fun front l v framed n denotes => ?_)
      (fun front l lead p tail w parsed n denotes => ?_)
    · have some := (lengthInSome t).mpr ⟨v,framedFinds.mpr ⟨front,l,framed⟩,denotes⟩
      rw [found] at some
      contradiction
    · have some := (lengthInSome t).mpr ⟨w,parsedFinds.mpr ⟨front,l,lead,p,tail,parsed⟩,denotes⟩
      rw [← same, found] at some
      contradiction
  | some n =>
    obtain ⟨v,seen,left⟩ := (lengthInSome t).mp found
    obtain ⟨w,read,right⟩ := (lengthInSome t).mp (same ▸ found)
    obtain ⟨front,l,framed⟩ := framedFinds.mp seen
    obtain ⟨front',l',lead,p,tail,parsed⟩ := parsedFinds.mp read
    by_cases line : front.length = front'.length
    · -- The same number of lines before them: it is one line.
      have one : front ++ [l] = front' ++ [l'] :=
        (List.prefix_of_prefix_length_le framed.place parsed.place (by simp [line])).eq_of_length
          (by simp [line])
      obtain ⟨rfl,tails⟩ := List.append_inj one line
      cases tails
      exact .shared framed parsed (fieldAlone t parsed.pieces framed.field parsed.field left right)
    · exact .doubled framed parsed line left right

theorem meetBroken {s : Str}
    (silent : (wholeLines s).findSome? (lineValue contentLengthName) = none)
    (meet : LengthsMeet t s) :
    lengthIn t (brokenLines s) = lengthIn t ((brokenPieces s).takeWhile (· ≠ [])) := by
  cases meet with
  | before mem field =>
    rw [List.findSome?_eq_none_iff.mp silent _ mem] at field
    contradiction
  | shared framed parsed blank =>
    have value := fieldShared parsed.pieces parsed.field blank
    cases framed.field.symm.trans value
    rw [lengthIn, lengthIn, framedFinds.mpr ⟨_,_,framed⟩, parsedFinds.mpr ⟨_,_,_,_,_,parsed⟩]
  | doubled framed parsed _ left right =>
    rw [(lengthInSome t).mpr ⟨_,framedFinds.mpr ⟨_,_,framed⟩,left⟩,
      (lengthInSome t).mpr ⟨_,parsedFinds.mpr ⟨_,_,_,_,_,parsed⟩,right⟩]
  | neither unseen unread =>
    have left : lengthIn t (brokenLines s) = none := by
      refine Option.eq_none_iff_forall_ne_some.mpr fun n found => ?_
      obtain ⟨v,seen,denotes⟩ := (lengthInSome t).mp found
      obtain ⟨front,l,framed⟩ := framedFinds.mp seen
      exact unseen front l v framed n denotes
    have right : lengthIn t ((brokenPieces s).takeWhile (· ≠ [])) = none := by
      refine Option.eq_none_iff_forall_ne_some.mpr fun n found => ?_
      obtain ⟨w,read,denotes⟩ := (lengthInSome t).mp found
      obtain ⟨front,l,lead,p,tail,parsed⟩ := parsedFinds.mp read
      exact unread front l lead p tail w parsed n denotes
    rw [left, right]

theorem headLinesSolid {s : Str} {body : Bytes} {request : HttpRequest} (closes : Closes (asBytes s))
    (parsed : HttpRequest.parseFrom s body = .ok request) : ∀ l ∈ (splitCrlf s).dropLast, l ≠ [] := by
  refine splitPairSolid ((positionNone (by simp)).mpr fun j found => ?_) fun start => ?_
  · obtain ⟨v,window⟩ := found
    have absent := (positionNone doubleCrlfNe).mp (positionBefore doubleCrlfNe closes)
    refine absent (asBytes (s.take j)).length ⟨asBytes v,?_⟩
    have shape : asBytes s = asBytes (s.take j) ++ (doubleCrlf ++ asBytes v) := by
      conv => lhs; rw [← List.take_append_drop j s, ← window, asBytesAppend, asBytesAppend]
      rfl
    rw [shape, List.drop_left]
  · obtain ⟨u,rfl⟩ := start
    obtain ⟨first,rest,text,word,_,_⟩ := parseFromOk _ body parsed
    have empty := linesCrlf (l := []) (by simp) u
    rw [List.nil_append, show '\r' :: '\n' :: u = ['\r','\n'] ++ u from rfl, text] at empty
    rw [(List.cons.inj empty).1] at word
    simp [splitWhitespace] at word

theorem lengthSolid {ls : List Str} (solid : ∀ l ∈ ls.dropLast, l ≠ []) :
    lengthIn t (ls.takeWhile (· ≠ [])) = lengthIn t ls := by
  rcases List.eq_nil_or_concat ls with rfl | ⟨front,last,rfl⟩
  · rfl
  · rw [List.concat_eq_append] at solid ⊢
    rw [List.dropLast_concat] at solid
    rw [List.takeWhile_append_of_pos (by simpa using solid)]
    by_cases empty : last = []
    · have silent : lineValue contentLengthName [] = none := rfl
      simp [lengthIn,empty,List.findSome?_append,silent]
    · simp [empty]

theorem lengthsMeet {s : Str} {body : Bytes} {request : HttpRequest} (closes : Closes (asBytes s))
    (parsed : HttpRequest.parseFrom s body = .ok request) :
    lengthIn t (splitCrlf s) = lengthIn t ((lines s).takeWhile (· ≠ [])) ↔ LengthsMeet t s := by
  have solid := headLinesSolid closes parsed
  have parts : wholeLines s ++ brokenLines s = splitCrlf s := List.takeWhile_append_dropWhile
  have cut : (lines s).takeWhile (· ≠ []) =
      ((splitCrlf s).flatMap (·.splitOn '\n')).takeWhile (· ≠ []) := by
    rw [splitCrlf]
    rcases linesPieces s with same | same
    · rw [same]
    · rw [same, List.takeWhile_append]
      split
      · rename_i full
        rw [(List.takeWhile_prefix _).eq_of_length full]
        simp
      · rfl
  have own : (wholeLines s).flatMap (·.splitOn '\n') = wholeLines s := by
    have atoms : ∀ l ∈ wholeLines s, l.splitOn '\n' = [l] := by
      intro l mem
      have plain := List.mem_takeWhile_imp mem
      exact List.splitOn_eq_singleton (of_decide_eq_true plain)
    rw [List.flatMap_def, List.map_congr_left atoms, ← List.flatMap_def, List.flatMap_singleton']
  rw [cut, ← parts, List.flatMap_append, own]
  cases rest : brokenLines s with
  | nil =>
    rw [rest, List.append_nil] at parts
    rw [List.flatMap_nil, List.append_nil, lengthSolid t (parts ▸ solid)]
    exact iff_of_true rfl (brokenMeet t (by rw [brokenPieces, rest]; rfl))
  | cons b bs =>
    have filled : ∀ l ∈ wholeLines s, l ≠ [] := by
      intro l mem
      refine solid l ?_
      rw [← parts, rest, List.dropLast_append_cons]
      exact List.mem_append_left _ mem
    rw [List.takeWhile_append_of_pos (by simpa using filled), ← rest]
    simp only [lengthIn, List.findSome?_append]
    cases first : (wholeLines s).findSome? (lineValue contentLengthName) with
    | some value =>
      obtain ⟨l,mem,found⟩ := List.exists_of_findSome?_eq_some first
      exact iff_of_true rfl (.before mem (by rw [found]; rfl))
    | none =>
      rw [Option.none_or, Option.none_or]
      exact ⟨brokenMeet t,meetBroken t first⟩

end Width

/- What the server framed by is what the handler reads, unless a bare line feed comes
before the field and what follows it declares another length to one of them. -/
theorem framedLength (t : Target) (buf : Bytes) (real : buf.length ≤ t.isizeMax)
    (events : List (ReadEvent UInt8)) (total : Nat)
    (ok : (readRequest t events buf).result = .ok total) (request : HttpRequest)
    (accepted : HttpRequest.tryFrom ((readRequest t events buf).buf.take total) = .ok request) :
    ∃ hdrEnd s, findDoubleCrlf ((readRequest t events buf).buf.take total) = some hdrEnd ∧
      asBytes s = ((readRequest t events buf).buf.take total).take hdrEnd ∧
      ((contentLength t (asBytes s) = request.contentLength t ∧
        ∀ n, request.contentLength t = some n → n ≤ request.body.length) ↔ LengthsMeet t s) := by
  obtain ⟨_,_,sound⟩ := readRequestSound t real events
  obtain ⟨_,complete⟩ := sound total ok
  generalize (readRequest t events buf).buf.take total = data at accepted complete
  cases found : findDoubleCrlf data with
  | none => rw [tryFromOpen found] at accepted; contradiction
  | some hdrEnd =>
    obtain ⟨closes,_,whole⟩ := blockOf found
    rw [whole, tryFromBlock _ closes] at accepted
    rw [whole, framedBlock t closes, decide_eq_true_eq] at complete
    obtain ⟨s,text,parsed⟩ := Outcome.bindOk.mp accepted
    cases decoded : fromUtf8 (data.take hdrEnd) with
    | none => rw [decoded] at text; contradiction
    | some s' =>
      rw [decoded] at text
      cases text
      have bytes := fromUtf8Iff.mp decoded
      have framing := contentLengthLines t decoded
      have reading := requestLengthLines t parsed
      obtain ⟨_,_,_,_,_,body⟩ := parseFromOk s _ parsed
      refine ⟨hdrEnd,s,rfl,bytes,?_⟩
      rw [bytes, body]
      rw [← lengthsMeet t (bytes ▸ closes) parsed, ← framing, ← reading]
      refine ⟨And.left,fun same => ⟨same,fun n counted => ?_⟩⟩
      rw [declaredLength, same, counted] at complete
      exact complete

theorem framedLengthPost :
    let reads : List (ReadEvent UInt8) :=
      [.data (asBytes "POST / HTTP/1.1\r\nContent-Length: 2\r\n\r\nhi".toList)]
    ∃ hdrEnd s, findDoubleCrlf ((readRequest .bits32 reads (List.replicate 64 0)).buf.take 40) =
      some hdrEnd ∧
      asBytes s = ((readRequest .bits32 reads (List.replicate 64 0)).buf.take 40).take hdrEnd ∧
      ((contentLength .bits32 (asBytes s) = some 2 ∧ ∀ n, some 2 = some n → n ≤ 2) ↔
        LengthsMeet .bits32 s) := by
  rw [show "POST / HTTP/1.1\r\nContent-Length: 2\r\n\r\nhi".toList = _ from String.toList_ofList]
  intro reads
  exact framedLength .bits32 (List.replicate 64 0) (by decide +kernel) reads 40 (by decide +kernel)
    ⟨.POST,"/".toList,"HTTP/1.1".toList,⟨[⟨"Content-Length".toList,"2".toList⟩],by decide⟩,
      asBytes "hi".toList⟩
    (by decide +kernel)

/- The length behind a bare line feed is seen by the handler only. -/
theorem framedLengthBareLineFeed :
    let reads : List (ReadEvent UInt8) :=
      [.data (asBytes "GET /x HTTP/1.1\nContent-Length: 5\r\n\r\n".toList)]
    let run := readRequest .bits32 reads (List.replicate 64 0)
    run.result = .ok 37 ∧ ∃ request, HttpRequest.tryFrom (run.buf.take 37) = .ok request ∧
      contentLength .bits32 (run.buf.take 33) = none ∧ request.contentLength .bits32 = some 5 ∧
      request.body = [] := by
  rw [show "GET /x HTTP/1.1\nContent-Length: 5\r\n\r\n".toList = _ from String.toList_ofList]
  exact ⟨by decide +kernel,
    ⟨.GET,"/x".toList,"HTTP/1.1".toList,⟨[⟨"Content-Length".toList,"5".toList⟩],by decide⟩,[]⟩,
    by decide +kernel,by decide +kernel,by decide +kernel,rfl⟩

end Nanofish.RequestFields

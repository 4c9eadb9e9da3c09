import Nanofish.Dechunk
import Nanofish.RequestFields

/-! What a head says of its body, read over all fields of a name and not over the
first one only: which coding is the final one, and which length is declared. -/
namespace Nanofish.Framing
open Rust Rust.Utf8 Rust.Text Rust.Pattern Rust.Reads
open Protocol Codec HeaderBlock Dechunk Server Accepting RequestFields

-- The trimmed values of the fields of one name, in order; the start line is no field.
def fieldValues (target s : Str) : List Str := (splitCrlf s).tail.filterMap (lineValue target)

-- None of these lines has the form of such a field.
def Silent (target : Str) (ls : List Str) : Prop := ∀ x ∈ ls, lineValue target x = none
instance (target : Str) (ls : List Str) : Decidable (Silent target ls) :=
  inferInstanceAs (Decidable (∀ x ∈ ls, _))

/- The first line that has the form of such a field; the search does not leave the start
line out. -/
def FirstLine (target s v : Str) : Prop := ∃ front l back, splitCrlf s = front ++ l :: back ∧
  Silent target front ∧ lineValue target l = some v

theorem firstLine {target s v : Str} : findHeaderValue s target = some v ↔ FirstLine target s v := by
  rw [findHeaderValue, List.findSome?_eq_some_iff]
  constructor
  · rintro ⟨front,l,back,whole,field,silent⟩
    exact ⟨front,l,back,whole,silent,field⟩
  · rintro ⟨front,l,back,whole,silent,field⟩
    exact ⟨front,l,back,whole,field,silent⟩

def isChunked (coding : Str) : Bool := eqIgnoreAsciiCase (trim coding) chunkedCoding

def listsChunked (value : Str) : Bool := (value.splitOn ',').any isChunked

def endsChunked (value : Str) : Bool := (value.splitOn ',').getLast?.any isChunked

/- The rule: all lists are joined to one, whose last coding counts. -/
def finalChunked (s : Str) : Bool :=
  endsChunked (List.intercalate [','] (fieldValues transferEncoding s))

theorem joinedEnds {values : List Str} (nonempty : values ≠ []) :
    endsChunked (List.intercalate [','] values) = values.getLast?.any endsChunked := by
  induction values with
  | nil => contradiction
  | cons v vs ih =>
    cases vs with
    | nil => simp [List.intercalate]
    | cons w vs =>
      have joined : List.intercalate [','] (v :: w :: vs) = v ++ ',' ::
          List.intercalate [','] (w :: vs) := by
        simp [List.intercalate]
      obtain ⟨front,last,split⟩ :=
        List.eq_nil_or_concat ((List.intercalate [','] (w :: vs)).splitOn ',') |>.resolve_left
        (List.splitOn_ne_nil _ _)
      rw [List.getLast?_cons_cons, ← ih (List.cons_ne_nil w vs), joined, endsChunked, endsChunked,
        List.splitOn_append_cons_self, split]
      simp

theorem finalLast (s : Str) :
    finalChunked s = (fieldValues transferEncoding s).getLast?.any endsChunked := by
  by_cases none : fieldValues transferEncoding s = []
  · rw [finalChunked, none]
    rfl
  · exact joinedEnds none

theorem codedFirst {s v : Str} (first : FirstLine transferEncoding s v) :
    headChunked (asBytes s) = listsChunked v := by
  simp only [headChunked, fromUtf8AsBytes, firstLine.mpr first]
  rfl

theorem finalField {s v l : Str} {front back : List Str}
    (whole : (splitCrlf s).tail = front ++ l :: back)
    (field : lineValue transferEncoding l = some v) (silent : Silent transferEncoding back) :
    finalChunked s = endsChunked v := by
  have last : (fieldValues transferEncoding s).getLast? = some v := by
    rw [fieldValues, whole, List.filterMap_append, List.filterMap_cons_some field,
      List.filterMap_eq_nil_iff.mpr silent, List.getLast?_concat]
  rw [finalLast, last]
  rfl

theorem finalNone {s : Str} (silent : Silent transferEncoding (splitCrlf s).tail) :
    finalChunked s = false := by
  rw [finalLast, fieldValues, List.filterMap_eq_nil_iff.mpr silent]
  rfl

/- The one line that has the form of such a field, behind the lines `front`. -/
def SoleLine (target s : Str) (front : List Str) (v : Str) : Prop := ∃ l back,
  splitCrlf s = front ++ l :: back ∧ Silent target front ∧ lineValue target l = some v ∧
  Silent target back

/- The first and the last of several such lines. -/
def OuterLines (target s v w : Str) : Prop := ∃ front l mid l' back,
  splitCrlf s = front ++ l :: (mid ++ l' :: back) ∧ Silent target front ∧
  lineValue target l = some v ∧ lineValue target l' = some w ∧ Silent target back

theorem lineKinds (target s : Str) : Silent target (splitCrlf s) ∨
    (∃ front v, SoleLine target s front v) ∨ ∃ v w, OuterLines target s v w := by
  cases first : findHeaderValue s target with
  | none => exact .inl (List.findSome?_eq_none_iff.mp first)
  | some v =>
    obtain ⟨front,l,back,whole,silent,field⟩ := firstLine.mp first
    cases last : back.reverse.findSome? (lineValue target) with
    | none =>
      have behind : Silent target back := by
        simpa [Silent] using List.findSome?_eq_none_iff.mp last
      exact .inr (.inl ⟨front,v,l,back,whole,silent,field,behind⟩)
    | some w =>
      obtain ⟨far,l',mid,turned,field',behind⟩ := List.findSome?_eq_some_iff.mp last
      have shape : back = mid.reverse ++ l' :: far.reverse := by
        rw [← List.reverse_reverse back, turned]
        simp
      rw [shape] at whole
      exact .inr (.inr ⟨v,w,front,l,mid.reverse,l',far.reverse,whole,silent,field,field',
        by simpa [Silent] using behind⟩)

theorem soleField {s v : Str} {front : List Str} (sole : SoleLine transferEncoding s front v)
    (behind : front ≠ []) :
    headChunked (asBytes s) = listsChunked v ∧ finalChunked s = endsChunked v := by
  obtain ⟨l,back,whole,silent,field,rest⟩ := sole
  have fields : (splitCrlf s).tail = front.tail ++ l :: back := by
    rw [whole, List.tail_append_of_ne_nil behind]
  exact ⟨codedFirst ⟨front,l,back,whole,silent,field⟩,finalField fields field rest⟩

theorem soleStart {s v : Str} (sole : SoleLine transferEncoding s [] v) :
    headChunked (asBytes s) = listsChunked v ∧ finalChunked s = false := by
  obtain ⟨l,back,whole,silent,field,rest⟩ := sole
  refine ⟨codedFirst ⟨[],l,back,whole,silent,field⟩,finalNone ?_⟩
  rw [whole]
  exact rest

theorem outerLines {s v w : Str} (outer : OuterLines transferEncoding s v w) :
    headChunked (asBytes s) = listsChunked v ∧ finalChunked s = endsChunked w := by
  obtain ⟨front,l,mid,l',back,whole,silent,field,field',rest⟩ := outer
  refine ⟨codedFirst ⟨front,l,_,whole,silent,field⟩,?_⟩
  have behind : ∃ before, (splitCrlf s).tail = before ++ l' :: back := by
    rw [whole]
    cases front with
    | nil => exact ⟨mid,rfl⟩
    | cons x front => exact ⟨front ++ l :: mid,by simp⟩
  obtain ⟨before,whole⟩ := behind
  exact finalField whole field' rest

theorem endsSplit {v d : Str} {codings : List Str} (split : v.splitOn ',' = codings ++ [d]) :
    endsChunked v = isChunked d := by
  rw [endsChunked, split, List.getLast?_concat]
  rfl

theorem lastCoding (v : Str) : ∃ codings d, v.splitOn ',' = codings ++ [d] := by
  obtain ⟨codings,d,split⟩ :=
    (List.eq_nil_or_concat (v.splitOn ',')).resolve_left (List.splitOn_ne_nil _ _)
  exact ⟨codings,d,by rw [split, List.concat_eq_append]⟩

/- The heads whose coding is mistaken: another coding behind `chunked` in the only field;
`chunked` in a start line of that form and no field; of several such lines, `chunked` in
the first and another coding at the end of the last, or none in the first and `chunked`
at the end of the last. -/
inductive Miscoded (s : Str) : Prop
  | followed {front codings between : List Str} {v c d : Str} : SoleLine transferEncoding s front v →
      front ≠ [] → v.splitOn ',' = codings ++ c :: between ++ [d] → isChunked c = true →
      isChunked d = false → Miscoded s
  | startLine {v c : Str} : SoleLine transferEncoding s [] v → c ∈ v.splitOn ',' →
      isChunked c = true → Miscoded s
  | replaced {codings : List Str} {v w c d : Str} : OuterLines transferEncoding s v w →
      c ∈ v.splitOn ',' → isChunked c = true → w.splitOn ',' = codings ++ [d] →
      isChunked d = false → Miscoded s
  | later {codings : List Str} {v w d : Str} : OuterLines transferEncoding s v w →
      (∀ c ∈ v.splitOn ',', isChunked c = false) → w.splitOn ',' = codings ++ [d] →
      isChunked d = true → Miscoded s

theorem miscodedDiffers {s : Str} (miscoded : Miscoded s) :
    headChunked (asBytes s) ≠ finalChunked s := by
  cases miscoded with
  | followed sole behind split chunked other =>
    obtain ⟨code,rule⟩ := soleField sole behind
    rw [code, rule, endsSplit split, other, listsChunked, split]
    simp [chunked]
  | startLine sole mem chunked =>
    obtain ⟨code,rule⟩ := soleStart sole
    rw [code, rule, listsChunked, List.any_eq_true.mpr ⟨_,mem,chunked⟩]
    decide
  | replaced outer mem chunked split other =>
    obtain ⟨code,rule⟩ := outerLines outer
    rw [code, rule, endsSplit split, other, listsChunked, List.any_eq_true.mpr ⟨_,mem,chunked⟩]
    decide
  | later outer plain split chunked =>
    obtain ⟨code,rule⟩ := outerLines outer
    rw [code, rule, endsSplit split, chunked, listsChunked, List.any_eq_false.mpr]
    · decide
    · simpa using plain

theorem codedRight {s : Str} : headChunked (asBytes s) = finalChunked s ↔ ¬ Miscoded s := by
  refine ⟨fun same miscoded => miscodedDiffers miscoded same,fun right => ?_⟩
  rcases lineKinds transferEncoding s with silent | ⟨front,v,sole⟩ | ⟨v,w,outer⟩
  · have code : findHeaderValue s transferEncoding = none := List.findSome?_eq_none_iff.mpr silent
    rw [finalNone fun x mem => silent x (List.mem_of_mem_tail mem)]
    simp [headChunked,fromUtf8AsBytes,code]
  · obtain ⟨codings,d,split⟩ := lastCoding v
    by_cases start : front = []
    · subst start
      obtain ⟨code,rule⟩ := soleStart sole
      rw [code, rule, listsChunked, List.any_eq_false]
      exact fun c mem chunked => right (.startLine sole mem chunked)
    · obtain ⟨code,rule⟩ := soleField sole start
      rw [code, rule, endsSplit split, listsChunked, split]
      cases ends : isChunked d with
      | true => simp [ends]
      | false =>
        refine List.any_eq_false.mpr fun c mem chunked => ?_
        rcases List.mem_append.mp mem with mem | mem
        · obtain ⟨front,between,rfl⟩ := List.append_of_mem mem
          exact right (.followed sole start split chunked ends)
        · cases List.mem_singleton.mp mem
          exact absurd chunked (by simp [ends])
  · obtain ⟨codings,d,split⟩ := lastCoding w
    obtain ⟨code,rule⟩ := outerLines outer
    rw [code, rule, endsSplit split]
    cases ends : isChunked d with
    | true =>
      rw [listsChunked, List.any_eq_true]
      by_contra none
      exact right (.later outer (by simpa using none) split ends)
    | false =>
      rw [listsChunked, List.any_eq_false]
      exact fun c mem chunked => right (.replaced outer mem chunked split ends)

section Width
variable (t : Target)

structure FramedAs (head body : Bytes) (coded : Bool) : Prop where
  complete : complete t (Block head body) = if coded then contains chunkedEndMarker (Block head body)
    else (contentLength t head).any fun n => decide (n ≤ body.length)
  declaresLength : declaresLength t (Block head body) = (coded || (contentLength t head).isSome)
  dechunk : ∀ buffer totalRead, buffer.length ≤ t.isizeMax → totalRead ≤ buffer.length →
    buffer.take totalRead = Block head body →
      if coded then DechunkEnds t buffer totalRead head
        (decodeChunks t (head.length + doubleCrlfLen) body)
      else dechunk t buffer totalRead = .ok (totalRead,buffer)

theorem framedAs {head : Bytes} (closes : Closes head) (body : Bytes) :
    FramedAs t head body (headChunked head) := by
  refine ⟨?_,declaresBlock t closes body,fun buffer totalRead real held data => ?_⟩
  · rw [completeBlock t closes, blockComplete]
    cases contentLength t head <;> rfl
  · cases coded : headChunked head with
    | true => exact dechunkBlock closes coded real held data
    | false => exact dechunkPlain held (by rw [data, chunkedBlock closes, coded])

end Width

theorem chunkedFinal (t : Target) (s : Str) (closes : Closes (asBytes s)) (body : Bytes) :
    (chunked (Block (asBytes s) body) = finalChunked s ∧ FramedAs t (asBytes s) body (finalChunked s)) ↔
      ¬ Miscoded s := by
  rw [chunkedBlock closes, ← codedRight]
  refine and_iff_left_of_imp fun same => ?_
  rw [← same]
  exact framedAs t closes body

theorem chunkedFinalTwoFields :
    let s := "HTTP/1.1 200 OK\r\nTransfer-Encoding: gzip, Chunked".toList
    chunked (Block (asBytes s) []) = finalChunked s ∧
    FramedAs .bits32 (asBytes s) [] (finalChunked s) := by
  rw [String.toList_ofList]
  intro s
  refine (chunkedFinal .bits32 s (by decide +kernel) []).mpr (codedRight.mp ?_)
  decide +kernel

/- Taken for chunked with gzip behind it, and not taken for chunked in a second field. -/
theorem chunkedAnywhere :
    let buried := "HTTP/1.1 200 OK\r\nTransfer-Encoding: chunked, gzip".toList
    let later := "HTTP/1.1 200 OK\r\nTransfer-Encoding: gzip\r\nTransfer-Encoding: chunked".toList
    Closes (asBytes buried) ∧ chunked (Block (asBytes buried) []) = true ∧ finalChunked buried = false ∧
      Closes (asBytes later) ∧ chunked (Block (asBytes later) []) = false ∧
      finalChunked later = true := by
  rw [String.toList_ofList, String.toList_ofList]
  decide +kernel

theorem lengthFirst (t : Target) (s : Str) (n : Nat) :
    contentLength t (asBytes s) = some n ↔ ∃ value, FirstLine contentLengthName s value ∧
    Denotes t value n := by
  simp only [contentLength, fromUtf8AsBytes, bind, Option.bind_some, Option.bind_eq_some_iff,
    fromStrRadixIff (show 0 < 10 by decide), firstLine, Denotes]

theorem requestCompleteBlock {t : Target} {head body buf : Bytes} {totalRead : Nat}
    (real : buf.length ≤ t.isizeMax) (held : totalRead ≤ buf.length)
    (data : buf.take totalRead = Block head body) :
    requestComplete t buf totalRead head.length =
      .ok (decide (declaredLength t head ≤ body.length)) := by
  have total : totalRead = (Block head body).length := by rw [← data, List.length_take]; omega
  rw [blockLength] at total
  have front : buf.take head.length = head := by
    have cut := congrArg (List.take head.length) data
    rw [List.take_take, Nat.min_eq_left (by omega)] at cut
    rw [cut, Block, List.append_assoc, List.take_left]
  rw [requestCompleteExact real held (by omega), front, Outcome.ok.injEq, decide_eq_decide]
  omega

/- The first line of the form of a `Content-Length` field alone declares the length, be it
the start line, and it may carry a plus sign. Client and server both count by it. -/
theorem lengthFramed (t : Target) (s : Str) (n : Nat) :
    (contentLength t (asBytes s) = some n ↔
      ∃ value, FirstLine contentLengthName s value ∧ Denotes t value n) ∧
    contentLength t (asBytes s ++ doubleCrlf) = contentLength t (asBytes s) ∧
    (Closes (asBytes s) → contentLength t (asBytes s) = some n → ∀ body,
      (chunked (Block (asBytes s) body) = false →
        (complete t (Block (asBytes s) body) = true ↔ n ≤ body.length)) ∧
      (∀ buf totalRead, buf.length ≤ t.isizeMax → totalRead ≤ buf.length →
        buf.take totalRead = Block (asBytes s) body →
        requestComplete t buf totalRead (asBytes s).length = .ok (decide (n ≤ body.length))) ∧
      ∀ events buf total, buf.length ≤ t.isizeMax → (readRequest t events buf).result = .ok total →
        (readRequest t events buf).buf.take total = Block (asBytes s) body → n ≤ body.length) := by
  refine ⟨lengthFirst t s n,contentLengthClosed t _,fun closes declared body => ⟨fun plain => ?_,?_,?_⟩⟩
  · rw [chunkedBlock closes] at plain
    simp [completeBlock t closes,blockComplete,plain,declared]
  · intro buf totalRead real held data
    rw [requestCompleteBlock real held data, declaredLength, declared]
    rfl
  · intro events buf total real ok data
    have framed := ((readRequestSound t real events).2.2 total ok).2
    rw [data, framedBlock t closes, declaredLength, declared] at framed
    exact of_decide_eq_true framed

theorem lengthFramedFive :
    contentLength .bits32 (asBytes "POST / HTTP/1.1\r\ncontent-length: 05".toList) = some 5 :=
  (lengthFramed .bits32 "POST / HTTP/1.1\r\ncontent-length: 05".toList 5).1.mpr
    ⟨"05".toList,⟨["POST / HTTP/1.1".toList],"content-length: 05".toList,[],
      by decide +kernel,by decide,by decide⟩,
      by decide,"05".toList,by decide,.inl rfl⟩

/- Two lengths, of which the second is not looked at, and one with a sign. -/
theorem lengthAmbiguous :
    let both := "POST / HTTP/1.1\r\nContent-Length: 5\r\nContent-Length: 6".toList
    let signed := "POST / HTTP/1.1\r\nContent-Length: +5".toList
    Closes (asBytes both) ∧ contentLength .bits32 (asBytes both) = some 5 ∧
      (¬ ∀ value ∈ fieldValues contentLengthName both, Numeral 10 value 5) ∧
      Closes (asBytes signed) ∧ contentLength .bits32 (asBytes signed) = some 5 ∧
      ¬ ∀ value ∈ fieldValues contentLengthName signed, Numeral 10 value 5 := by
  rw [String.toList_ofList, String.toList_ofList]
  decide +kernel

end Nanofish.Framing

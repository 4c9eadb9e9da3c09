import Nanofish.Parsing

/-! The client's parser undoes the server's serialiser: what `build_bytes` writes is
the joined lines of the response, an empty line and the body, and `parse_resp` reads
exactly these lines back. -/
namespace Nanofish.RoundTrip
open Rust Rust.Utf8 Rust.Text Rust.Pattern
open Protocol Codes Response Codec HeaderBlock Parsing

section Writer
variable {N : Nat}

-- What a writer leaves that stops at the first thing which does not fit.
def fitted (data : Bytes) : Outcome Error (Vec UInt8 N) :=
  if room : data.length ≤ N then .ok ⟨data,room⟩ else .err .bufferOverflow

theorem fittedItems {data : Bytes} {w : Vec UInt8 N} (ok : fitted data = .ok w) : w.items = data := by
  unfold fitted at ok
  split at ok
  · cases ok; rfl
  · contradiction

theorem pushSliceFitted (v : Vec UInt8 N) (data : Bytes) :
    pushSlice v data = fitted (v.items ++ data) := by
  unfold pushSlice Vec.extend fitted
  split <;> rfl

theorem pushSliceNew (data : Bytes) : pushSlice (Vec.new : Vec UInt8 N) data = fitted data :=
  pushSliceFitted Vec.new data

theorem pushSliceErr {α : Type} (v : Vec UInt8 N) (data : Bytes) :
    (pushSlice v data >>= fun _ => (.err .bufferOverflow : Outcome Error α)) = .err .bufferOverflow := by
  rw [pushSlice]
  cases v.extend data <;> rfl

theorem pushSliceNil (v : Vec UInt8 N) : pushSlice v [] = .ok v := by
  rw [pushSlice, Vec.extendNil, Outcome.ofOptionSome]

theorem pushSliceAppend (v : Vec UInt8 N) (x y : Bytes) :
    (pushSlice v x >>= fun w => pushSlice w y) = pushSlice v (x ++ y) := by
  rw [pushSlice, pushSlice, ← Vec.extendAppend]
  cases v.extend x <;> rfl

theorem pushSliceBehind {α : Type} (v : Vec UInt8 N) (x y : Bytes) (f : Vec UInt8 N → Outcome Error α) :
    (pushSlice v x >>= fun w => pushSlice w y >>= f) = pushSlice v (x ++ y) >>= f := by
  rw [← pushSliceAppend, Outcome.bindAssoc]

theorem pushSliceItems {v w : Vec UInt8 N} {data : Bytes} (ok : pushSlice v data = .ok w) :
    w.items = v.items ++ data :=
  Vec.extendSome.mp (Outcome.ofOptionOk.mp ok)

theorem digitByte : ∀ {d : Nat}, d < 10 → asBytes [d.digitChar] = [UInt8.ofNat d + 48] := by
  decide +kernel

/- The scratch array holds the digits last first; a number that is used up adds none. -/
theorem fillDigitsItems {fuel num : Nat} {digits ds : List UInt8} {i j : Nat}
    (ok : fillDigits fuel num digits i = .ok (ds,j)) (inside : i ≤ digits.length) :
    j ≤ ds.length ∧ (ds.take j).reverse = (if num = 0 then [] else asBytes (decimal num)) ++
      (digits.take i).reverse := by
  induction fuel generalizing num digits i with
  | zero => contradiction
  | succ fuel ih =>
    rw [fillDigits] at ok
    split at ok
    · rename_i positive
      split at ok
      · rename_i room
        obtain ⟨bound,written⟩ := ih ok (by rw [List.length_set]; omega)
        have front : ((digits.set i (UInt8.ofNat (num % 10) + 48)).take (i + 1)).reverse =
            (UInt8.ofNat (num % 10) + 48) :: (digits.take i).reverse := by
          rw [List.take_add_one, List.take_set_of_le (Nat.le_refl i), List.getElem?_set_self room]
          simp
        refine ⟨bound,?_⟩
        rw [written, front, if_neg (by omega : ¬ num = 0)]
        by_cases small : num < 10
        · have none : num / 10 = 0 := by omega
          rw [if_pos none, decimal, Nat.toDigits_of_lt_base small, digitByte small,
            Nat.mod_eq_of_lt small]
          rfl
        · have more : ¬ num / 10 = 0 := by omega
          rw [if_neg more, decimal, decimal,
            Nat.toDigits_of_base_le (by decide : 1 < 10) (by omega : 10 ≤ num),
            asBytesAppend, digitByte (Nat.mod_lt _ (by decide))]
          simp
      · contradiction
    · rename_i none
      cases ok
      rw [if_pos (by omega : num = 0)]
      exact ⟨inside,rfl⟩

theorem fillDigitsPlaces {fuel : Nat} (num : Nat) {digits : List UInt8} {i : Nat}
    (inside : i ≤ digits.length) (turns : digits.length < fuel + i) :
    (num < 10 ^ (digits.length - i) → ∃ ds j, fillDigits fuel num digits i = .ok (ds,j)) ∧
    (10 ^ (digits.length - i) ≤ num → fillDigits fuel num digits i = .panic) := by
  induction fuel generalizing num digits i with
  | zero => omega
  | succ fuel ih =>
    rw [fillDigits]
    by_cases positive : 0 < num
    · rw [if_pos positive]
      by_cases room : i < digits.length
      · have size : (digits.set i (UInt8.ofNat (num % 10) + 48)).length = digits.length :=
          List.length_set
        have places : digits.length - i = digits.length - (i + 1) + 1 := by omega
        have rest :=
          ih (num / 10) (show i + 1 ≤ (digits.set i (UInt8.ofNat (num % 10) + 48)).length by omega)
            (by omega)
        rw [size] at rest
        rw [if_pos room, places, Nat.pow_succ]
        exact ⟨fun small => rest.1 (Nat.div_lt_of_lt_mul (by omega)),fun wide => rest.2 (by omega)⟩
      · have full : digits.length - i = 0 := by omega
        rw [if_neg room, full]
        exact ⟨fun small => by omega,fun _ => rfl⟩
    · rw [if_neg positive]
      have power : 0 < 10 ^ (digits.length - i) := Nat.pow_pos (by decide)
      exact ⟨fun _ => ⟨digits,i,rfl⟩,fun wide => by omega⟩

theorem pushDigitsSlice {digits : List UInt8} {i : Nat} (inside : i ≤ digits.length) (v : Vec UInt8 N) :
    pushDigits digits i v = pushSlice v (digits.take i).reverse := by
  induction i generalizing v with
  | zero => exact (pushSliceNil v).symm
  | succ j ih =>
    have here : digits[j]? = some digits[j] := List.getElem?_eq_getElem inside
    have front : (digits.take (j + 1)).reverse = [digits[j]] ++ (digits.take j).reverse := by
      rw [List.take_add_one, here]
      simp
    rw [pushDigits, here, front, ← pushSliceAppend]
    exact congrArg (pushByte v digits[j] >>= ·) (funext fun w => ih (by omega) w)

theorem writeDecimalCases (v : Vec UInt8 N) (num : Nat) : writeDecimalToBuffer v num =
    if num < 10 ^ scratchDigits then pushSlice v (asBytes (decimal num)) else .panic := by
  rw [writeDecimalToBuffer]
  by_cases zero : num = 0
  · rw [if_pos zero, zero]
    rfl
  · have turns : (List.replicate scratchDigits (0 : UInt8)).length < scratchDigits + 1 + 0 := by
      rw [List.length_replicate]
      omega
    have places := fillDigitsPlaces num (Nat.zero_le _) turns
    rw [List.length_replicate, Nat.sub_zero] at places
    rw [if_neg zero]
    by_cases small : num < 10 ^ scratchDigits
    · obtain ⟨ds,j,filled⟩ := places.1 small
      obtain ⟨inside,written⟩ := fillDigitsItems filled (Nat.zero_le _)
      rw [if_neg zero, List.take_zero, List.reverse_nil, List.append_nil] at written
      simp only [filled, Outcome.okBind, pushDigitsSlice inside, written, small, if_true]
    · rw [places.2 (Nat.le_of_not_lt small), Outcome.panicBind, if_neg small]

theorem writeDecimalSlice {num : Nat} (short : num < 10 ^ scratchDigits) (v : Vec UInt8 N) :
    writeDecimalToBuffer v num = pushSlice v (asBytes (decimal num)) :=
  (writeDecimalCases v num).trans (if_pos short)

end Writer

def statusLine (r : HttpResponse) : Str :=
  versionText ++ ' ' :: (decimal r.statusCode.asU16.toNat ++ ' ' :: r.statusCode.text)

def headerLine (h : HttpHeader) : Str := h.name ++ headerSeparator ++ h.value

def carriesLength (headers : List HttpHeader) : Bool :=
  headers.any fun h => eqIgnoreAsciiCase h.name contentLengthName

def emitted (r : HttpResponse) : List HttpHeader :=
  if !carriesLength r.headers.items && !r.body.asBytes.isEmpty then
    r.headers.items ++ [⟨contentLengthName,decimal r.body.asBytes.length⟩]
  else r.headers.items

def headLines (r : HttpResponse) : List Str := statusLine r :: (emitted r).map headerLine

def terminated (lines : List Str) : Bytes := asBytes (lines.flatMap (· ++ ['\r','\n']))

theorem terminatedAppend (x y : List Str) : terminated (x ++ y) = terminated x ++ terminated y := by
  simp [terminated]

theorem crlfEncoded : asBytes ['\r','\n'] = crlf := by decide

theorem headerLineTerminated (h : HttpHeader) :
    terminated [headerLine h] = asBytes h.name ++ asBytes headerSeparator ++
      asBytes h.value ++ crlf := by
  simp [terminated,headerLine,← crlfEncoded]

theorem statusLineTerminated (r : HttpResponse) : terminated [statusLine r] = httpVersionPrefix ++
    asBytes (decimal r.statusCode.asU16.toNat) ++ [32] ++ asBytes r.statusCode.text ++ crlf := by
  have version : asBytes versionText ++ [32] = httpVersionPrefix := by decide
  have space : byteOf ' ' = 32 := by decide
  simp only [terminated, List.flatMap_singleton, statusLine, asBytesAppend,
    asBytesAscii (show ' '.toNat < 128 by decide),
    space, crlfEncoded, ← version, List.append_assoc, List.cons_append, List.nil_append]

section Written
variable {N : Nat}

theorem writeStatusLineSlice (r : HttpResponse) (v : Vec UInt8 N) :
    writeStatusLine v r.statusCode = pushSlice v (terminated [statusLine r]) := by
  have short : r.statusCode.asU16.toNat < 10 ^ scratchDigits :=
    Nat.lt_trans (UInt16.toNat_lt _) (by decide)
  have space (w : Vec UInt8 N) : pushByte w 32 = pushSlice w [32] := rfl
  simp only [writeStatusLine, writeDecimalSlice short, space, pushSliceAppend, statusLineTerminated,
    List.append_assoc]

theorem writeHeadersSlice (headers : List HttpHeader) (v : Vec UInt8 N) (seen : Bool) :
    writeHeaders headers v seen =
    pushSlice v (terminated (headers.map headerLine)) >>= fun w =>
    .ok (w,seen || carriesLength headers) := by
  induction headers generalizing v seen with
  | nil =>
    have none : terminated (([] : List HttpHeader).map headerLine) = [] := rfl
    rw [none, pushSliceNil, Outcome.okBind, carriesLength, List.any_nil, Bool.or_false, writeHeaders]
  | cons header headers ih =>
    have lines : terminated ((header :: headers).map headerLine) =
        terminated [headerLine header] ++ terminated (headers.map headerLine) :=
      terminatedAppend [headerLine header] _
    simp only [writeHeaders, ih, pushSliceBehind, lines, headerLineTerminated, carriesLength,
      List.any_cons, Bool.or_assoc, List.append_assoc]

def addsLength (r : HttpResponse) (auto : Bool) : Bool :=
  auto && !carriesLength r.headers.items && !r.body.asBytes.isEmpty

def writtenFields (r : HttpResponse) (auto : Bool) : List HttpHeader :=
  if auto then emitted r else r.headers.items

theorem writtenAdded {r : HttpResponse} {auto : Bool} (adds : addsLength r auto = true) :
    writtenFields r auto =
    r.headers.items ++ [⟨contentLengthName,decimal r.body.asBytes.length⟩] := by
  unfold addsLength at adds
  cases auto with
  | false => contradiction
  | true => exact if_pos adds

theorem writtenOwn {r : HttpResponse} {auto : Bool} (keeps : addsLength r auto = false) :
    writtenFields r auto = r.headers.items := by
  unfold addsLength at keeps
  cases auto with
  | false => rfl
  | true =>
    rw [Bool.true_and] at keeps
    rw [writtenFields, if_pos rfl, emitted, keeps]
    rfl

theorem writeHeadSlice {r : HttpResponse} {auto : Bool}
    (short : addsLength r auto = true → r.body.asBytes.length < 10 ^ scratchDigits) (v : Vec UInt8 N) :
    r.writeHeadBytes v auto =
      pushSlice v (terminated (statusLine r :: (writtenFields r auto).map headerLine) ++ crlf) := by
  have front (fields : List HttpHeader) : terminated (statusLine r :: fields.map headerLine) =
      terminated [statusLine r] ++ terminated (fields.map headerLine) :=
    terminatedAppend [statusLine r] _
  simp only [HttpResponse.writeHeadBytes, writeStatusLineSlice, writeHeadersSlice,
    Outcome.bindAssoc, Outcome.okBind, Bool.false_or]
  cases adds : addsLength r auto with
  | true =>
    have line : terminated ((writtenFields r auto).map headerLine) =
        terminated (r.headers.items.map headerLine) ++
        (asBytes contentLengthName ++ asBytes headerSeparator ++
          asBytes (decimal r.body.asBytes.length) ++ crlf) := by
      rw [writtenAdded adds, List.map_append, terminatedAppend, List.map_singleton, headerLineTerminated]
    have digits (w : Vec UInt8 N) := writeDecimalSlice (short adds) w
    unfold addsLength at adds
    simp only [adds, if_true, digits, pushSliceAppend, front, line, List.append_assoc]
  | false =>
    have own := writtenOwn adds
    unfold addsLength at adds
    simp only [adds, Bool.false_eq_true, if_false, pushSliceBehind, pushSliceAppend, front, own,
      List.append_assoc]

theorem writeHeadShort {r : HttpResponse} {auto : Bool} {v w : Vec UInt8 N}
    (ok : r.writeHeadBytes v auto = .ok w) (adds : addsLength r auto = true) :
    r.body.asBytes.length < 10 ^ scratchDigits := by
  unfold addsLength at adds
  simp only [HttpResponse.writeHeadBytes, writeHeadersSlice, Outcome.bindAssoc, Outcome.okBind,
    Bool.false_or, adds, if_true] at ok
  obtain ⟨a,_,ok⟩ := Outcome.bindOk.mp ok
  obtain ⟨b,_,ok⟩ := Outcome.bindOk.mp ok
  obtain ⟨c,_,ok⟩ := Outcome.bindOk.mp ok
  obtain ⟨d,_,ok⟩ := Outcome.bindOk.mp ok
  obtain ⟨e,digits,_⟩ := Outcome.bindOk.mp ok
  rw [writeDecimalCases] at digits
  split at digits
  · assumption
  · contradiction

theorem writeHeadItems {r : HttpResponse} {v w : Vec UInt8 N} (ok : r.writeHeadBytes v true = .ok w) :
    w.items = v.items ++ terminated (headLines r) ++ crlf := by
  have written := ok
  rw [writeHeadSlice (writeHeadShort ok)] at written
  rw [pushSliceItems written, ← List.append_assoc]
  rfl

theorem buildBytesFitted (N : Nat) {r : HttpResponse}
    (short : addsLength r true = true → r.body.asBytes.length < 10 ^ scratchDigits) :
    r.buildBytes N = fitted (terminated (headLines r) ++ crlf ++ r.body.asBytes) := by
  rw [HttpResponse.buildBytes, writeHeadSlice short, pushSliceAppend, pushSliceNew]
  rfl

theorem buildHeadBytesFitted (N : Nat) (r : HttpResponse) :
    r.buildHeadBytes N =
      fitted (terminated (statusLine r :: r.headers.items.map headerLine) ++ crlf) := by
  rw [HttpResponse.buildHeadBytes, writeHeadSlice fun adds => by simp [addsLength] at adds, pushSliceNew]
  rfl

def headText (r : HttpResponse) : Str := joinPair '\r' '\n' (headLines r)

theorem terminatedText {lines : List Str} (ne : lines ≠ []) :
    terminated lines = asBytes (joinPair '\r' '\n' lines) ++ crlf := by
  rw [terminated, ← joinTerminated ne, asBytesAppend]
  rfl

theorem terminatedBlock {lines : List Str} (ne : lines ≠ []) (body : Bytes) :
    terminated lines ++ crlf ++ body = Block (asBytes (joinPair '\r' '\n' lines)) body := by
  rw [terminatedText ne]
  simp [Block,crlf,doubleCrlf]

theorem buildBytesBlock {r : HttpResponse} {b : Vec UInt8 N} (built : r.buildBytes N = .ok b) :
    b.items = Block (asBytes (headText r)) r.body.asBytes := by
  rw [HttpResponse.buildBytes] at built
  obtain ⟨head,written,pushed⟩ := Outcome.bindOk.mp built
  rw [pushSliceItems pushed, writeHeadItems written]
  exact terminatedBlock (by simp [headLines]) _

end Written

structure CleanHeader (h : HttpHeader) : Prop where
  nameColon : ':' ∉ h.name
  nameLine : '\r' ∉ h.name ∧ '\n' ∉ h.name
  valueLine : '\r' ∉ h.value ∧ '\n' ∉ h.value
  nameEdges : EdgesClean h.name
  valueEdges : EdgesClean h.value

instance (h : HttpHeader) : Decidable (CleanHeader h) :=
  decidable_of_iff (':' ∉ h.name ∧ ('\r' ∉ h.name ∧ '\n' ∉ h.name) ∧ ('\r' ∉ h.value ∧ '\n' ∉ h.value) ∧
      EdgesClean h.name ∧ EdgesClean h.value)
    ⟨fun ⟨c,n,v,e,f⟩ => ⟨c,n,v,e,f⟩,fun ⟨c,n,v,e,f⟩ => ⟨c,n,v,e,f⟩⟩

theorem decimalPlain {n : Nat} {c : Char} (mem : c ∈ decimal n) : isWhitespace c = false := by
  have digit : 48 ≤ c.toNat ∧ c.toNat ≤ 57 := by
    simpa [Char.isDigit,Char.le_def,UInt32.le_iff_toNat_le] using decimalDigits mem
  simp only [isWhitespace, Bool.or_eq_false_iff, Bool.and_eq_false_iff, decide_eq_false_iff_not,
    beq_eq_false_iff_ne]
  omega

theorem lengthHeaderClean (n : Nat) : CleanHeader ⟨contentLengthName,decimal n⟩ where
  nameColon := show ':' ∉ contentLengthName by decide
  nameLine := show '\r' ∉ contentLengthName ∧ '\n' ∉ contentLengthName by decide
  valueLine :=
    ⟨fun mem => absurd (decimalPlain mem) (by decide),fun mem =>
      absurd (decimalPlain mem) (by decide)⟩
  nameEdges := show EdgesClean contentLengthName by decide
  valueEdges :=
    ⟨fun _ mem => decimalPlain (List.mem_of_mem_head? mem),fun _ mem =>
      decimalPlain (List.mem_of_getLast? mem)⟩

theorem emittedClean {r : HttpResponse} (clean : ∀ h ∈ r.headers.items, CleanHeader h) :
    ∀ h ∈ emitted r, CleanHeader h := by
  intro h mem
  unfold emitted at mem
  split at mem
  · rcases List.mem_append.mp mem with own | auto
    · exact clean h own
    · rw [List.mem_singleton.mp auto]
      exact lengthHeaderClean _
  · exact clean h mem

theorem headerLinePlain {h : HttpHeader} (clean : CleanHeader h) :
    headerLine h ≠ [] ∧ '\r' ∉ headerLine h := by
  refine ⟨by simp [headerLine,headerSeparator],?_⟩
  simp [headerLine,headerSeparator,clean.nameLine.1,clean.valueLine.1]

-- What the parser asks of a field: a lone carriage return or line feed does not harm it.
structure ReadableHeader (h : HttpHeader) : Prop where
  nameColon : ':' ∉ h.name
  nameSingle : position ['\r','\n'] h.name = none
  valueSingle : position ['\r','\n'] h.value = none
  nameEdges : EdgesClean h.name
  valueEdges : EdgesClean h.value

theorem cleanReadable {h : HttpHeader} (clean : CleanHeader h) : ReadableHeader h where
  nameColon := clean.nameColon
  nameSingle := positionAbsent clean.nameLine.1
  valueSingle := positionAbsent clean.valueLine.1
  nameEdges := clean.nameEdges
  valueEdges := clean.valueEdges

theorem headerLineRead {h : HttpHeader} (readable : ReadableHeader h) :
    headerField (headerLine h) = some h := by
  have shape : headerLine h = h.name ++ ':' :: ' ' :: h.value := by simp [headerLine,headerSeparator]
  rw [shape, headerFieldAt _ readable.nameColon, trimPadded (by decide),
    trimClean readable.nameEdges, trimClean readable.valueEdges]

theorem linesRead {hs : List HttpHeader} (readable : ∀ h ∈ hs, ReadableHeader h) :
    (hs.map headerLine).filterMap headerField = hs := by
  induction hs with
  | nil => rfl
  | cons h hs ih =>
    rw [List.map_cons, List.filterMap_cons_some (headerLineRead (readable h List.mem_cons_self)),
      ih fun k mem => readable k (List.mem_cons_of_mem h mem)]

theorem fieldsEmitted {hs : List HttpHeader} (clean : ∀ h ∈ hs, CleanHeader h)
    (few : hs.length ≤ maxHeaders) :
    (fieldsOf (hs.map headerLine)).items = hs :=
  (congrArg (List.take maxHeaders) (linesRead fun h mem => cleanReadable (clean h mem))).trans
    (List.take_of_length_le few)

theorem statusLinePlain (r : HttpResponse) : statusLine r ≠ [] ∧ '\r' ∉ statusLine r := by
  have digits : '\r' ∉ decimal r.statusCode.asU16.toNat :=
    fun mem => absurd (decimalPlain mem) (by decide)
  have text : '\r' ∉ r.statusCode.text := fun mem => (textPlain r.statusCode _ mem).1 rfl
  exact ⟨by simp [statusLine],by simp [statusLine,digits,text,show '\r' ∉ versionText by decide]⟩

theorem statusOfLine (r : HttpResponse) :
    statusOf (statusLine r) = .ok (.fromU16 r.statusCode.asU16) := by
  have digits : decimal r.statusCode.asU16.toNat ≠ [] := Nat.toDigits_ne_nil
  obtain ⟨more,words⟩ := statusWords digits (fun _ mem => decimalPlain mem) r.statusCode.text
  have second : (splitWhitespace (statusLine r))[1]? = some (decimal r.statusCode.asU16.toNat) := by
    rw [statusLine, words]
    rfl
  rw [statusOf, second, Outcome.ofOptionSome, Outcome.okBind, statusFrom, tryFromDecimal]

section Read
variable {r : HttpResponse} (clean : ∀ h ∈ r.headers.items, CleanHeader h)
include clean

theorem headLinesPlain : ∀ l ∈ headLines r, l ≠ [] ∧ '\r' ∉ l := by
  intro l mem
  rcases List.mem_cons.mp mem with rfl | mem
  · exact statusLinePlain r
  · obtain ⟨h,inside,rfl⟩ := List.mem_map.mp mem
    exact headerLinePlain (emittedClean clean h inside)

theorem headCloses : Closes (asBytes (headText r)) :=
  textCloses (by simp [headLines]) fun l mem =>
    ⟨(headLinesPlain clean l mem).1,positionAbsent (headLinesPlain clean l mem).2⟩

theorem parseHeadText (some : 1 ≤ (emitted r).length) :
    parseHead (headText r) =
      .ok (.fromU16 r.statusCode.asU16,fieldsOf ((emitted r).map headerLine)) := by
  have lines : splitCrlf (headText r) = headLines r :=
    splitJoin (by decide) (by simp [headLines]) fun l mem => (headLinesPlain clean l mem).2
  obtain ⟨h,hs,shape⟩ := List.exists_cons_of_length_pos some
  rw [parseHead, lines, headLines, shape, List.map_cons]
  simp only [statusOfLine, Outcome.okBind]

end Read

theorem parseBuild (N : Nat) (r : HttpResponse) (clean : ∀ h ∈ r.headers.items, CleanHeader h)
    (some : 1 ≤ (emitted r).length) (few : (emitted r).length ≤ maxHeaders) (b : Vec UInt8 N)
    (built : r.buildBytes N = .ok b) :
    ∃ r', parseResp b.items = .ok r' ∧ r'.statusCode = .fromU16 r.statusCode.asU16 ∧
      r'.headers.items = emitted r ∧ r'.body.asBytes = r.body.asBytes := by
  have closes := headCloses clean
  rw [buildBytesBlock built, parseRespBlock closes, fromUtf8AsBytes, Outcome.ofOptionSome,
    Outcome.okBind, parseHeadText clean some, Outcome.okBind]
  exact ⟨_,rfl,rfl,fieldsEmitted (emittedClean clean) few,parseBodyBytes _ _⟩

theorem parseBuildNotFound :
    let r : HttpResponse := ⟨.notFound,⟨[⟨"X-Id".toList,"a b".toList⟩],by decide⟩,.text "hi".toList⟩
    emitted r = [⟨"X-Id".toList,"a b".toList⟩,⟨"Content-Length".toList,"2".toList⟩] ∧
    ∃ r',
    parseResp
      (asBytes "HTTP/1.1 404 Not Found\r\nX-Id: a b\r\nContent-Length: 2\r\n\r\nhi".toList) =
        .ok r' ∧
      r'.statusCode = .fromU16 404 ∧ r'.headers.items = emitted r ∧
      r'.body.asBytes = asBytes "hi".toList := by
  rw [show "HTTP/1.1 404 Not Found\r\nX-Id: a b\r\nContent-Length: 2\r\n\r\nhi".toList =
    _ from String.toList_ofList]
  intro r
  refine ⟨by decide +kernel,?_⟩
  show let wire := asBytes _; ∃ r', parseResp wire = .ok r' ∧ r'.statusCode = .fromU16 404 ∧
    r'.headers.items = emitted r ∧ r'.body.asBytes = asBytes "hi".toList
  intro wire
  exact parseBuild 128 r (by decide +kernel) (by decide +kernel) (by decide +kernel)
    ⟨wire,by decide +kernel⟩
    (by decide +kernel)

end Nanofish.RoundTrip

import Nanofish.RequestRoundTrip

/-! What the writers leave in a buffer of any capacity: everything, or `BufferOverflow`.
Lengths pass a scratch array on their way, of ten places in a response and of eight in
a request, and these bounds are the only ones that are not the buffer's own. -/
namespace Nanofish.Writing
open Rust Rust.Utf8 Rust.Text
open Protocol Codes Response Codec RoundTrip RequestRoundTrip

theorem usizePlaces32 : Target.bits32.usizeMax < 10 ^ scratchDigits := by decide

theorem writeDecimalExact (t : Target) (num : Nat) (word : num ≤ t.usizeMax) (N : Nat)
    (v : Vec UInt8 N) :
    Canonical (decimal num) num ∧ (t = .bits32 → num < 10 ^ scratchDigits) ∧
      (writeDecimalToBuffer v num = fitted (v.items ++ asBytes (decimal num)) ∧
        writeDecimalToBuffer v num ≠ .panic ↔ num < 10 ^ scratchDigits) := by
  refine ⟨decimalCanonical num,fun narrow => ?_,?_⟩
  · subst narrow
    exact Nat.lt_of_le_of_lt word usizePlaces32
  · rw [writeDecimalCases]
    by_cases short : num < 10 ^ scratchDigits
    · rw [if_pos short, pushSliceFitted]
      refine iff_of_true ⟨rfl,fun left => ?_⟩ short
      unfold fitted at left
      split at left <;> contradiction
    · rw [if_neg short]
      exact iff_of_false (fun written => written.2 rfl) short

theorem writeDecimalTenDigits :
    writeDecimalToBuffer (⟨[58,32],by decide⟩ : Vec UInt8 12) 4294967295 =
      fitted ([58,32] ++ asBytes (decimal 4294967295)) ∧
    writeDecimalToBuffer (⟨[58,32],by decide⟩ : Vec UInt8 12) 4294967295 ≠ .panic :=
  (writeDecimalExact .bits32 4294967295 (by decide) 12 ⟨[58,32],by decide⟩).2.2.mpr (by decide)

theorem writeDecimalElevenDigits :
    10000000000 ≤ Target.bits64.usizeMax ∧
    writeDecimalToBuffer (Vec.new : Vec UInt8 32) 10000000000 = .panic ∧
    writeDecimalToBuffer (Vec.new : Vec UInt8 32) 10000000000 ≠
      fitted (asBytes (decimal 10000000000)) := by decide +kernel

theorem buildExact (N : Nat) (r : HttpResponse) (short : (decimal r.body.asBytes.length).length ≤ 10) :
    r.buildBytes N = fitted (terminated (headLines r) ++ crlf ++ r.body.asBytes) ∧
    r.buildHeadBytes N = fitted (terminated (statusLine r :: r.headers.items.map headerLine) ++ crlf) ∧
    (carriesLength r.headers.items = true ∨ r.body.asBytes = [] →
      r.buildBytes N = r.buildHeadBytes N >>= fun head => pushSlice head r.body.asBytes) := by
  have digits : r.body.asBytes.length < 10 ^ scratchDigits :=
    (Nat.length_toDigits_le_iff (by decide) (by decide)).mp short
  have whole := buildBytesFitted N fun _ => digits
  refine ⟨whole,buildHeadBytesFitted N r,fun plain => ?_⟩
  have own : emitted r = r.headers.items := by
    refine if_neg fun adds => ?_
    rcases plain with carried | none
    · simp [carried] at adds
    · simp [none] at adds
  rw [whole, buildHeadBytesFitted, ← pushSliceNew, ← pushSliceNew, pushSliceAppend, headLines, own]

theorem buildExactText :
    let r : HttpResponse := ⟨.ok,⟨[⟨"content-length".toList,"2".toList⟩],by decide⟩,.text "hi".toList⟩
    r.buildBytes 40 = r.buildHeadBytes 40 >>= fun head => pushSlice head (asBytes "hi".toList) :=
  (buildExact 40 ⟨.ok,⟨[⟨"content-length".toList,"2".toList⟩],by decide⟩,.text "hi".toList⟩
    (by decide +kernel)).2.2
    (.inl (by decide +kernel))

/- A length of nine digits is refused, though all of the request may fit. -/
theorem buildReqExact (RQ : Nat) (method : HttpMethod) (host path : Str) (headers : List HttpHeader)
    (body : Option Bytes) :
    buildReq RQ method host path headers body =
      fitted (terminated (requestLines method host path headers body) ++ crlf) ↔
      LengthFits headers body ∨
      RQ < (terminated (requestLines method host path headers body) ++ crlf).length := by
  by_cases fits : LengthFits headers body
  · exact iff_of_true ((buildReqCases method host path headers body).1 fits) (.inl fits)
  · rw [(buildReqCases method host path headers body).2 fits, or_iff_right fits, fitted]
    split
    · exact iff_of_false (fun same => by contradiction) (by omega)
    · exact iff_of_true rfl (by omega)

theorem nineDigits {data : Bytes} (size : data.length = 10 ^ 8) :
    let whole := terminated (requestLines .POST "h".toList "/".toList [] (some data)) ++ crlf
    let built : Outcome Error (Vec UInt8 4096) :=
      buildReq 4096 .POST "h".toList "/".toList [] (some data)
    whole.length = 74 ∧ built = .err .bufferOverflow ∧ built ≠ fitted whole := by
  intro whole built
  have lines : requestLines .POST "h".toList "/".toList [] (some data) =
      [requestLine .POST "/".toList] ++
      [⟨"Host".toList,"h".toList⟩,⟨contentLengthName,decimal (10 ^ 8)⟩,connectionClose].map
        headerLine := by
    rw [← size]
    rfl
  have total : whole.length = 74 := by
    simp only [whole, lines]
    decide +kernel
  have refused : built = .err .bufferOverflow := by
    refine (buildReqCases .POST "h".toList "/".toList [] (some data)).2 fun fits => ?_
    rcases fits data rfl with carried | short
    · contradiction
    · rw [size] at short
      exact absurd short (by decide)
  refine ⟨total,refused,?_⟩
  rw [refused, fitted, dif_pos (by omega)]
  intro same
  contradiction

theorem buildReqRefuses :
    (terminated (requestLines .POST "h".toList "/".toList [] (some (List.replicate (10 ^ 8) 0))) ++
      crlf).length = 74 ∧
    buildReq 4096 .POST "h".toList "/".toList [] (some (List.replicate (10 ^ 8) 0)) =
      .err .bufferOverflow ∧
    ¬ ∀ (RQ : Nat) (method : HttpMethod) (host path : Str) (headers : List HttpHeader)
      (body : Option Bytes),
      buildReq RQ method host path headers body =
        fitted (terminated (requestLines method host path headers body) ++ crlf) :=
  have both := nineDigits List.length_replicate
  ⟨both.1,both.2.1,fun always => both.2.2 (always 4096 .POST "h".toList "/".toList [] _)⟩

end Nanofish.Writing

import Nanofish.Protocol

/-! The decoder of query components: `percent_decode` of request.rs. The buffer it
writes into is part of what it returns, at every exit. -/
namespace Nanofish.PercentDecode
open Rust Rust.Utf8 Rust.Text
open Protocol

def hexValue (byte : UInt8) : Option UInt8 :=
  if 48 ≤ byte ∧ byte ≤ 57 then some (byte - 48)
  else if 97 ≤ byte ∧ byte ≤ 102 then some (byte - 97 + 10)
  else if 65 ≤ byte ∧ byte ≤ 70 then some (byte - 65 + 10)
  else none

def escapeByte (hi lo : UInt8) : Option UInt8 := do
  let h ← hexValue hi
  let l ← hexValue lo
  some (h <<< 4 ||| l)

def decodeLoop : Bytes → Nat → Bytes → Outcome Error Nat × Bytes
  | [], written, out => (.ok written,out)
  | byte :: rest, written, out =>
    if byte = 37 then match rest with
      | hi :: lo :: rest => match escapeByte hi lo with
        | none => (.err (.invalidResponse "Invalid percent escape"),out)
        | some decoded =>
          if written < out.length then decodeLoop rest (written + 1) (out.set written decoded)
          else (.err .bufferOverflow,out)
      | _ => (.err (.invalidResponse "Incomplete percent escape"),out)
    else
      let decoded := if byte = 43 then 32 else byte
      if written < out.length then decodeLoop rest (written + 1) (out.set written decoded)
      else (.err .bufferOverflow,out)

def decodedText (written : Nat) (out : Bytes) : Outcome Error Str := do
  let bytes ← sliceTo out written
  Outcome.ofOption (.invalidResponse "Invalid UTF-8 in percent-decoded value") (fromUtf8 bytes)

def percentDecode (input : Str) (out : Bytes) : Outcome Error Str × Bytes :=
  let (result,out) := decodeLoop (asBytes input) 0 out
  (result >>= fun written => decodedText written out,out)

/- How bytes may be spelled: some of them as they are, a space as a plus sign, and any
byte as an escape with digits of either case. -/
def IsHex (digit : UInt8) (value : Nat) : Prop :=
  value < 16 ∧ (digit = byteOf value.digitChar ∨ digit = byteOf value.digitChar.toUpper)
instance (digit : UInt8) (value : Nat) : Decidable (IsHex digit value) := by unfold IsHex; infer_instance

inductive Spelled (plain : UInt8 → Prop) : Bytes → Bytes → Prop
  | done : Spelled plain [] []
  | literal {byte : UInt8} {rest bytes : Bytes} : plain byte → Spelled plain rest bytes →
      Spelled plain (byte :: rest) (byte :: bytes)
  | space {rest bytes : Bytes} : Spelled plain rest bytes → Spelled plain (43 :: rest) (32 :: bytes)
  | escape {hi lo byte : UInt8} {rest bytes : Bytes} : IsHex hi (byte.toNat / 16) →
      IsHex lo (byte.toNat % 16) →
      Spelled plain rest bytes → Spelled plain (37 :: hi :: lo :: rest) (byte :: bytes)

def Literal (byte : UInt8) : Prop := byte ≠ 37 ∧ byte ≠ 43
def FormLiteral (byte : UInt8) : Prop := byte ≠ 37 ∧ byte ≠ 43 ∧ byte ≠ 32

theorem spelledMono {p q : UInt8 → Prop} (wider : ∀ byte, p byte → q byte) {e bytes : Bytes}
    (spelled : Spelled p e bytes) :
    Spelled q e bytes := by
  induction spelled with
  | done => exact .done
  | literal plain _ ih => exact .literal (wider _ plain) ih
  | space _ ih => exact .space ih
  | escape hi lo _ ih => exact .escape hi lo ih

theorem spelledLength {p : UInt8 → Prop} {e bytes : Bytes} (spelled : Spelled p e bytes) :
    bytes.length ≤ e.length := by
  induction spelled with
  | done => exact Nat.le_refl _
  | literal _ _ ih => exact Nat.succ_le_succ ih
  | space _ ih => exact Nat.succ_le_succ ih
  | escape _ _ _ ih => simp only [List.length_cons]; omega

theorem hexValueSome : ∀ n < 256, (hexValue (UInt8.ofNat n)).all fun v =>
    IsHex (UInt8.ofNat n) v.toNat := by decide +kernel

theorem hexValueIsHex : ∀ v < 16, hexValue (byteOf v.digitChar) = some (UInt8.ofNat v) ∧
    hexValue (byteOf v.digitChar.toUpper) = some (UInt8.ofNat v) := by decide +kernel

theorem hexValueIff {digit v : UInt8} : hexValue digit = some v ↔ IsHex digit v.toNat := by
  constructor
  · intro value
    have byte : UInt8.ofNat digit.toNat = digit := UInt8.ofNat_toNat
    have found := hexValueSome digit.toNat digit.toNat_lt
    rw [byte, value] at found
    exact of_decide_eq_true found
  · rintro ⟨small,rfl | rfl⟩
    · rw [(hexValueIsHex _ small).1, UInt8.ofNat_toNat]
    · rw [(hexValueIsHex _ small).2, UInt8.ofNat_toNat]

theorem nibbles : ∀ h < 16, ∀ l < 16,
    (UInt8.ofNat h <<< 4 ||| UInt8.ofNat l).toNat = 16 * h + l := by decide +kernel

theorem nibblesByte {h l : UInt8} (high : h.toNat < 16) (low : l.toNat < 16) :
    (h <<< 4 ||| l).toNat = 16 * h.toNat + l.toNat := by
  have joined := nibbles h.toNat high l.toNat low
  rwa [UInt8.ofNat_toNat, UInt8.ofNat_toNat] at joined

theorem escapeByteIff {hi lo byte : UInt8} :
    escapeByte hi lo = some byte ↔ IsHex hi (byte.toNat / 16) ∧ IsHex lo (byte.toNat % 16) := by
  simp only [escapeByte, bind, Option.bind_eq_some_iff, Option.some.injEq]
  constructor
  · rintro ⟨h,high,l,low,rfl⟩
    have high := hexValueIff.mp high
    have low := hexValueIff.mp low
    have small := low.1
    rw [nibblesByte high.1 low.1, show (16 * h.toNat + l.toNat) / 16 = h.toNat by omega,
      show (16 * h.toNat + l.toNat) % 16 = l.toNat by omega]
    exact ⟨high,low⟩
  · rintro ⟨high,low⟩
    have bound := byte.toNat_lt
    have first : (UInt8.ofNat (byte.toNat / 16)).toNat = byte.toNat / 16 := by
      rw [UInt8.toNat_ofNat']
      omega
    have second : (UInt8.ofNat (byte.toNat % 16)).toNat = byte.toNat % 16 := by
      rw [UInt8.toNat_ofNat']
      omega
    refine ⟨UInt8.ofNat (byte.toNat / 16),hexValueIff.mpr (by rwa [first]),UInt8.ofNat (byte.toNat % 16),
      hexValueIff.mpr (by rwa [second]),UInt8.toNat_inj.mp ?_⟩
    rw [nibblesByte (by omega) (by omega), first, second]
    omega

def putAll (bytes : Bytes) (written : Nat) (out : Bytes) : Outcome Error Nat × Bytes :=
  if written + bytes.length ≤ out.length then (.ok (written + bytes.length),overwrite out written bytes)
  else (.err .bufferOverflow,overwrite out written (bytes.take (out.length - written)))

theorem putAllCons {byte : UInt8} {bytes : Bytes} {written : Nat} {out : Bytes}
    (held : written ≤ out.length) :
    putAll (byte :: bytes) written out =
      if written < out.length then putAll bytes (written + 1) (out.set written byte) else
      (.err .bufferOverflow,out) := by
  by_cases inside : written < out.length
  · have left : out.length - written = out.length - (written + 1) + 1 := by omega
    rw [if_pos inside, putAll, putAll, List.length_set, List.length_cons, left, List.take_succ_cons,
      overwriteSet inside, overwriteSet inside, Nat.add_assoc written 1, Nat.add_comm 1]
  · rw [if_neg inside, putAll, if_neg (by rw [List.length_cons]; omega),
      Nat.sub_eq_zero_of_le (Nat.le_of_not_lt inside), List.take_zero, overwriteNil]

theorem loopSpelled {e bytes : Bytes} (spelled : Spelled Literal e bytes) {written : Nat} {out : Bytes}
    (held : written ≤ out.length) : decodeLoop e written out = putAll bytes written out := by
  induction spelled generalizing written out with
  | done => rw [decodeLoop, putAll, List.length_nil, Nat.add_zero, if_pos held, overwriteNil]
  | literal plain _ ih =>
    rw [decodeLoop.eq_def, putAllCons held]
    simp only [plain.1, plain.2, if_false]
    split
    · exact ih (by rw [List.length_set]; omega)
    · rfl
  | space _ ih =>
    rw [decodeLoop.eq_def, putAllCons held]
    simp only [show (43 : UInt8) ≠ 37 by decide, if_false, if_true]
    split
    · exact ih (by rw [List.length_set]; omega)
    · rfl
  | escape hi lo _ ih =>
    rw [decodeLoop.eq_def, putAllCons held]
    simp only [if_true, escapeByteIff.mpr ⟨hi,lo⟩]
    split
    · exact ih (by rw [List.length_set]; omega)
    · rfl

theorem loopSound {e : Bytes} {written n : Nat} {out : Bytes}
    (ok : (decodeLoop e written out).1 = .ok n) :
    ∃ bytes, Spelled Literal e bytes := by
  fun_induction decodeLoop e written out with
  | case1 => exact ⟨[],.done⟩
  | case2 written out hi lo rest invalid => contradiction
  | case3 written out hi lo rest decoded pair room ih =>
    obtain ⟨bytes,spelled⟩ := ih ok
    obtain ⟨high,low⟩ := escapeByteIff.mp pair
    exact ⟨decoded :: bytes,.escape high low spelled⟩
  | case4 written out hi lo rest decoded pair full => contradiction
  | case5 written out rest short => contradiction
  | case6 byte rest written out plain decoded room ih =>
    obtain ⟨bytes,spelled⟩ := ih ok
    by_cases plus : byte = 43
    · exact ⟨32 :: bytes,plus ▸ .space spelled⟩
    · exact ⟨byte :: bytes,.literal ⟨plain,plus⟩ spelled⟩
  | case7 byte rest written out plain full => contradiction

theorem percentDecodeSpelled {input : Str} {bytes : Bytes}
    (spelled : Spelled Literal (asBytes input) bytes) (out : Bytes) :
    percentDecode input out =
      if bytes.length ≤ out.length then
        (Outcome.ofOption (.invalidResponse "Invalid UTF-8 in percent-decoded value") (fromUtf8 bytes),
          bytes ++ out.drop bytes.length)
      else (.err .bufferOverflow,bytes.take out.length) := by
  have start (ys : Bytes) : overwrite out 0 ys = ys ++ out.drop ys.length := by
    rw [overwrite, List.take_zero, List.nil_append, Nat.zero_add]
  rw [percentDecode, loopSpelled spelled (Nat.zero_le _), putAll]
  simp only [Nat.zero_add, Nat.sub_zero, start]
  split
  · rename_i room
    have held : bytes.length ≤ (bytes ++ out.drop bytes.length).length := by
      rw [List.length_append]
      omega
    simp only [Outcome.okBind, decodedText, sliceToFits held, List.take_left]
  · rename_i full
    have behind : out.drop (bytes.take out.length).length = [] :=
      List.drop_eq_nil_of_le (by rw [List.length_take]; omega)
    rw [Outcome.errBind, behind, List.append_nil]

theorem percentDecodeExact :
    (∀ s e out, Spelled FormLiteral (asBytes e) (asBytes s) →
      (percentDecode e out).1 = if byteLen s ≤ out.length then .ok s else .err .bufferOverflow) ∧
    ∀ input out s, (percentDecode input out).1 = .ok s → Spelled Literal (asBytes input) (asBytes s) ∧
      byteLen s ≤ byteLen input ∧ (percentDecode input out).2 = asBytes s ++ out.drop (byteLen s) := by
  refine ⟨fun s e out spelled => ?_,fun input out s ok => ?_⟩
  · have decodes := spelledMono (fun byte plain => (⟨plain.1,plain.2.1⟩ : Literal byte)) spelled
    rw [percentDecodeSpelled decodes, fromUtf8AsBytes, ← byteLen]
    split <;> rfl
  · obtain ⟨n,looped,_⟩ := Outcome.bindOk.mp ok
    obtain ⟨bytes,spelled⟩ := loopSound looped
    rw [percentDecodeSpelled spelled] at ok ⊢
    split at ok
    · rename_i room
      obtain rfl := fromUtf8Iff.mp (Outcome.ofOptionOk.mp ok)
      rw [if_pos room]
      exact ⟨spelled,spelledLength spelled,rfl⟩
    · contradiction

theorem percentDecodeForm :
    (percentDecode "a+%C3%b6".toList [0,0,0,0]).1 = .ok "a ö".toList ∧
      (percentDecode "a+%C3%b6".toList [0,0,0]).1 = .err .bufferOverflow := by
  have encoded : asBytes "a+%C3%b6".toList = [97,43,37,67,51,37,98,54] := by decide +kernel
  have text : asBytes "a ö".toList = [97,32,195,182] := by decide +kernel
  have spelled : Spelled FormLiteral (asBytes "a+%C3%b6".toList) (asBytes "a ö".toList) := by
    rw [encoded, text]
    exact .literal ⟨by decide,by decide,by decide⟩
      (.space (.escape (by decide) (by decide) (.escape (by decide) (by decide) .done)))
  exact ⟨(percentDecodeExact.1 _ _ _ spelled).trans (by decide +kernel),
    (percentDecodeExact.1 _ _ _ spelled).trans (by decide +kernel)⟩

end Nanofish.PercentDecode

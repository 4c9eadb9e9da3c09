import Nanofish.Rust.Pattern

/-! UTF-8 as `core::str::from_utf8` reads it: a byte string is accepted exactly when
it is the encoding of a sequence of Unicode scalar values, and a `str` is that
sequence. The coding of one scalar value is Lean's own. -/
namespace Rust.Utf8
open Pattern

abbrev Bytes := List UInt8
abbrev Str := List Char

def asBytes (s : Str) : Bytes := s.flatMap String.utf8EncodeChar

def decodeChar (b : Bytes) : Option (Char × Bytes) :=
  ((b.take 4).toByteArray.utf8DecodeChar? 0).map fun c => (c,b.drop c.utf8Size)

def decode : Nat → Bytes → Option Str
  | _, [] => some []
  | 0, _ :: _ => none
  | fuel+1, b => do
    let (c,rest) ← decodeChar b
    let s ← decode fuel rest
    some (c :: s)

-- Every character takes a byte, so there is fuel for all of them.
def fromUtf8 (b : Bytes) : Option Str := decode b.length b

@[simp] theorem asBytesNil : asBytes [] = [] := rfl

@[simp] theorem asBytesCons (c : Char) (s : Str) :
    asBytes (c :: s) = String.utf8EncodeChar c ++ asBytes s := rfl

@[simp] theorem asBytesAppend (s u : Str) : asBytes (s ++ u) = asBytes s ++ asBytes u :=
  List.flatMap_append

theorem decodeCharEncoded (c : Char) (rest : Bytes) :
    decodeChar (String.utf8EncodeChar c ++ rest) = some (c,rest) := by
  have size := String.length_utf8EncodeChar c
  have four := c.utf8Size_le_four
  have head : (String.utf8EncodeChar c ++ rest).take 4 =
      String.utf8EncodeChar c ++ rest.take (4 - c.utf8Size) := by
    rw [List.take_append, size, List.take_of_length_le (by omega)]
  rw [decodeChar, head, List.toByteArray_append, ByteArray.utf8DecodeChar?_utf8EncodeChar_append,
    Option.map_some, ← size, List.drop_left]

theorem decodeCharSound {b rest : Bytes} {c : Char} (h : decodeChar b = some (c,rest)) :
    b = String.utf8EncodeChar c ++ rest := by
  obtain ⟨d,found,same⟩ := Option.map_eq_some_iff.mp h
  obtain ⟨rfl,rfl⟩ := Prod.mk.inj same
  obtain ⟨more,bytes⟩ := ByteArray.exists_of_utf8DecodeChar?_eq_some found
  have window := congrArg (fun bytes => bytes.data.toList) bytes
  simp only [List.toList_data_toByteArray, ByteArray.data_append, Array.toList_append] at window
  have start : String.utf8EncodeChar d <+: b :=
    List.IsPrefix.trans ⟨_,window.symm⟩ (List.take_prefix 4 b)
  obtain ⟨tail,rfl⟩ := start
  rw [← String.length_utf8EncodeChar d, List.drop_left]

theorem decodeEncoded (s : Str) (fuel : Nat) (enough : (asBytes s).length ≤ fuel) :
    decode fuel (asBytes s) = some s := by
  induction s generalizing fuel with
  | nil => cases fuel <;> rfl
  | cons c s ih =>
    have positive := c.utf8Size_pos
    rw [asBytesCons, List.length_append, String.length_utf8EncodeChar] at enough
    cases fuel with
    | zero => omega
    | succ fuel =>
      obtain ⟨x,xs,shape⟩ : ∃ x xs, asBytes (c :: s) = x :: xs := by
        refine List.exists_cons_of_ne_nil fun empty => ?_
        have none := congrArg List.length empty
        rw [asBytesCons, List.length_append, String.length_utf8EncodeChar, List.length_nil] at none
        omega
      have step : decode (fuel + 1) (x :: xs) =
          (decodeChar (x :: xs)).bind fun (c,rest) => (decode fuel rest).bind fun s =>
          some (c :: s) := rfl
      rw [shape, step, ← shape, asBytesCons, decodeCharEncoded]
      simp only [Option.bind_some, ih fuel (by omega)]

theorem decodeSound {fuel : Nat} {b : Bytes} {s : Str} (h : decode fuel b = some s) : asBytes s = b := by
  induction fuel generalizing b s with
  | zero =>
    cases b with
    | nil => cases Option.some.inj h; rfl
    | cons x xs => contradiction
  | succ fuel ih =>
    cases b with
    | nil => cases Option.some.inj h; rfl
    | cons x xs =>
      simp only [decode, bind, Option.bind_eq_some_iff] at h
      obtain ⟨⟨c,rest⟩,head,tail,more,last⟩ := h
      cases Option.some.inj last
      rw [asBytesCons, ih more]
      exact (decodeCharSound head).symm

@[simp] theorem fromUtf8AsBytes (s : Str) : fromUtf8 (asBytes s) = some s :=
  decodeEncoded s _ (Nat.le_refl _)

theorem fromUtf8Iff {b : Bytes} {s : Str} : fromUtf8 b = some s ↔ asBytes s = b :=
  ⟨decodeSound,fun h => h ▸ fromUtf8AsBytes s⟩

theorem asBytesInjective {s u : Str} (same : asBytes s = asBytes u) : s = u :=
  Option.some.inj ((fromUtf8AsBytes s).symm.trans (same ▸ fromUtf8AsBytes u))

/- A character below 128 is one byte, its own code; every byte of the others is
128 or more. So an ASCII byte in an encoding stands for an ASCII character. -/
theorem encodeAscii {c : Char} (ascii : c.toNat < 128) :
    String.utf8EncodeChar c = [UInt8.ofNat c.toNat] := by
  have small : c.val.toNat ≤ 127 := Nat.le_of_lt_succ ascii
  simp only [String.utf8EncodeChar, small, if_true]
  rfl

theorem encodeWide {c : Char} (wide : 128 ≤ c.toNat) : ∀ b ∈ String.utf8EncodeChar c, 128 ≤ b.toNat := by
  have large : ¬ c.val.toNat ≤ 127 := Nat.not_le.mpr wide
  intro b mem
  simp only [String.utf8EncodeChar, large, if_false] at mem
  split at mem
  · simp only [List.mem_cons, List.not_mem_nil, or_false] at mem
    rcases mem with rfl | rfl <;> simp only [UInt8.toNat_ofNat'] <;> omega
  · split at mem
    · simp only [List.mem_cons, List.not_mem_nil, or_false] at mem
      rcases mem with rfl | rfl | rfl <;> simp only [UInt8.toNat_ofNat'] <;> omega
    · simp only [List.mem_cons, List.not_mem_nil, or_false] at mem
      rcases mem with rfl | rfl | rfl | rfl <;> simp only [UInt8.toNat_ofNat'] <;> omega

theorem asciiSplit {s : Str} {x y : Bytes} {b : UInt8} (whole : asBytes s = x ++ b :: y)
    (ascii : b.toNat < 128) :
    ∃ u c v, s = u ++ c :: v ∧ asBytes u = x ∧ c.toNat = b.toNat ∧ asBytes v = y := by
  induction s generalizing x with
  | nil => simp at whole
  | cons d s ih =>
    rw [asBytesCons] at whole
    rcases List.append_eq_append_iff.mp whole with ⟨more,split,rest⟩ | ⟨more,split,rest⟩
    · obtain ⟨u,c,v,same,left,code,right⟩ := ih rest
      exact ⟨d :: u,c,v,by simp [same],by rw [asBytesCons, left, split],code,right⟩
    · cases more with
      | nil =>
        obtain ⟨u,c,v,same,left,code,right⟩ := ih (x := []) rest.symm
        exact ⟨d :: u,c,v,by simp [same],by rw [asBytesCons, left]; simpa using split,code,right⟩
      | cons first more =>
        obtain ⟨rfl,rest⟩ := List.cons.inj rest
        have inside : b ∈ String.utf8EncodeChar d := by rw [split]; simp
        have small : d.toNat < 128 := by
          refine Nat.lt_of_not_le fun wide => ?_
          have := encodeWide wide b inside
          omega
        have one := encodeAscii small
        rw [one] at split
        have lengths := congrArg List.length split
        simp only [List.length_append, List.length_cons, List.length_nil] at lengths
        obtain rfl : x = [] := List.length_eq_zero_iff.mp (by omega)
        obtain rfl : more = [] := List.length_eq_zero_iff.mp (by omega)
        have code : b = UInt8.ofNat d.toNat := by simpa using split.symm
        refine ⟨[],d,s,rfl,rfl,?_,by simpa using rest.symm⟩
        rw [code, UInt8.toNat_ofNat']
        omega

theorem encodingFront {u s : Str} {x : Bytes} (whole : asBytes s = asBytes u ++ x) :
    ∃ v, s = u ++ v ∧ asBytes v = x := by
  induction u generalizing s with
  | nil => exact ⟨s,rfl,whole⟩
  | cons c u ih =>
    have first := decodeCharEncoded c (asBytes u ++ x)
    rw [asBytesCons, List.append_assoc] at whole
    cases s with
    | nil =>
      have none := congrArg List.length whole
      have positive := c.utf8Size_pos
      rw [asBytesNil, List.length_append, String.length_utf8EncodeChar, List.length_nil] at none
      omega
    | cons d s =>
      rw [← whole, asBytesCons, decodeCharEncoded] at first
      obtain ⟨rfl,rest⟩ := Prod.mk.inj (Option.some.inj first)
      obtain ⟨v,rfl,same⟩ := ih rest
      exact ⟨v,rfl,same⟩

theorem fromUtf8Append (u : Str) (x : Bytes) :
    fromUtf8 (asBytes u ++ x) = (fromUtf8 x).map (u ++ ·) := by
  cases text : fromUtf8 x with
  | some v => exact fromUtf8Iff.mpr (by rw [asBytesAppend, fromUtf8Iff.mp text])
  | none =>
    cases whole : fromUtf8 (asBytes u ++ x) with
    | none => rfl
    | some s =>
      obtain ⟨v,_,same⟩ := encodingFront (fromUtf8Iff.mp whole)
      rw [fromUtf8Iff.mpr same] at text
      contradiction

def byteOf (c : Char) : UInt8 := UInt8.ofNat c.toNat

theorem byteOfNat {c : Char} (ascii : c.toNat < 128) : (byteOf c).toNat = c.toNat := by
  rw [byteOf, UInt8.toNat_ofNat']
  omega

theorem asBytesAscii {c : Char} (ascii : c.toNat < 128) (s : Str) :
    asBytes (c :: s) = byteOf c :: asBytes s := by
  rw [asBytesCons, encodeAscii ascii]
  rfl

theorem asciiLength {s : Str} (ascii : ∀ c ∈ s, c.toNat < 128) : (asBytes s).length = s.length := by
  induction s with
  | nil => rfl
  | cons c s ih =>
    rw [asBytesAscii (ascii c List.mem_cons_self), List.length_cons,
      ih fun d mem => ascii d (List.mem_cons_of_mem c mem), List.length_cons]

theorem asciiSplitAt {s : Str} {c : Char} {x y : Bytes} (ascii : c.toNat < 128)
    (whole : asBytes s = x ++ byteOf c :: y) :
    ∃ u v, s = u ++ c :: v ∧ asBytes u = x ∧ asBytes v = y := by
  have small := byteOfNat ascii
  obtain ⟨u,d,v,same,left,code,right⟩ := asciiSplit whole (by omega)
  have equal : d = c := Char.toNat_inj.mp (code.trans small)
  exact ⟨u,v,equal ▸ same,left,right⟩

theorem asciiMem {s : Str} {c : Char} (ascii : c.toNat < 128) : byteOf c ∈ asBytes s ↔ c ∈ s := by
  constructor
  · intro mem
    obtain ⟨x,y,whole⟩ := List.append_of_mem mem
    obtain ⟨u,v,same,_,_⟩ := asciiSplitAt ascii whole
    simp [same]
  · intro mem
    obtain ⟨u,v,rfl⟩ := List.append_of_mem mem
    rw [asBytesAppend, asBytesAscii ascii]
    simp

section Pair
variable {a b : Char}

theorem pairAbsent (left : a.toNat < 128) (right : b.toNat < 128) {s : Str} :
    position [a,b] s = none ↔ position [byteOf a,byteOf b] (asBytes s) = none := by
  rw [positionNone (by simp), positionNone (by simp)]
  constructor
  · intro fresh j found
    obtain ⟨y,window⟩ := found
    have whole : asBytes s = (asBytes s).take j ++ byteOf a :: byteOf b :: y := by
      simpa [← window] using (List.take_append_drop j (asBytes s)).symm
    obtain ⟨u,v,same,_,tail⟩ := asciiSplitAt left whole
    obtain ⟨w,z,inner,empty,_⟩ := asciiSplitAt (x := []) right tail
    have none : w = [] := asBytesInjective empty
    subst none inner same
    exact fresh u.length ⟨z,by simp⟩
  · intro fresh j found
    obtain ⟨y,window⟩ := found
    obtain ⟨u,rfl⟩ : ∃ u, s = u ++ a :: b :: y :=
      ⟨s.take j,by simpa [← window] using (List.take_append_drop j s).symm⟩
    refine fresh (asBytes u).length ⟨asBytes y,?_⟩
    rw [asBytesAppend, asBytesAscii left, asBytesAscii right]
    simp

theorem splitEncoded (left : a.toNat < 128) (right : b.toNat < 128) (distinct : a ≠ b) (s : Str) :
    (splitPair a b s).map asBytes = splitPair (byteOf a) (byteOf b) (asBytes s) := by
  have apart : byteOf a ≠ byteOf b := by
    intro same
    refine distinct (Char.toNat_inj.mp ?_)
    rw [← byteOfNat left, ← byteOfNat right, same]
  induction h : s.length using Nat.strongRecOn generalizing s with
  | ind n ih =>
    rcases splitPairFirst (a := a) (b := b) s with ⟨none,whole⟩ | ⟨l,u,same,found,first⟩
    · rw [whole, splitPairWhole.mpr ((pairAbsent left right).mp none)]
      rfl
    · have cut := splitPairAppend distinct l u
      rw [← same, first] at cut
      have line : splitPair a b l = [l] := by
        have tails := List.append_cancel_right ((List.singleton_append (x := l) ▸ cut) : [l] ++ _ = _)
        exact tails.symm
      have atom := splitPairWhole.mpr ((pairAbsent left right).mp (splitPairWhole.mp line))
      have shorter : u.length < n := by rw [← h, same]; simp; omega
      rw [first, List.map_cons, ih _ shorter u rfl, same, asBytesAppend, asBytesAscii left,
        asBytesAscii right, splitPairAppend apart, atom, List.singleton_append]

end Pair
end Rust.Utf8

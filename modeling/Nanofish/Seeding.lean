import Mathlib.Algebra.GroupWithZero.Nat
import Mathlib.Data.List.Iterate
import Nanofish.Rust.Outcome
import Nanofish.Rust.Utf8
import Nanofish.Rust.Words

/-! The random numbers of a TLS connection: `tls_seed` and `XorShift32Rng` of
client/embassy.rs. Whatever is drawn, the generator has only updated its state, and an
update loses nothing of it. -/
namespace Nanofish.Seeding
open Rust Rust.Utf8 Rust.Words

def zeroStateFallback : UInt32 := 0x9E3779B9

def tryIntoU32 (n : UInt64) : Option UInt32 := if n.toNat < 2 ^ 32 then some n.toUInt32 else none

def tlsSeed (ticks : UInt64) : UInt32 := match tryIntoU32 (ticks &&& 0xFFFFFFFF) with
  | none => zeroStateFallback
  | some seed => if seed = 0 then zeroStateFallback else seed

structure XorShift32Rng where
  state : UInt32
  deriving DecidableEq, Repr

namespace XorShift32Rng
variable {ε : Type}

def new (seed : UInt32) : XorShift32Rng := ⟨seed⟩

def nextU32 (rng : XorShift32Rng) : UInt32 × XorShift32Rng :=
  let x := rng.state
  let x := x ^^^ x <<< 13
  let x := x ^^^ x >>> 17
  let x := x ^^^ x <<< 5
  (x,⟨x⟩)

def nextU64 (rng : XorShift32Rng) : UInt64 × XorShift32Rng :=
  let (hi,rng) := rng.nextU32
  let (lo,rng) := rng.nextU32
  (hi.toUInt64 <<< 32 ||| lo.toUInt64,rng)

def toLeBytes (x : UInt32) : Bytes := [x.toUInt8,(x >>> 8).toUInt8,(x >>> 16).toUInt8,(x >>> 24).toUInt8]

def fillChunks (rng : XorShift32Rng) : List Bytes → Outcome ε (List Bytes × XorShift32Rng)
  | [] => .ok ([],rng)
  | chunk :: rest => do
    let (val,rng) := rng.nextU32
    let bytes ← sliceTo (toLeBytes val) chunk.length
    let chunk ← copyFromSlice chunk bytes
    let (rest,rng) ← fillChunks rng rest
    .ok (chunk :: rest,rng)

def fillBytes (rng : XorShift32Rng) (dest : Bytes) : Outcome ε (Bytes × XorShift32Rng) := do
  let (pieces,rng) ← fillChunks rng (chunks 4 (by decide) dest)
  .ok (pieces.flatten,rng)

def tryFillBytes (rng : XorShift32Rng) (dest : Bytes) : Outcome ε (Bytes × XorShift32Rng) :=
  fillBytes rng dest

end XorShift32Rng
open XorShift32Rng

inductive Call where
  | nextU32
  | nextU64
  | fillBytes (dest : Bytes)
  | tryFillBytes (dest : Bytes)
  deriving DecidableEq, Repr

section Runs
variable {ε : Type}

def call (rng : XorShift32Rng) : Call → Outcome ε XorShift32Rng
  | .nextU32 => .ok rng.nextU32.2
  | .nextU64 => .ok rng.nextU64.2
  | .fillBytes dest => rng.fillBytes dest >>= fun filled => .ok filled.2
  | .tryFillBytes dest => rng.tryFillBytes dest >>= fun filled => .ok filled.2

def run : List Call → XorShift32Rng → Outcome ε XorShift32Rng
  | [], rng => .ok rng
  | c :: calls, rng => do
    let rng ← call rng c
    run calls rng

end Runs

def update (x : UInt32) : UInt32 := (nextU32 ⟨x⟩).2.state

theorem nextU32Updates (rng : XorShift32Rng) : rng.nextU32 = (update rng.state,⟨update rng.state⟩) := rfl

theorem updateBits (x : UInt32) :
    (update x).toBitVec = mix (· <<< 5) (mix (· >>> 17) (mix (· <<< 13) x.toBitVec)) := rfl

theorem toBitVecBijective : Function.Bijective UInt32.toBitVec :=
  ⟨fun _ _ same => UInt32.toBitVec_inj.mp same,fun b => ⟨UInt32.ofBitVec b,rfl⟩⟩

theorem updateBijective : Function.Bijective update := by
  have first :=
    mixBijective (shiftLeftFading (show 0 < 13 by decide) : Fading fun x : BitVec 32 => x <<< 13)
  have second :=
    mixBijective (shiftRightFading (show 0 < 17 by decide) : Fading fun x : BitVec 32 => x >>> 17)
  have third :=
    mixBijective (shiftLeftFading (show 0 < 5 by decide) : Fading fun x : BitVec 32 => x <<< 5)
  have bits : UInt32.toBitVec ∘ update =
    mix (· <<< 5) ∘ mix (· >>> 17) ∘ mix (· <<< 13) ∘ UInt32.toBitVec := funext updateBits
  refine (Function.Bijective.of_comp_iff' toBitVecBijective update).mp ?_
  rw [bits]
  exact third.comp (second.comp (first.comp toBitVecBijective))

theorem updateZero {x : UInt32} : update x = 0 ↔ x = 0 :=
  ⟨fun zero => updateBijective.injective zero,fun zero => by rw [zero]; rfl⟩

theorem updatesZero (n : Nat) {x : UInt32} : update^[n] x = 0 ↔ x = 0 := by
  induction n generalizing x with
  | zero => rfl
  | succ n ih => rw [Function.iterate_succ_apply, ih, updateZero]

def draws (n : Nat) : Nat := (n + 3) / 4

def stream (x : UInt32) (n : Nat) : Bytes := (List.iterate update (update x) n).flatMap toLeBytes

theorem toLeBytesLength (x : UInt32) : (toLeBytes x).length = 4 := rfl

theorem streamNext (x : UInt32) (n : Nat) :
    stream x (n + 1) = toLeBytes (update x) ++ stream (update x) n := rfl

theorem drawsMore {n : Nat} (more : 0 < n) : draws n = draws (n - 4) + 1 := by
  unfold draws
  omega

section Filling
variable {ε : Type}

theorem fillChunksExact (ε : Type) (rng : XorShift32Rng) (dest : Bytes) :
    ∃ pieces, (rng.fillChunks (chunks 4 (by decide) dest) : Outcome ε _) =
        .ok (pieces,⟨update^[draws dest.length] rng.state⟩) ∧
      pieces.flatten = (stream rng.state (draws dest.length)).take dest.length := by
  fun_induction chunks 4 (by decide) dest generalizing rng with
  | case1 => exact ⟨[],rfl,rfl⟩
  | case2 x xs ih =>
    obtain ⟨pieces,filled,bytes⟩ := ih ⟨update rng.state⟩
    generalize whole : x :: xs = dest at filled bytes ⊢
    have more : 0 < dest.length := by rw [← whole]; exact Nat.succ_pos _
    have size : (dest.take 4).length ≤ (toLeBytes (update rng.state)).length := by
      rw [List.length_take, toLeBytesLength]
      omega
    have same : (dest.take 4).length =
        ((toLeBytes (update rng.state)).take (dest.take 4).length).length := by
      rw [List.length_take_of_le size]
    rw [List.length_drop] at filled bytes
    refine ⟨(toLeBytes (update rng.state)).take (dest.take 4).length :: pieces,?_,?_⟩
    · rw [fillChunks, nextU32Updates, drawsMore more, Function.iterate_succ_apply]
      simp only [sliceToFits size, Outcome.okBind, copyFromSliceFits same, filled]
    · have front : (toLeBytes (update rng.state)).take (dest.take 4).length =
          (toLeBytes (update rng.state)).take dest.length := by
        rw [List.take_eq_take_iff, toLeBytesLength, List.length_take]
        omega
      rw [drawsMore more, streamNext, List.flatten_cons, bytes, List.take_append, toLeBytesLength, front]

theorem fillBytesExact (rng : XorShift32Rng) (dest : Bytes) : (rng.fillBytes dest : Outcome ε _) =
    .ok ((stream rng.state (draws dest.length)).take dest.length,
      ⟨update^[draws dest.length] rng.state⟩) := by
  obtain ⟨pieces,filled,bytes⟩ := fillChunksExact ε rng dest
  rw [fillBytes, filled, ← bytes]
  rfl

example :
    (fillBytes (new 1) (List.replicate 6 0) : Outcome Empty _) = .ok ([33,32,4,0,1,6],⟨67634689⟩) := by
  rw [fillBytesExact]
  decide

def drawn : Call → Nat
  | .nextU32 => 1
  | .nextU64 => 2
  | .fillBytes dest => draws dest.length
  | .tryFillBytes dest => draws dest.length

theorem callUpdates (rng : XorShift32Rng) (c : Call) :
    (call rng c : Outcome ε _) = .ok ⟨update^[drawn c] rng.state⟩ := by
  cases c with
  | nextU32 => rfl
  | nextU64 => rfl
  | fillBytes dest => rw [call, fillBytesExact]; rfl
  | tryFillBytes dest => rw [call, tryFillBytes, fillBytesExact]; rfl

theorem runUpdates (calls : List Call) (rng : XorShift32Rng) :
    (run calls rng : Outcome ε _) = .ok ⟨update^[(calls.map drawn).sum] rng.state⟩ := by
  induction calls generalizing rng with
  | nil => rfl
  | cons c calls ih =>
    rw [run, callUpdates, Outcome.okBind, ih, List.map_cons, List.sum_cons, Nat.add_comm,
      Function.iterate_add_apply]

end Filling

theorem tlsSeedLow (ticks : UInt64) :
    tlsSeed ticks = if ticks.toUInt32 = 0 then zeroStateFallback else ticks.toUInt32 := by
  have masked : (ticks &&& 0xFFFFFFFF).toNat = ticks.toNat % 2 ^ 32 := by
    rw [UInt64.toNat_and]
    exact Nat.and_two_pow_sub_one_eq_mod ticks.toNat 32
  have low : (ticks &&& 0xFFFFFFFF).toUInt32 = ticks.toUInt32 := by
    rw [← UInt32.toNat_inj, UInt64.toNat_toUInt32, UInt64.toNat_toUInt32, masked, Nat.mod_mod]
  have fits : (ticks &&& 0xFFFFFFFF).toNat < 2 ^ 32 := by
    rw [masked]
    exact Nat.mod_lt _ (Nat.two_pow_pos 32)
  rw [tlsSeed, tryIntoU32, if_pos fits, low]

theorem tlsSeedAlive (ticks : UInt64) : tlsSeed ticks ≠ 0 := by
  rw [tlsSeedLow]
  split
  · decide
  · assumption

theorem seedNeverDegenerates (ε : Type) :
    (∀ ticks calls, ∃ rng, (run calls (new (tlsSeed ticks)) : Outcome ε _) = .ok rng ∧ rng.state ≠ 0) ∧
    (∀ rng, nextU32 rng = (update rng.state,⟨update rng.state⟩)) ∧
    (Function.Bijective update ∧ ∀ x, update x = 0 ↔ x = 0) ∧
    ∀ rng dest, (fillBytes rng dest : Outcome ε _) =
      .ok ((stream rng.state (draws dest.length)).take dest.length,
        ⟨update^[draws dest.length] rng.state⟩) := by
  refine ⟨fun ticks calls => ?_,nextU32Updates,⟨updateBijective,fun x => updateZero⟩,fillBytesExact⟩
  exact ⟨_,runUpdates calls _,fun zero => tlsSeedAlive ticks ((updatesZero _).mp zero)⟩

end Nanofish.Seeding

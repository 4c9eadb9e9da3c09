import Mathlib.Algebra.Group.Nat.Defs
import Mathlib.Tactic.Common

/-! What one run of a Rust function can end in, machine words of the two usual
pointer widths, slices that panic when they leave their bounds, and vectors of a
fixed capacity. Nothing here depends on the program that is modelled. -/
namespace Rust

/- `pending` is the run that has not returned: it still waits for input, or the
fuel of its loop ran out. A function that terminates never ends there. -/
inductive Outcome (ε α : Type) where
  | ok (value : α)
  | err (error : ε)
  | panic
  | pending
  deriving DecidableEq, Repr

namespace Outcome
variable {ε α β γ : Type}

protected def bind : Outcome ε α → (α → Outcome ε β) → Outcome ε β
  | ok a, f => f a
  | err e, _ => err e
  | panic, _ => panic
  | pending, _ => pending

instance : Monad (Outcome ε) where
  pure := ok
  bind := Outcome.bind

@[simp] theorem pureEq (a : α) : (pure a : Outcome ε α) = ok a := rfl
@[simp] theorem okBind (a : α) (f : α → Outcome ε β) : (ok a >>= f) = f a := rfl
@[simp] theorem errBind (e : ε) (f : α → Outcome ε β) : (err e >>= f) = err e := rfl
@[simp] theorem panicBind (f : α → Outcome ε β) : (panic >>= f) = panic := rfl
@[simp] theorem pendingBind (f : α → Outcome ε β) : (pending >>= f) = pending := rfl

theorem bindAssoc (x : Outcome ε α) (f : α → Outcome ε β) (g : β → Outcome ε γ) :
    (x >>= f) >>= g = x >>= fun a => f a >>= g := by
  cases x <;> rfl

theorem bindOk {x : Outcome ε α} {f : α → Outcome ε β} {b : β} :
    (x >>= f) = ok b ↔ ∃ a, x = ok a ∧ f a = ok b := by
  cases x <;> simp

theorem bindErr {x : Outcome ε α} {f : α → Outcome ε β} {e : ε} :
    (x >>= f) = err e ↔ x = err e ∨ ∃ a, x = ok a ∧ f a = err e := by
  cases x <;> simp

theorem bindOkErr {x : Outcome ε α} {f : α → β} :
    (∃ e, (x >>= fun a => ok (f a)) = err e) ↔ ∃ e, x = err e := by
  cases x <;> simp

theorem bindPanic {x : Outcome ε α} {f : α → Outcome ε β} :
    (x >>= f) = panic ↔ x = panic ∨ ∃ a, x = ok a ∧ f a = panic := by
  cases x <;> simp

def ofOption (e : ε) : Option α → Outcome ε α
  | some a => ok a
  | none => err e

@[simp] theorem ofOptionSome (e : ε) (a : α) : ofOption e (some a) = ok a := rfl
@[simp] theorem ofOptionNone (e : ε) : ofOption e (none : Option α) = err e := rfl

theorem ofOptionOk {e : ε} {x : Option α} {a : α} : ofOption e x = ok a ↔ x = some a := by
  cases x <;> simp

def Returns : Outcome ε α → Prop
  | ok _ => True
  | err _ => True
  | panic => False
  | pending => False

instance (x : Outcome ε α) : Decidable x.Returns := by cases x <;> unfold Returns <;> infer_instance

theorem ofOptionReturns (e : ε) (x : Option α) : (ofOption e x).Returns := by cases x <;> trivial

theorem bindReturns {x : Outcome ε α} {f : α → Outcome ε β} (first : x.Returns)
    (second : ∀ a, (f a).Returns) :
    (x >>= f).Returns := by
  cases x with
  | ok a => exact second a
  | err e => trivial
  | panic => contradiction
  | pending => contradiction

end Outcome

inductive Target where
  | bits32
  | bits64
  deriving DecidableEq, Repr

namespace Target

def bits : Target → Nat
  | bits32 => 32
  | bits64 => 64

def usizeMax (t : Target) : Nat := 2 ^ t.bits - 1
-- No slice is longer than this, whatever its elements.
def isizeMax (t : Target) : Nat := 2 ^ (t.bits - 1) - 1

theorem isizeBelowUsize (t : Target) : 2 * t.isizeMax + 1 = t.usizeMax := by cases t <;> rfl

variable {ε : Type}

def add (t : Target) (a b : Nat) : Outcome ε Nat := if a + b ≤ t.usizeMax then .ok (a + b) else .panic
def sub (a b : Nat) : Outcome ε Nat := if b ≤ a then .ok (a - b) else .panic
def saturatingAdd (t : Target) (a b : Nat) : Nat := min (a + b) t.usizeMax

theorem addFits {t : Target} {a b : Nat} (fits : a + b ≤ t.usizeMax) :
    (t.add a b : Outcome ε Nat) = .ok (a + b) := if_pos fits

theorem addOk {t : Target} {a b n : Nat} (ok : (t.add a b : Outcome ε Nat) = .ok n) : n = a + b := by
  unfold add at ok
  split at ok
  · cases ok; rfl
  · contradiction

theorem addOverflows {t : Target} {a b : Nat} (beyond : t.usizeMax < a + b) :
    (t.add a b : Outcome ε Nat) = .panic := if_neg (Nat.not_le.mpr beyond)

theorem subFits {a b : Nat} (order : b ≤ a) : (sub a b : Outcome ε Nat) = .ok (a - b) := if_pos order

/- A length that some slice really has is never reached by saturation. -/
theorem saturatingReached {t : Target} {a b n : Nat} (real : n ≤ t.isizeMax) :
    t.saturatingAdd a b ≤ n ↔ a + b ≤ n := by
  have wide := t.isizeBelowUsize
  unfold saturatingAdd
  omega

end Target

section Slices
variable {ε α : Type}

def sliceTo (xs : List α) (n : Nat) : Outcome ε (List α) :=
  if n ≤ xs.length then .ok (xs.take n) else .panic

def sliceFrom (xs : List α) (n : Nat) : Outcome ε (List α) :=
  if n ≤ xs.length then .ok (xs.drop n) else .panic

def slice (xs : List α) (a b : Nat) : Outcome ε (List α) :=
  if a ≤ b ∧ b ≤ xs.length then .ok ((xs.take b).drop a) else .panic

def overwrite (xs : List α) (pos : Nat) (ys : List α) : List α :=
  xs.take pos ++ ys ++ xs.drop (pos + ys.length)

def copyWithin (xs : List α) (a b dest : Nat) : Outcome ε (List α) :=
  if a ≤ b ∧ b ≤ xs.length ∧ dest + (b - a) ≤ xs.length then
    .ok (overwrite xs dest ((xs.take b).drop a))
  else .panic

def copyFromSlice (dest src : List α) : Outcome ε (List α) :=
  if dest.length = src.length then .ok src else .panic

def chunks (size : Nat) (positive : 0 < size) : List α → List (List α)
  | [] => []
  | x :: xs => (x :: xs).take size :: chunks size positive ((x :: xs).drop size)
termination_by xs => xs.length
decreasing_by
  rw [List.length_drop, List.length_cons]
  omega

theorem sliceToFits {xs : List α} {n : Nat} (fits : n ≤ xs.length) :
    (sliceTo xs n : Outcome ε (List α)) = .ok (xs.take n) := if_pos fits

theorem sliceFromFits {xs : List α} {n : Nat} (fits : n ≤ xs.length) :
    (sliceFrom xs n : Outcome ε (List α)) = .ok (xs.drop n) := if_pos fits

theorem sliceFits {xs : List α} {a b : Nat} (order : a ≤ b) (fits : b ≤ xs.length) :
    (slice xs a b : Outcome ε (List α)) = .ok ((xs.take b).drop a) := if_pos ⟨order,fits⟩

theorem copyFromSliceFits {dest src : List α} (same : dest.length = src.length) :
    (copyFromSlice dest src : Outcome ε (List α)) = .ok src := if_pos same

theorem overwriteLength {xs ys : List α} {p : Nat} (fits : p + ys.length ≤ xs.length) :
    (overwrite xs p ys).length = xs.length := by
  simp only [overwrite, List.length_append, List.length_take, List.length_drop]
  omega

theorem overwriteTake {xs ys : List α} {p : Nat} (fits : p ≤ xs.length) :
    (overwrite xs p ys).take (p + ys.length) = xs.take p ++ ys := by
  have len : (xs.take p ++ ys).length = p + ys.length := by simp [Nat.min_eq_left fits]
  rw [overwrite, ← len, List.take_left]

theorem overwriteDrop {xs ys : List α} {p n : Nat} (fits : p ≤ xs.length) (after : p + ys.length ≤ n) :
    (overwrite xs p ys).drop n = xs.drop n := by
  have len : (xs.take p ++ ys).length = p + ys.length := by simp [Nat.min_eq_left fits]
  rw [overwrite, List.drop_append, len, List.drop_eq_nil_of_le (by omega), List.drop_drop,
    List.nil_append]
  congr 1
  omega

theorem overwriteNil (xs : List α) (p : Nat) : overwrite xs p [] = xs := by
  rw [overwrite, List.append_nil, List.length_nil, Nat.add_zero, List.take_append_drop]

theorem overwriteSet {xs : List α} {p : Nat} (inside : p < xs.length) (y : α) (ys : List α) :
    overwrite (xs.set p y) (p + 1) ys = overwrite xs p (y :: ys) := by
  have front : (xs.set p y).take (p + 1) = xs.take p ++ [y] := by
    rw [List.take_add_one, List.take_set_of_le (Nat.le_refl p), List.getElem?_set_self inside]
    rfl
  have behind : (xs.set p y).drop (p + 1 + ys.length) = xs.drop (p + (y :: ys).length) := by
    rw [List.drop_set_of_lt (by omega), List.length_cons, Nat.add_assoc, Nat.add_comm 1]
  rw [overwrite, overwrite, front, behind]
  simp only [List.append_assoc, List.cons_append, List.nil_append]

theorem copyWithinBehind {xs ys : List α} {a b dest n : Nat}
    (moved : (copyWithin xs a b dest : Outcome ε (List α)) = .ok ys) (after : dest + (b - a) ≤ n) :
    ys.drop n = xs.drop n := by
  unfold copyWithin at moved
  split at moved
  · rename_i fits
    have size : ((xs.take b).drop a).length = b - a := by simp [Nat.min_eq_left fits.2.1]
    cases moved
    exact overwriteDrop (by omega) (by omega)
  · contradiction

theorem copyWithinDown (ε : Type) {xs : List α} {a b dest : Nat} (order : a ≤ b)
    (fits : b ≤ xs.length) (down : dest ≤ a) :
    ∃ ys, (copyWithin xs a b dest : Outcome ε (List α)) = .ok ys ∧ ys.length = xs.length ∧
      ys.take (dest + (b - a)) = xs.take dest ++ (xs.take b).drop a ∧
      ∀ n, b ≤ n → ys.drop n = xs.drop n := by
  have moved : ((xs.take b).drop a).length = b - a := by simp [Nat.min_eq_left fits]
  refine ⟨overwrite xs dest ((xs.take b).drop a),if_pos ⟨order,fits,by omega⟩,?_,?_,?_⟩
  · exact overwriteLength (by omega)
  · rw [← moved]; exact overwriteTake (by omega)
  · intro n after; exact overwriteDrop (by omega) (by omega)

end Slices

/- A vector of fixed capacity: adding to a full one is refused. -/
structure Vec (α : Type) (cap : Nat) where
  items : List α
  fits : items.length ≤ cap
  deriving DecidableEq, Repr

namespace Vec
variable {α : Type} {cap : Nat}

def new : Vec α cap := ⟨[],Nat.zero_le cap⟩

def push (v : Vec α cap) (x : α) : Option (Vec α cap) :=
  if h : (v.items ++ [x]).length ≤ cap then some ⟨v.items ++ [x],h⟩ else none

def extend (v : Vec α cap) (xs : List α) : Option (Vec α cap) :=
  if h : (v.items ++ xs).length ≤ cap then some ⟨v.items ++ xs,h⟩ else none

theorem ext {v w : Vec α cap} (same : v.items = w.items) : v = w := by
  cases v; cases w; cases same; rfl

theorem extendSome {v w : Vec α cap} {xs : List α} :
    v.extend xs = some w ↔ w.items = v.items ++ xs := by
  unfold extend
  split
  · rename_i room
    constructor
    · intro h; cases Option.some.inj h; rfl
    · intro same; exact congrArg some (ext same.symm)
  · rename_i full
    constructor
    · intro h; contradiction
    · intro same; exact absurd (same ▸ w.fits) full

theorem extendFull {v : Vec α cap} {xs : List α} :
    v.extend xs = none ↔ cap < v.items.length + xs.length := by
  unfold extend
  split
  · rename_i room; simpa using room
  · rename_i full; simpa using full

theorem extendNil (v : Vec α cap) : v.extend [] = some v := extendSome.mpr (List.append_nil _).symm

theorem extendAppend (v : Vec α cap) (xs ys : List α) :
    ((v.extend xs).bind fun w => w.extend ys) = v.extend (xs ++ ys) := by
  cases first : v.extend xs with
  | none =>
    have full := extendFull.mp first
    exact (extendFull.mpr (by rw [List.length_append]; omega)).symm
  | some w =>
    have items := extendSome.mp first
    rw [Option.bind_some]
    cases second : w.extend ys with
    | none =>
      have full := extendFull.mp second
      rw [items, List.length_append] at full
      exact (extendFull.mpr (by rw [List.length_append]; omega)).symm
    | some u => exact (extendSome.mpr (by rw [extendSome.mp second, items, List.append_assoc])).symm

end Vec
end Rust

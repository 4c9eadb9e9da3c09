import Nanofish.Rust.Outcome

/-! Filling a buffer by reads. A script lists what the coming reads find; the bytes
held after each read are prefixes of the stream, cut at the capacity. The general
question is after which read a test on the held bytes first succeeds. -/
namespace Rust.Reads
variable {α : Type}

/- One coming read: a fragment, the end of the stream, or a failure that delivers
nothing. A script that ends without `close` leaves the reader waiting. -/
inductive ReadEvent (α : Type) where
  | data (fragment : List α)
  | close
  | fault
  deriving DecidableEq, Repr

def grow (cap : Nat) (held fragment : List α) : List α := held ++ fragment.take (cap - held.length)

theorem prefixOfEq {xs ys : List α} (same : xs = ys) : xs <+: ys := same ▸ List.prefix_refl xs

def firstHit (cap : Nat) (p : List α → Bool) : List α → List (List α) → Option (List α)
  | _, [] => none
  | held, r :: rs =>
    if held.length < cap then
      if p (grow cap held r) then some (grow cap held r) else firstHit cap p (grow cap held r) rs
    else none

def firstReach (cap n : Nat) (reads : List (List α)) : Option Nat :=
  (firstHit cap (fun held => decide (n ≤ held.length)) [] reads).map List.length

theorem growLength (cap : Nat) (held r : List α) (bound : held.length ≤ cap) :
    (grow cap held r).length ≤ cap := by
  simp only [grow, List.length_append, List.length_take]
  omega

theorem growTake (cap : Nat) (held r : List α) (bound : held.length ≤ cap) :
    grow cap held r = (held ++ r).take cap := by
  rw [grow, List.take_append, List.take_of_length_le bound]

theorem growWhole {cap : Nat} {held r : List α} (room : (grow cap held r).length < cap) :
    grow cap held r = held ++ r := by
  simp only [grow, List.length_append, List.length_take] at room ⊢
  rw [List.take_of_length_le (by omega)]

theorem growFull {cap : Nat} {held r : List α} (bound : held.length ≤ cap)
    (full : ¬ (grow cap held r).length < cap) (rest : List α) :
    (held ++ (r ++ rest)).take cap = grow cap held r := by
  rw [growTake cap held r bound] at full ⊢
  rw [List.length_take] at full
  rw [← List.append_assoc, List.take_append_of_le_length (by omega)]

theorem growFlatten {cap : Nat} {held : List α} (bound : held.length ≤ cap) (r rest : List α) :
    (grow cap held r ++ rest).take cap = (held ++ (r ++ rest)).take cap := by
  by_cases room : (grow cap held r).length < cap
  · rw [growWhole room, List.append_assoc]
  · rw [growFull bound room, List.take_append_of_le_length (by omega),
      List.take_of_length_le (growLength cap held r bound)]

/- What a script brings: the fragments up to its end. A read that finds nothing is an
end of the stream, a failing one brings nothing. -/
def arrived : List (ReadEvent α) → List α
  | .fault :: rest => arrived rest
  | .data (x :: xs) :: rest => (x :: xs) ++ arrived rest
  | _ => []

theorem arrivedFragment {fragment : List α} (some : fragment ≠ []) (rest : List (ReadEvent α)) :
    arrived (.data fragment :: rest) = fragment ++ arrived rest := by
  cases fragment with
  | nil => contradiction
  | cons x xs => rfl

theorem arrivedReads {reads : List (List α)} (nonempty : ∀ r ∈ reads, r ≠ [])
    (tail : List (ReadEvent α)) :
    arrived (reads.map ReadEvent.data ++ tail) = reads.flatten ++ arrived tail := by
  induction reads with
  | nil => rfl
  | cons r rs ih =>
    rw [List.map_cons, List.cons_append, arrivedFragment (nonempty r List.mem_cons_self),
      ih fun s mem => nonempty s (List.mem_cons_of_mem r mem), List.flatten_cons, List.append_assoc]

theorem growArrived {cap : Nat} {held fragment : List α} (bound : held.length ≤ cap) (more : List α) :
    grow cap held fragment <+: held ++ (fragment ++ more) := by
  rw [growTake cap held fragment bound, ← List.append_assoc]
  exact (List.take_prefix _ _).trans (List.prefix_append _ _)

def filled (buffer held : List α) : List α := held ++ buffer.drop held.length

theorem filledLength {buffer held : List α} (bound : held.length ≤ buffer.length) :
    (filled buffer held).length = buffer.length := by
  rw [filled, List.length_append, List.length_drop]
  omega

theorem filledTake (buffer held : List α) : (filled buffer held).take held.length = held :=
  List.take_left

theorem filledOverwrite (buffer held ys : List α) :
    overwrite (filled buffer held) held.length ys = filled buffer (held ++ ys) := by
  rw [overwrite, filledTake, filled, List.drop_append, List.drop_eq_nil_of_le (by omega),
    List.nil_append, List.drop_drop, filled, List.length_append]
  congr 2
  omega

theorem hitFull {cap : Nat} {p : List α → Bool} {held : List α} (full : ¬ held.length < cap)
    (reads : List (List α)) : firstHit cap p held reads = none := by
  cases reads with
  | nil => rfl
  | cons r rs => exact if_neg full

theorem hitSound {cap : Nat} {p : List α → Bool} {held d : List α} {reads : List (List α)}
    (bound : held.length ≤ cap) (h : firstHit cap p held reads = some d) :
    p d = true ∧ d <+: held ++ reads.flatten ∧ d.length ≤ cap ∧ held.length ≤ d.length := by
  induction reads generalizing held with
  | nil => contradiction
  | cons r rs ih =>
    have within := growLength cap held r bound
    have start : grow cap held r <+: held ++ r := by
      rw [growTake cap held r bound]; exact List.take_prefix _ _
    have longer : held.length ≤ (grow cap held r).length := by simp [grow]
    simp only [firstHit] at h
    split at h
    · split at h
      · rename_i found
        cases Option.some.inj h
        refine ⟨found,?_,within,longer⟩
        rw [List.flatten_cons, ← List.append_assoc]
        exact start.trans (List.prefix_append _ _)
      · obtain ⟨found,whole,small,grown⟩ := ih within h
        refine ⟨found,?_,small,Nat.le_trans longer grown⟩
        by_cases room : (grow cap held r).length < cap
        · rw [growWhole room, List.append_assoc] at whole
          exact whole
        · rw [hitFull room] at h; contradiction
    · contradiction

theorem hitNever {cap : Nat} {p : List α → Bool} {reads : List (List α)}
    (never : ∀ d, d <+: reads.flatten → d.length ≤ cap → p d = false) :
    firstHit cap p [] reads = none := by
  cases hit : firstHit cap p [] reads with
  | none => rfl
  | some d =>
    obtain ⟨found,start,bound,_⟩ := hitSound (Nat.zero_le _) hit
    rw [List.nil_append] at start
    rw [never d start bound] at found
    contradiction

theorem hitNone {cap : Nat} {p : List α → Bool} {held : List α} {reads : List (List α)}
    (room : held.length < cap) (some : reads ≠ []) (h : firstHit cap p held reads = none) :
    p ((held ++ reads.flatten).take cap) = false := by
  induction reads generalizing held with
  | nil => contradiction
  | cons r rs ih =>
    have within := growLength cap held r (Nat.le_of_lt room)
    simp only [firstHit, room, if_true] at h
    split at h
    · contradiction
    · rename_i fresh
      rw [List.flatten_cons]
      by_cases more : (grow cap held r).length < cap
      · rw [← List.append_assoc, ← growWhole more]
        cases rs with
        | nil => rw [List.flatten_nil, List.append_nil, List.take_of_length_le within]; simpa using fresh
        | cons s rs => exact ih more (by simp) h
      · rw [growFull (Nat.le_of_lt room) more]
        simpa using fresh

theorem hitCongr {cap : Nat} {p q : List α → Bool} {held : List α} {reads : List (List α)}
    (bound : held.length ≤ cap) (same : ∀ d, d <+: held ++ reads.flatten → d.length ≤ cap → p d = q d) :
    firstHit cap p held reads = firstHit cap q held reads := by
  induction reads generalizing held with
  | nil => rfl
  | cons r rs ih =>
    have within := growLength cap held r bound
    have start : grow cap held r <+: held ++ (r :: rs).flatten := by
      rw [growTake cap held r bound, List.flatten_cons, ← List.append_assoc]
      exact (List.take_prefix _ _).trans (List.prefix_append _ _)
    simp only [firstHit]
    rw [same _ start within]
    split
    · split
      · rfl
      · by_cases room : (grow cap held r).length < cap
        · refine ih within fun d whole => same d ?_
          rw [growWhole room, List.append_assoc] at whole
          exact whole
        · rw [hitFull room, hitFull room]
    · rfl

/- A read that stops exactly at `n`, or a buffer that ends there. -/
def Stops (cap n : Nat) (reads : List (List α)) : Prop :=
  cap = n ∨ ∃ k, (reads.take k).flatten.length = n

theorem hitStops {cap n : Nat} {held d : List α} {reads : List (List α)} (before : held.length < n)
    (room : n ≤ cap) (hit : firstHit cap (fun held => decide (n ≤ held.length)) held reads = some d) :
    d.length = n ↔ cap = n ∨ ∃ k, held.length + (reads.take k).flatten.length = n := by
  induction reads generalizing held with
  | nil => contradiction
  | cons r rs ih =>
    have within := growLength cap held r (by omega)
    have shift : (∃ k, held.length + ((r :: rs).take k).flatten.length = n) ↔
        ∃ k, (held ++ r).length + (rs.take k).flatten.length = n := by
      constructor
      · rintro ⟨k,same⟩
        cases k with
        | zero => simp at same; omega
        | succ k => exact ⟨k,by simpa [Nat.add_assoc] using same⟩
      · rintro ⟨k,same⟩
        exact ⟨k + 1,by simpa [Nat.add_assoc] using same⟩
    have size : (grow cap held r).length = min (held ++ r).length cap := by
      rw [growTake cap held r (by omega), List.length_take, Nat.min_comm]
    simp only [firstHit, show held.length < cap by omega, if_true] at hit
    rw [shift]
    split at hit
    · rename_i reached
      have reached := of_decide_eq_true reached
      cases Option.some.inj hit
      constructor
      · intro same
        by_cases whole : (held ++ r).length ≤ cap
        · exact .inr ⟨0,by simp only [List.take_zero, List.flatten_nil, List.length_nil]; omega⟩
        · exact .inl (by omega)
      · rintro (same | ⟨k,same⟩) <;> omega
    · rename_i short
      have short : ¬ n ≤ (grow cap held r).length := by simpa using short
      have whole := growWhole (show (grow cap held r).length < cap by omega)
      rw [whole] at hit short
      exact ih (by omega) hit

theorem reachStops {cap n m : Nat} {reads : List (List α)} (positive : 0 < n) (room : n ≤ cap)
    (reach : firstReach cap n reads = some m) : firstReach cap n reads = some n ↔ Stops cap n reads := by
  obtain ⟨d,hit,rfl⟩ := Option.map_eq_some_iff.mp reach
  rw [reach, Option.some.injEq, hitStops positive room hit]
  simp only [List.length_nil, Nat.zero_add, Stops]

end Rust.Reads

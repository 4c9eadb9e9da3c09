import Mathlib.Data.List.Basic
import Mathlib.Data.List.Count

/-! Systems of several parties that move one at a time, in any order. A move that is not
possible in a state has no next state there. Nothing here depends on the program that is
modelled. -/
namespace Rust.Systems
variable {σ ω : Type} (step : σ → ω → Option σ)

def after : σ → List ω → Option σ
  | s, [] => some s
  | s, w :: moves => match step s w with
    | none => none
    | some next => after next moves

def Stuck (Fine : ω → Prop) (s : σ) : Prop := ∀ w, Fine w → step s w = none

section Runs
variable {step} {s last : σ} {moves : List ω}

theorem afterCons {w : ω} (run : after step s (w :: moves) = some last) :
    ∃ next, step s w = some next ∧ after step next moves = some last := by
  rw [after] at run
  split at run
  · contradiction
  · rename_i next moved
    exact ⟨next,moved,run⟩

theorem afterStep {w : ω} {next : σ} (moved : step s w = some next) (moves : List ω) :
    after step s (w :: moves) = after step next moves := by
  rw [after, moved]

theorem afterKeeps (Fine : ω → Prop) {Inv : σ → Prop}
    (keeps : ∀ s w next, Fine w → Inv s → step s w = some next → Inv next)
    (fine : ∀ w ∈ moves, Fine w) (start : Inv s) (run : after step s moves = some last) :
    Inv last := by
  induction moves generalizing s with
  | nil => exact Option.some.inj run ▸ start
  | cons w moves ih =>
    obtain ⟨next,moved,more⟩ := afterCons run
    exact ih (fun v mem => fine v (List.mem_cons_of_mem w mem))
      (keeps s w next (fine w List.mem_cons_self) start moved) more

theorem afterCounts {count : σ → Nat} {p : ω → Bool}
    (counts : ∀ s w next, step s w = some next → count next = count s + if p w then 1 else 0)
    (run : after step s moves = some last) : count last = count s + moves.countP p := by
  induction moves generalizing s with
  | nil => rw [← Option.some.inj run]; rfl
  | cons w moves ih =>
    obtain ⟨next,moved,more⟩ := afterCons run
    rw [ih more, counts s w next moved, List.countP_cons]
    omega

variable {measure : σ → Nat} (falls : ∀ s w next, step s w = some next → measure next < measure s)
include falls

theorem afterBounded (run : after step s moves = some last) :
    moves.length + measure last ≤ measure s := by
  induction moves generalizing s with
  | nil => rw [Option.some.inj run]; exact Nat.le_of_eq (Nat.zero_add _)
  | cons w moves ih =>
    obtain ⟨next,moved,more⟩ := afterCons run
    have less := falls s w next moved
    have rest := ih more
    rw [List.length_cons]
    omega

theorem stuckReached (Fine : ω → Prop) (s : σ) :
    ∃ moves last, (∀ w ∈ moves, Fine w) ∧ after step s moves = some last ∧ Stuck step Fine last := by
  induction size : measure s using Nat.strongRecOn generalizing s with
  | _ n ih =>
    by_cases stuck : Stuck step Fine s
    · exact ⟨[],s,by simp,rfl,stuck⟩
    · simp only [Stuck, not_forall] at stuck
      obtain ⟨w,fine,moves⟩ := stuck
      obtain ⟨next,moved⟩ := Option.ne_none_iff_exists'.mp moves
      obtain ⟨moves,last,rest,run,ends⟩ := ih (measure next) (size ▸ falls s w next moved) next rfl
      exact ⟨w :: moves,last,List.forall_mem_cons.mpr ⟨fine,rest⟩,(afterStep moved moves).trans run,ends⟩

end Runs
end Rust.Systems

import Mathlib.Tactic.Common

/-! Iterators: a state, what one call of `next` gives and leaves, and a size that falls
with every item, so that exhausting an iterator ends. Adapters and searches are read as
operations on the list of the items that are still to come. -/
namespace Rust

structure Iter (σ α : Type) where
  next : σ → Option α × σ
  size : σ → Nat
  shrinks : ∀ {s : σ} {a : α}, (next s).1 = some a → size (next s).2 < size s

namespace Iter
variable {σ α β : Type} (it : Iter σ α)

def items (s : σ) : List α := match _ : (it.next s).1 with
  | none => []
  | some a => a :: items (it.next s).2
termination_by it.size s
decreasing_by exact it.shrinks ‹_›

def find (p : α → Bool) (s : σ) : Option α × σ := match _ : (it.next s).1 with
  | none => (none,(it.next s).2)
  | some a => if p a then (some a,(it.next s).2) else find p (it.next s).2
termination_by it.size s
decreasing_by exact it.shrinks ‹_›

def lastFrom (held : Option α) (s : σ) : Option α := match _ : (it.next s).1 with
  | none => held
  | some a => lastFrom (some a) (it.next s).2
termination_by it.size s
decreasing_by exact it.shrinks ‹_›

def last (s : σ) : Option α := it.lastFrom none s

def call : Nat → σ → Option α
  | 0, s => (it.next s).1
  | n+1, s => call n (it.next s).2

theorem itemsNone {s : σ} (gives : (it.next s).1 = none) : it.items s = [] := by
  rw [items]
  split
  · rfl
  · rename_i more
    rw [gives] at more
    contradiction

theorem itemsSome {s : σ} {a : α} (gives : (it.next s).1 = some a) :
    it.items s = a :: it.items (it.next s).2 := by
  rw [items]
  split
  · rename_i done
    rw [gives] at done
    contradiction
  · rename_i b more
    rw [gives] at more
    rw [Option.some.inj more]

theorem findItems (p : α → Bool) (s : σ) : (it.find p s).1 = (it.items s).find? p := by
  fun_induction find it p s with
  | case1 s gives => rw [it.itemsNone gives, List.find?_nil]
  | case2 s a gives holds => rw [it.itemsSome gives, List.find?_cons_of_pos holds]
  | case3 s a gives fails ih => rw [ih, it.itemsSome gives, List.find?_cons_of_neg fails]

theorem findLeaves {p : α → Bool} {s : σ} {a : α} (found : (it.find p s).1 = some a) :
    p a = true ∧ it.size (it.find p s).2 < it.size s ∧
      (it.items s).filter p = a :: (it.items (it.find p s).2).filter p := by
  fun_induction find it p s with
  | case1 s gives => contradiction
  | case2 s b gives holds =>
    cases Option.some.inj found
    exact ⟨holds,it.shrinks gives,by rw [it.itemsSome gives, List.filter_cons_of_pos holds]⟩
  | case3 s b gives fails ih =>
    obtain ⟨holds,small,rest⟩ := ih found
    exact ⟨holds,Nat.lt_trans small (it.shrinks gives),
      by rw [it.itemsSome gives, List.filter_cons_of_neg fails, rest]⟩

theorem findNone {p : α → Bool} {s : σ} (missed : (it.find p s).1 = none) :
    (it.items s).filter p = [] := by
  rw [findItems, List.find?_eq_none] at missed
  exact List.filter_eq_nil_iff.mpr missed

def filter (p : α → Bool) : Iter σ α where
  next := it.find p
  size := it.size
  shrinks found := (it.findLeaves found).2.1

theorem filterItems (p : α → Bool) (s : σ) : (it.filter p).items s = (it.items s).filter p := by
  induction measured : it.size s using Nat.strongRecOn generalizing s with
  | ind n ih =>
    subst measured
    cases found : (it.find p s).1 with
    | none => rw [itemsNone _ found, it.findNone found]
    | some a =>
      obtain ⟨_,small,rest⟩ := it.findLeaves found
      rw [itemsSome (it.filter p) found, rest]
      exact congrArg (a :: ·) (ih _ small _ rfl)

def map (f : α → β) : Iter σ β where
  next s := ((it.next s).1.map f,(it.next s).2)
  size := it.size
  shrinks gives := by
    obtain ⟨a,first,_⟩ := Option.map_eq_some_iff.mp gives
    exact it.shrinks first

theorem mapItems (f : α → β) (s : σ) : (it.map f).items s = (it.items s).map f := by
  fun_induction items it s with
  | case1 s gives => rw [itemsNone _ (by simp [map,gives]), List.map_nil]
  | case2 s a gives ih =>
    have first : ((it.map f).next s).1 = some (f a) := by simp [map,gives]
    rw [itemsSome _ first, List.map_cons]
    exact congrArg (f a :: ·) ih

theorem lastFromItems (held : Option α) (s : σ) :
    it.lastFrom held s = (it.items s).getLast?.or held := by
  fun_induction lastFrom it held s with
  | case1 held s gives => rw [it.itemsNone gives]; rfl
  | case2 held s a gives ih =>
    rw [ih, it.itemsSome gives]
    cases rest : it.items (it.next s).2 with
    | nil => rfl
    | cons b bs =>
      rw [List.getLast?_cons_cons, List.getLast?_cons]
      rfl

theorem lastItems (s : σ) : it.last s = (it.items s).getLast? := by
  rw [last, lastFromItems, Option.or_none]

def Fused : Prop := ∀ s, (it.next s).1 = none → (it.next (it.next s).2).1 = none

variable {it}

theorem callExhausted (fused : it.Fused) {s : σ} (gives : (it.next s).1 = none) (n : Nat) :
    it.call n s = none := by
  induction n generalizing s with
  | zero => exact gives
  | succ n ih => exact ih (fused s gives)

theorem callItems (fused : it.Fused) (n : Nat) (s : σ) : it.call n s = (it.items s)[n]? := by
  induction n generalizing s with
  | zero =>
    cases gives : (it.next s).1 with
    | none => rw [call, gives, it.itemsNone gives, List.getElem?_nil]
    | some a => rw [call, gives, it.itemsSome gives, List.getElem?_cons_zero]
  | succ n ih =>
    cases gives : (it.next s).1 with
    | none => rw [callExhausted fused gives, it.itemsNone gives, List.getElem?_nil]
    | some a => rw [call, ih, it.itemsSome gives, List.getElem?_cons_succ]

theorem mapFused (fused : it.Fused) (f : α → β) : (it.map f).Fused := by
  intro s gives
  have first : (it.next s).1 = none := Option.map_eq_none_iff.mp gives
  exact Option.map_eq_none_iff.mpr (fused s first)

theorem findStops {p : α → Bool} {s : σ} (missed : (it.find p s).1 = none) :
    ∃ u, (it.next u).1 = none ∧ (it.find p s).2 = (it.next u).2 := by
  fun_induction find it p s with
  | case1 s gives => exact ⟨s,gives,rfl⟩
  | case2 s a gives holds => contradiction
  | case3 s a gives fails ih => exact ih missed

theorem filterFused (fused : it.Fused) (p : α → Bool) : (it.filter p).Fused := by
  intro s missed
  obtain ⟨u,gives,left⟩ := findStops missed
  have done : (it.next (it.find p s).2).1 = none := left ▸ fused u gives
  show (it.find p (it.find p s).2).1 = none
  rw [findItems, it.itemsNone done, List.find?_nil]

theorem itemsSimulated {τ : Type} (it : Iter σ α) (jt : Iter τ α) (f : σ → τ)
    (step : ∀ s, jt.next (f s) = ((it.next s).1,f (it.next s).2)) (s : σ) :
    jt.items (f s) = it.items s := by
  fun_induction items it s with
  | case1 s gives => exact itemsNone jt (by rw [step, gives])
  | case2 s a gives ih =>
    have first : (jt.next (f s)).1 = some a := by rw [step, gives]
    rw [itemsSome jt first, step, ih]

end Iter
end Rust

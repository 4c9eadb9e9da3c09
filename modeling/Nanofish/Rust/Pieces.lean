import Mathlib.Data.List.TakeWhile
import Nanofish.Rust.Text

/-! Lines that are cut once more: where the first piece stands that a search finds, and
what trimming leaves of a text with a separator in it. -/
namespace Rust.Pieces
open Utf8 Text
variable {α β γ : Type}

theorem pieceAt {cut : α → List β} {ls : List α} {lead tail : List β} {p : β}
    (same : ls.flatMap cut = lead ++ p :: tail) :
    ∃ front l back near far, ls = front ++ l :: back ∧ cut l = near ++ p :: far ∧
      lead = front.flatMap cut ++ near := by
  induction ls generalizing lead with
  | nil => simp at same
  | cons l ls ih =>
    have later {a : List β} (rest : ls.flatMap cut = a ++ p :: tail) (whole : lead = cut l ++ a) :
        ∃ front k back near far, l :: ls = front ++ k :: back ∧ cut k = near ++ p :: far ∧
          lead = front.flatMap cut ++ near := by
      obtain ⟨front,k,back,near,far,rfl,split,rfl⟩ := ih rest
      exact ⟨l :: front,k,back,near,far,rfl,split,by simp [whole]⟩
    rw [List.flatMap_cons] at same
    rcases List.append_eq_append_iff.mp same with ⟨a,whole,rest⟩ | ⟨c,whole,rest⟩
    · exact later rest whole
    · cases c with
      | nil => exact later (a := []) (by simpa using rest.symm) (by simpa using whole.symm)
      | cons q far =>
        obtain ⟨rfl,_⟩ := List.cons.inj rest
        exact ⟨[],l,ls,lead,far,rfl,whole,rfl⟩

theorem firstKept {keep : β → Bool} {f : β → Option γ} {xs : List β} {v : γ} :
    (xs.takeWhile keep).findSome? f = some v ↔ ∃ lead p tail, xs = lead ++ p :: tail ∧
      (∀ x ∈ lead, keep x = true ∧ f x = none) ∧ keep p = true ∧ f p = some v := by
  constructor
  · intro found
    obtain ⟨lead,p,tail,shape,value,silent⟩ := List.findSome?_eq_some_iff.mp found
    have kept : ∀ x ∈ lead ++ p :: tail, keep x = true :=
      fun x mem => List.mem_takeWhile_imp (shape ▸ mem)
    refine ⟨lead,p,tail ++ xs.dropWhile keep,?_,fun x mem => ⟨kept x (by simp [mem]),silent x mem⟩,
      kept p (by simp),value⟩
    conv => lhs; rw [← List.takeWhile_append_dropWhile (p := keep) (l := xs), shape]
    simp
  · rintro ⟨lead,p,tail,rfl,silent,kept,value⟩
    rw [List.takeWhile_append_of_pos fun x mem => (silent x mem).1, List.takeWhile_cons_of_pos kept,
      List.findSome?_append, List.findSome?_eq_none_iff.mpr fun x mem => (silent x mem).2,
      Option.none_or, List.findSome?_cons, value]

theorem firstPiece {cut : α → List β} {keep : β → Bool} {f : β → Option γ} {ls : List α} {v : γ} :
    ((ls.flatMap cut).takeWhile keep).findSome? f = some v ↔ ∃ front l back lead p tail,
      ls = front ++ l :: back ∧ cut l = lead ++ p :: tail ∧
      (∀ x ∈ front.flatMap cut ++ lead, keep x = true ∧ f x = none) ∧ keep p = true ∧ f p = some v := by
  rw [firstKept]
  constructor
  · rintro ⟨lead,p,tail,same,silent,found⟩
    obtain ⟨front,l,back,near,far,whole,split,rfl⟩ := pieceAt same
    exact ⟨front,l,back,near,p,far,whole,split,silent,found⟩
  · rintro ⟨front,l,back,lead,p,tail,rfl,split,silent,found⟩
    exact ⟨front.flatMap cut ++ lead,p,tail ++ back.flatMap cut,by simp [split],silent,found⟩

theorem joinedAround (c : α) (lead : List (List α)) (p : List α) (tail : List (List α)) :
    [c].intercalate (lead ++ p :: tail) = lead.flatMap (· ++ [c]) ++ p ++ tail.flatMap (c :: ·) := by
  have behind : ∀ q, [c].intercalate (q :: tail) = q ++ tail.flatMap (c :: ·) := by
    induction tail with
    | nil => simp [List.intercalate]
    | cons x tail ih => intro q; rw [List.intercalate_cons_cons, ih]; simp
  induction lead with
  | nil => simpa using behind p
  | cons x lead ih =>
    rw [List.cons_append, List.intercalate_cons_of_ne_nil (by simp), ih]
    simp

def Blank (s : Str) : Prop := ∀ c ∈ s, isWhitespace c = true
instance (s : Str) : Decidable (Blank s) := inferInstanceAs (Decidable (∀ c ∈ s, _))

theorem trimBlankFront {pad : Str} (blank : Blank pad) (s : Str) : trim (pad ++ s) = trim s := by
  rw [trim, trimStart, List.dropWhile_append_of_pos blank, trim, trimStart]

theorem trimBlankBack {pad : Str} (blank : Blank pad) (s : Str) : trim (s ++ pad) = trim s := by
  rw [trim, trimStart, List.dropWhile_append]
  split
  · rename_i empty
    rw [trim, trimStart, List.isEmpty_iff.mp empty, List.dropWhile_eq_nil_iff.mpr blank]
  · rw [trimEndPadded blank, trim, trimStart]

theorem trimStartFilled {x : Str} (filled : ¬ Blank x) (s : Str) : ∃ u, trimStart (x ++ s) = u ++ s := by
  refine ⟨trimStart x,?_⟩
  rw [trimStart, List.dropWhile_append, if_neg, trimStart]
  rw [List.isEmpty_iff, List.dropWhile_eq_nil_iff]
  exact filled

theorem trimHolds {s : Str} {d : Char} (solid : isWhitespace d = false) (mem : d ∈ s) : d ∈ trim s := by
  obtain ⟨a,b,rfl⟩ := List.append_of_mem mem
  rw [trim]
  by_cases blank : Blank a
  · rw [trimStart, List.dropWhile_append_of_pos blank, ← trimStart, trimStartSolid solid,
      ← List.nil_append (d :: b), trimEndKeeps solid]
    simp
  · obtain ⟨u,start⟩ := trimStartFilled blank (d :: b)
    rw [start, trimEndKeeps solid]
    simp

theorem trimFilled {s : Str} (filled : trim s ≠ []) : ¬ Blank s := by
  intro blank
  rw [← List.append_nil s, trimBlankFront blank] at filled
  exact filled rfl

theorem trimSides {x y : Str} {c : Char} (gone : c ∉ trim (x ++ c :: y)) : Blank x ∨ Blank y := by
  by_contra filled
  obtain ⟨front,back⟩ := not_or.mp filled
  obtain ⟨u,start⟩ := trimStartFilled front (c :: y)
  simp only [Blank, not_forall] at back
  obtain ⟨d,mem,solid⟩ := back
  obtain ⟨a,b,rfl⟩ := List.append_of_mem mem
  refine gone ?_
  rw [trim, start, ← List.cons_append, ← List.append_assoc, trimEndKeeps (by simpa using solid)]
  simp

end Rust.Pieces

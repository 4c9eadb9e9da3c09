import Mathlib.Tactic.Common

/-! Searching a sequence for the first window equal to a pattern, and splitting it
at a delimiter of two elements. Used for bytes and for characters alike. -/
namespace Rust.Pattern
variable {α : Type} [DecidableEq α]

-- `windows(pat.len()).position(|w| w == pat)`
def position (pat : List α) : List α → Option Nat
  | [] => none
  | x :: xs => if pat.isPrefixOf (x :: xs) then some 0 else (position pat xs).map (· + 1)

def contains (pat xs : List α) : Bool := (position pat xs).isSome

theorem positionCons (pat : List α) (x : α) (xs : List α) :
    position pat (x :: xs) = if pat <+: x :: xs then some 0 else (position pat xs).map (· + 1) := by
  simp only [position, List.isPrefixOf_iff_prefix]

theorem positionNone {pat xs : List α} (ne : pat ≠ []) :
    position pat xs = none ↔ ∀ j, ¬ pat <+: xs.drop j := by
  induction xs with
  | nil => simp [position,ne]
  | cons x xs ih =>
    rw [positionCons]
    constructor
    · intro h j
      split at h
      · contradiction
      · rename_i fresh
        cases j with
        | zero => exact fresh
        | succ j => exact ih.mp (by simpa using h) j
    · intro h
      rw [if_neg (by simpa using h 0)]
      simpa using ih.mpr (fun j => h (j + 1))

theorem positionSome {pat xs : List α} (ne : pat ≠ []) {i : Nat} :
    position pat xs = some i ↔ pat <+: xs.drop i ∧ ∀ j < i, ¬ pat <+: xs.drop j := by
  induction xs generalizing i with
  | nil => simp [position,ne]
  | cons x xs ih =>
    rw [positionCons]
    by_cases first : pat <+: x :: xs
    · rw [if_pos first]
      constructor
      · intro h; cases Option.some.inj h; exact ⟨first,by simp⟩
      · intro h
        cases i with
        | zero => rfl
        | succ i => exact absurd first (h.2 0 (Nat.succ_pos i))
    · rw [if_neg first]
      cases i with
      | zero => simp [first]
      | succ i =>
        simp only [Option.map_eq_some_iff, Nat.add_right_cancel_iff, exists_eq_right, ih,
          List.drop_succ_cons]
        refine and_congr_right fun _ => ⟨fun h j bound => ?_,fun h j bound => h (j + 1) (by omega)⟩
        cases j with
        | zero => exact first
        | succ j => exact h j (by omega)

theorem positionBound {pat xs : List α} (ne : pat ≠ []) {i : Nat} (h : position pat xs = some i) :
    i + pat.length ≤ xs.length := by
  have window := ((positionSome ne).mp h).1.length_le
  have positive := List.length_pos_iff.mpr ne
  rw [List.length_drop] at window
  omega

theorem positionInfix {pat xs ys : List α} (ne : pat ≠ []) (fresh : position pat xs = none)
    (inside : ys <:+: xs) :
    position pat ys = none := by
  obtain ⟨front,behind,rfl⟩ := inside
  refine (positionNone ne).mpr fun j found => (positionNone ne).mp fresh (front.length + j) ?_
  rw [List.append_assoc, ← List.drop_drop, List.drop_left]
  by_cases bound : j ≤ ys.length
  · rw [List.drop_append_of_le_length bound]
    exact found.trans (List.prefix_append _ _)
  · rw [List.drop_eq_nil_of_le (by omega)] at found
    exact absurd (List.prefix_nil.mp found) ne

theorem positionParts {pat xs : List α} (ne : pat ≠ []) {i : Nat} (h : position pat xs = some i) :
    xs.take i ++ pat ++ xs.drop (i + pat.length) = xs := by
  obtain ⟨rest,window⟩ := ((positionSome ne).mp h).1
  rw [← List.drop_drop, ← window, List.drop_left, List.append_assoc, window, List.take_append_drop]

omit [DecidableEq α] in
theorem prefixDropTake {pat xs : List α} (j n : Nat) (ne : pat ≠ []) :
    pat <+: (xs.take n).drop j ↔ pat <+: xs.drop j ∧ j + pat.length ≤ n := by
  have positive := List.length_pos_iff.mpr ne
  rw [List.drop_take, List.prefix_take_iff]
  refine and_congr_right fun window => ?_
  omega

theorem positionTake {pat xs : List α} (ne : pat ≠ []) {i : Nat} (h : position pat xs = some i)
    (n : Nat) :
    position pat (xs.take n) = if i + pat.length ≤ n then some i else none := by
  have source := (positionSome ne).mp h
  split
  · rename_i inside
    refine (positionSome ne).mpr ⟨(prefixDropTake i n ne).mpr ⟨source.1,inside⟩,?_⟩
    intro j before found
    exact source.2 j before ((prefixDropTake j n ne).mp found).1
  · rename_i outside
    refine (positionNone ne).mpr fun j found => ?_
    obtain ⟨window,bound⟩ := (prefixDropTake j n ne).mp found
    have order : i ≤ j := Nat.le_of_not_lt fun before => source.2 j before window
    omega

theorem positionAppend {pat xs : List α} (ne : pat ≠ []) {i : Nat} (h : position pat xs = some i)
    (ys : List α) :
    position pat (xs ++ ys) = some i := by
  have source := (positionSome ne).mp h
  have bound := positionBound ne h
  refine (positionSome ne).mpr ⟨?_,fun j before found => ?_⟩
  · rw [List.drop_append_of_le_length (by omega)]
    exact source.1.trans (List.prefix_append _ _)
  · have cut := (prefixDropTake j xs.length ne).mpr ⟨found,by omega⟩
    rw [List.take_left] at cut
    exact source.2 j before cut

theorem containsAppend {pat xs : List α} (ne : pat ≠ []) (held : contains pat xs = true) (ys : List α) :
    contains pat (xs ++ ys) = true := by
  obtain ⟨i,found⟩ := Option.isSome_iff_exists.mp held
  rw [contains, positionAppend ne found]
  rfl

theorem positionBefore {pat xs ys : List α} (ne : pat ≠ [])
    (h : position pat (xs ++ ys) = some xs.length) :
    position pat xs = none := by
  cases before : position pat xs with
  | none => rfl
  | some i =>
    have grown := (positionAppend ne before ys).symm.trans h
    have bound := positionBound ne before
    have positive := List.length_pos_iff.mpr ne
    have := Option.some.inj grown
    omega

/- The first window of a delimited text: nothing before it starts with the
pattern's first element. -/
theorem positionAfter {p : α} {ps xs ys : List α} (absent : p ∉ xs) :
    position (p :: ps) (xs ++ (p :: ps) ++ ys) = some xs.length := by
  refine (positionSome (List.cons_ne_nil _ _)).mpr ⟨by simp,fun j before found => absent ?_⟩
  obtain ⟨rest,same⟩ := found
  have here : (xs ++ (p :: ps) ++ ys)[j]? = some p := by
    have head := congrArg List.head? same.symm
    simpa only [List.head?_drop, List.cons_append, List.head?_cons] using head
  rw [List.append_assoc, List.getElem?_append_left before] at here
  exact List.mem_of_getElem? here

/- `split` at a delimiter of two elements, empty pieces kept. -/
def prependHead (x : α) : List (List α) → List (List α)
  | [] => [[x]]
  | l :: ls => (x :: l) :: ls

def splitPair (a b : α) : List α → List (List α)
  | [] => [[]]
  | [x] => [[x]]
  | x :: y :: rest =>
    if x = a ∧ y = b then [] :: splitPair a b rest else prependHead x (splitPair a b (y :: rest))

def joinPair (a b : α) (ls : List (List α)) : List α := List.intercalate [a,b] ls

section Pair
variable {a b : α}

theorem splitPairNe (s : List α) : splitPair a b s ≠ [] := by
  match s with
  | [] => simp [splitPair]
  | [x] => simp [splitPair]
  | x :: y :: rest =>
    rw [splitPair]
    split
    · simp
    · cases splitPair a b (y :: rest) <;> simp [prependHead]

theorem splitPairDelimited (s : List α) : splitPair a b (a :: b :: s) = [] :: splitPair a b s := by
  simp [splitPair]

theorem splitPairPlain {x : α} {s : List α} (plain : ¬ (x = a ∧ s.head? = some b)) :
    splitPair a b (x :: s) = prependHead x (splitPair a b s) := by
  cases s with
  | nil => simp [splitPair,prependHead]
  | cons y rest => rw [splitPair, if_neg (by simpa using plain)]

omit [DecidableEq α] in
theorem prependAppend (x : α) {ls : List (List α)} (ne : ls ≠ []) (more : List (List α)) :
    prependHead x (ls ++ more) = prependHead x ls ++ more := by
  cases ls with
  | nil => contradiction
  | cons l ls => rfl

theorem splitPairAppend (distinct : a ≠ b) (s u : List α) :
    splitPair a b (s ++ a :: b :: u) = splitPair a b s ++ splitPair a b u := by
  induction s using splitPair.induct a b with
  | case1 => simp [splitPairDelimited,splitPair]
  | case2 x =>
    rw [List.singleton_append, splitPairPlain (by simp [distinct]), splitPairDelimited]
    simp [splitPair,prependHead]
  | case3 x y rest pair ih =>
    obtain ⟨rfl,rfl⟩ := pair
    simp only [List.cons_append, splitPairDelimited, ih]
  | case4 x y rest plain ih =>
    have grown : splitPair a b (x :: (y :: rest ++ a :: b :: u)) =
        prependHead x (splitPair a b (y :: rest ++ a :: b :: u)) :=
      splitPairPlain (by simpa using plain)
    have alone : splitPair a b (x :: y :: rest) = prependHead x (splitPair a b (y :: rest)) :=
      splitPairPlain (by simpa using plain)
    rw [List.cons_append, grown, ih, alone, prependAppend x (splitPairNe _)]

theorem splitPairFirst (s : List α) :
    (position [a,b] s = none ∧ splitPair a b s = [s]) ∨
    ∃ l u, s = l ++ a :: b :: u ∧ position [a,b] s = some l.length ∧
      splitPair a b s = l :: splitPair a b u := by
  induction s using splitPair.induct a b with
  | case1 => exact .inl ⟨rfl,rfl⟩
  | case2 x => exact .inl ⟨by simp [position],rfl⟩
  | case3 x y rest pair ih =>
    obtain ⟨rfl,rfl⟩ := pair
    exact .inr ⟨[],rest,rfl,by simp [position],splitPairDelimited rest⟩
  | case4 x y rest plain ih =>
    have skip : position [a,b] (x :: y :: rest) = (position [a,b] (y :: rest)).map (· + 1) := by
      rw [positionCons, if_neg]
      simpa [List.cons_prefix_cons,eq_comm] using plain
    rw [skip, splitPairPlain (by simpa using plain)]
    rcases ih with ⟨none,whole⟩ | ⟨l,u,same,found,first⟩
    · exact .inl ⟨by simp [none],by simp [whole,prependHead]⟩
    · exact .inr ⟨x :: l,u,by simp [same],by simp [found],by simp [first,prependHead]⟩

theorem splitPairWhole {s : List α} : splitPair a b s = [s] ↔ position [a,b] s = none := by
  rcases splitPairFirst (a := a) (b := b) s with ⟨none,whole⟩ | ⟨l,u,same,found,first⟩
  · simp [none,whole]
  · simp [first,found,splitPairNe]

theorem positionBehind (distinct : a ≠ b) {s : List α} (none : position [a,b] s = none) (u : List α) :
    position [a,b] (s ++ a :: b :: u) = some s.length := by
  have whole := splitPairAppend distinct s u
  rw [splitPairWhole.mpr none] at whole
  rcases splitPairFirst (a := a) (b := b) (s ++ a :: b :: u) with ⟨_,alone⟩ | ⟨l,v,_,found,first⟩
  · rw [whole] at alone
    exact absurd (List.cons.inj alone).2 (splitPairNe u)
  · rw [whole] at first
    rw [found, (List.cons.inj first).1]

theorem splitPairAtom {l : List α} (absent : a ∉ l ∨ b ∉ l) : splitPair a b l = [l] := by
  refine splitPairWhole.mpr ((positionNone (by simp)).mpr fun j found => ?_)
  obtain ⟨rest,same⟩ := found
  have window : ∀ x ∈ [a,b], x ∈ l := fun x mem =>
    List.mem_of_mem_drop (i := j) (same ▸ List.mem_append_left rest mem)
  rcases absent with absent | absent
  · exact absent (window a (by simp))
  · exact absent (window b (by simp))

theorem splitPairPadded {l : List α} (absent : a ∉ l) (s : List α) :
    splitPair a b (l ++ s) = (splitPair a b s).modifyHead (l ++ ·) := by
  induction l with
  | nil =>
    rw [List.nil_append]
    cases splitPair a b s <;> rfl
  | cons x l ih =>
    obtain ⟨different,absent⟩ := List.ne_and_not_mem_of_not_mem_cons absent
    obtain ⟨p,ps,split⟩ := List.exists_cons_of_ne_nil (splitPairNe (a := a) (b := b) s)
    rw [List.cons_append, splitPairPlain fun pair => different pair.1.symm, ih absent, split]
    rfl

theorem splitPairBare {l : List α} (distinct : a ≠ b) (absent : b ∉ l) (bare : l.getLast? ≠ some a)
    {u p : List α} {ps : List (List α)} (split : splitPair a b u = p :: ps) :
    splitPair a b (l ++ b :: u) = (l ++ b :: p) :: ps := by
  induction l with
  | nil => rw [List.nil_append, splitPairPlain (by simp [distinct.symm]), split]; rfl
  | cons x l ih =>
    have plain : ¬ (x = a ∧ (l ++ b :: u).head? = some b) := by
      rintro ⟨rfl,next⟩
      cases l with
      | nil => exact bare rfl
      | cons y l => exact absent (by simp_all)
    have last : l.getLast? ≠ some a := by
      cases l with
      | nil => simp
      | cons y l => rwa [List.getLast?_cons_cons] at bare
    rw [List.cons_append, splitPairPlain plain, ih (fun mem => absent (List.mem_cons_of_mem x mem)) last]
    rfl

theorem splitPairSolid {s : List α} (fresh : position [a,b,a,b] s = none) (start : ¬ [a,b] <+: s) :
    ∀ l ∈ (splitPair a b s).dropLast, l ≠ [] := by
  induction h : s.length using Nat.strongRecOn generalizing s with
  | ind n ih =>
    rcases splitPairFirst (a := a) (b := b) s with ⟨_,whole⟩ | ⟨l,u,rfl,_,first⟩
    · simp [whole]
    · have fresh := (positionNone (by simp)).mp fresh
      intro k mem
      rw [first, List.dropLast_cons_of_ne_nil (splitPairNe u)] at mem
      rcases List.mem_cons.mp mem with rfl | mem
      · rintro rfl; exact start ⟨u,by simp⟩
      · refine ih u.length (by simp [← h]; omega) ((positionNone (by simp)).mpr fun j window => ?_)
          (fun window => ?_) rfl k mem
        · refine fresh (l.length + 2 + j) ?_
          rwa [← List.drop_drop, ← List.drop_drop, List.drop_left]
        · obtain ⟨v,rfl⟩ := window
          exact fresh l.length ⟨v,by simp⟩

omit [DecidableEq α] in
theorem joinPairCons (l : List α) {ls : List (List α)} (ne : ls ≠ []) :
    joinPair a b (l :: ls) = l ++ a :: b :: joinPair a b ls := by
  cases ls with
  | nil => contradiction
  | cons m ls => simp [joinPair,List.intercalate,List.intersperse]

omit [DecidableEq α] in
theorem joinTerminated {ls : List (List α)} (ne : ls ≠ []) :
    joinPair a b ls ++ [a,b] = ls.flatMap (· ++ [a,b]) := by
  induction ls with
  | nil => contradiction
  | cons l ls ih =>
    cases ls with
    | nil => simp [joinPair,List.intercalate]
    | cons m ls =>
      rw [joinPairCons l (by simp), List.flatMap_cons, ← ih (by simp)]
      simp

theorem joinSplit (s : List α) : joinPair a b (splitPair a b s) = s := by
  induction s using splitPair.induct a b with
  | case1 => rfl
  | case2 x => simp [splitPair,joinPair,List.intercalate]
  | case3 x y rest pair ih =>
    obtain ⟨rfl,rfl⟩ := pair
    rw [splitPairDelimited, joinPairCons [] (splitPairNe rest), ih, List.nil_append]
  | case4 x y rest plain ih =>
    rw [splitPairPlain (by simpa using plain)]
    have ne := splitPairNe (a := a) (b := b) (y :: rest)
    generalize splitPair a b (y :: rest) = ls at ih ne
    match ls with
    | [l] => simpa [prependHead,joinPair,List.intercalate] using ih
    | l :: m :: ls =>
      rw [joinPairCons l (by simp)] at ih
      rw [prependHead, joinPairCons _ (by simp), List.cons_append, ih]

theorem positionAbsent {l : List α} (absent : a ∉ l) : position [a,b] l = none :=
  splitPairWhole.mp (splitPairAtom (.inl absent))

omit [DecidableEq α] in
theorem joinPairSingle (l : List α) : joinPair a b [l] = l := by simp [joinPair]

omit [DecidableEq α] in
theorem joinPairAppend {xs ys : List (List α)} (left : xs ≠ []) (right : ys ≠ []) :
    joinPair a b (xs ++ ys) = joinPair a b xs ++ a :: b :: joinPair a b ys := by
  induction xs with
  | nil => contradiction
  | cons l xs ih =>
    rw [List.cons_append, joinPairCons l (by simp [right])]
    cases xs with
    | nil => rw [List.nil_append, joinPairSingle]
    | cons m xs =>
      rw [ih (by simp), joinPairCons l (by simp), List.append_assoc, List.cons_append,
        List.cons_append]

theorem splitJoinIff (distinct : a ≠ b) {ls : List (List α)} (ne : ls ≠ []) :
    splitPair a b (joinPair a b ls) = ls ↔ ∀ l ∈ ls, position [a,b] l = none := by
  induction ls with
  | nil => contradiction
  | cons l ls ih =>
    cases ls with
    | nil => rw [joinPairSingle, splitPairWhole, List.forall_mem_singleton]
    | cons m ls =>
      rw [joinPairCons l (by simp), splitPairAppend distinct, List.forall_mem_cons, ← ih (by simp)]
      constructor
      · intro same
        obtain ⟨p,ps,split⟩ := List.exists_cons_of_ne_nil (splitPairNe (a := a) (b := b) l)
        rw [split, List.cons_append] at same
        obtain ⟨rfl,behind⟩ := List.cons.inj same
        have alone : ps = [] := by
          have whole := joinSplit (a := a) (b := b) p
          rw [split] at whole
          by_cases none : ps = []
          · exact none
          · rw [joinPairCons p none] at whole
            exact absurd (congrArg List.length whole) (by simp)
        rw [alone] at split behind
        exact ⟨splitPairWhole.mp split,behind⟩
      · rintro ⟨none,behind⟩
        rw [splitPairWhole.mpr none, behind, List.singleton_append]

theorem splitSingle (distinct : a ≠ b) (s : List α) : ∀ l ∈ splitPair a b s, position [a,b] l = none :=
  (splitJoinIff distinct (splitPairNe s)).mp (by rw [joinSplit])

theorem splitJoin (distinct : a ≠ b) {ls : List (List α)} (ne : ls ≠ []) (plain : ∀ l ∈ ls, a ∉ l) :
    splitPair a b (joinPair a b ls) = ls :=
  (splitJoinIff distinct ne).mpr fun l mem => positionAbsent (plain l mem)

theorem positionClosing (distinct : a ≠ b) {s : List α} (solid : ∀ l ∈ splitPair a b s, l ≠ [])
    (rest : List α) :
    position [a,b,a,b] (s ++ [a,b,a,b] ++ rest) = some s.length := by
  refine (positionSome (by simp)).mpr ⟨by simp,fun j before found => ?_⟩
  obtain ⟨v,window⟩ := found
  have size : (s.take j).length = j := by rw [List.length_take]; omega
  have front : (s ++ [a,b,a,b] ++ rest).take j = s.take j := by
    rw [List.append_assoc, List.take_append_of_le_length (Nat.le_of_lt before)]
  have shape : s ++ a :: b :: a :: b :: rest = s.take j ++ a :: b :: a :: b :: v := by
    have whole := List.take_append_drop j (s ++ [a,b,a,b] ++ rest)
    rw [front, ← window] at whole
    simpa using whole.symm
  -- Both cuts of the text put an empty line in front of what follows.
  have pieces := congrArg (splitPair a b) shape
  simp only [splitPairAppend distinct, splitPairDelimited] at pieces
  rcases List.append_eq_append_iff.mp pieces with ⟨more,longer,_⟩ | ⟨more,longer,behind⟩
  · have whole := joinSplit (a := a) (b := b) (s.take j)
    rw [longer] at whole
    have short : s.length ≤ (s.take j).length := by
      rw [← whole]
      by_cases none : more = []
      · simp only [none, List.append_nil, joinSplit, Nat.le_refl]
      · rw [joinPairAppend (splitPairNe _) none, joinSplit, List.length_append]
        omega
    omega
  · cases more with
    | nil =>
      have same := congrArg (joinPair a b) longer
      rw [List.append_nil, joinSplit, joinSplit] at same
      rw [← same] at size
      omega
    | cons l more =>
      obtain ⟨rfl,_⟩ := List.cons.inj behind
      exact solid [] (by rw [longer]; simp) rfl

theorem positionEmptyLine (distinct : a ≠ b) {ls : List (List α)} (ne : ls ≠ [])
    (lines : ∀ l ∈ ls, l ≠ [] ∧ position [a,b] l = none) (rest : List α) :
    position [a,b,a,b] (joinPair a b ls ++ [a,b,a,b] ++ rest) = some (joinPair a b ls).length := by
  refine positionClosing distinct (fun l mem => ?_) rest
  rw [(splitJoinIff distinct ne).mpr fun k inside => (lines k inside).2] at mem
  exact (lines l mem).1

theorem positionApart {c : α} (left : c ≠ a) (right : c ≠ b) (x y : List α) :
    position [a,b] (x ++ c :: y) = none ↔ position [a,b] x = none ∧ position [a,b] y = none := by
  induction x with
  | nil =>
    have plain : ¬ [a,b] <+: c :: y := by
      rintro ⟨_,same⟩
      exact left (List.cons.inj same).1.symm
    rw [List.nil_append, positionCons, if_neg plain, Option.map_eq_none_iff]
    exact (and_iff_right rfl).symm
  | cons d xs ih =>
    have start : [a,b] <+: d :: (xs ++ c :: y) ↔ [a,b] <+: d :: xs := by
      cases xs with
      | nil => simp [right.symm]
      | cons e xs => simp
    rw [List.cons_append, positionCons, positionCons]
    simp only [start]
    split
    · simp
    · rw [Option.map_eq_none_iff, Option.map_eq_none_iff, ih]

end Pair
end Rust.Pattern

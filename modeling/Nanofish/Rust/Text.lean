import Nanofish.Rust.Outcome
import Nanofish.Rust.Utf8

/-! Operations of `str` on its characters. Positions are byte offsets, as in Rust,
and slicing at an offset that is not a character boundary panics. -/
namespace Rust.Text
open Utf8 Pattern

def byteLen (s : Str) : Nat := (asBytes s).length

def find (c : Char) : Str → Option Nat
  | [] => none
  | x :: xs => if x = c then some 0 else (find c xs).map (· + x.utf8Size)

def rfind (c : Char) : Str → Option Nat
  | [] => none
  | x :: xs => match rfind c xs with
    | some n => some (n + x.utf8Size)
    | none => if x = c then some 0 else none

def stripPrefix (pre s : Str) : Option Str := if pre.isPrefixOf s then some (s.drop pre.length) else none

def splitOnce (c : Char) : Str → Option (Str × Str)
  | [] => none
  | x :: xs => if x = c then some ([],xs) else (splitOnce c xs).map fun (a,b) => (x :: a,b)

def splitAt : Str → Nat → Option (Str × Str)
  | s, 0 => some ([],s)
  | [], _+1 => none
  | c :: s, n+1 =>
    if c.utf8Size ≤ n + 1 then (splitAt s (n + 1 - c.utf8Size)).map fun (a,b) => (c :: a,b) else none

section Slices
variable {ε : Type}

def strTo (s : Str) (n : Nat) : Outcome ε Str := match splitAt s n with
  | some (a,_) => .ok a
  | none => .panic

def strFrom (s : Str) (n : Nat) : Outcome ε Str := match splitAt s n with
  | some (_,b) => .ok b
  | none => .panic

def strRange (s : Str) (a b : Nat) : Outcome ε Str :=
  if a ≤ b then do
    let front ← strTo s b
    strFrom front a
  else .panic

theorem byteLenCons (c : Char) (s : Str) : byteLen (c :: s) = c.utf8Size + byteLen s := by
  simp [byteLen, String.length_utf8EncodeChar]

theorem byteLenAppend (s u : Str) : byteLen (s ++ u) = byteLen s + byteLen u := by simp [byteLen]

theorem splitAtAppend (a b : Str) : splitAt (a ++ b) (byteLen a) = some (a,b) := by
  induction a with
  | nil => cases b <;> rfl
  | cons c a ih =>
    have positive := c.utf8Size_pos
    obtain ⟨n,hn⟩ : ∃ n, c.utf8Size + byteLen a = n + 1 := ⟨c.utf8Size + byteLen a - 1,by omega⟩
    have rest : n + 1 - c.utf8Size = byteLen a := by omega
    rw [byteLenCons, hn, List.cons_append, splitAt, if_pos (by omega), rest, ih]
    rfl

theorem strToAppend (a b : Str) : (strTo (a ++ b) (byteLen a) : Outcome ε Str) = .ok a := by
  rw [strTo, splitAtAppend]

theorem strFromAppend (a b : Str) : (strFrom (a ++ b) (byteLen a) : Outcome ε Str) = .ok b := by
  rw [strFrom, splitAtAppend]

theorem strRangeAppend (a b c : Str) :
    (strRange (a ++ b ++ c) (byteLen a) (byteLen a + byteLen b) : Outcome ε Str) = .ok b := by
  rw [strRange, if_pos (Nat.le_add_right _ _), ← byteLenAppend, strToAppend, Outcome.okBind,
    strFromAppend]

theorem strRangeInverted {s : Str} {a b : Nat} (h : b < a) : (strRange s a b : Outcome ε Str) = .panic :=
  if_neg (Nat.not_le.mpr h)

end Slices

/- A quantifier over a text is decided on the text, not over all characters. -/
instance decidableEvery (p : Char → Prop) [DecidablePred p] (s : Str) : Decidable (∀ c ∈ s, p c) :=
  List.decidableBAll p s

theorem alwaysApart {c : Char} {s : Str} (absent : c ∉ s) : ∀ x ∈ s, decide (x ≠ c) = true := by
  intro x mem
  have apart : x ≠ c := fun same => absent (same ▸ mem)
  simpa using apart

theorem findAbsent {c : Char} {s : Str} (absent : c ∉ s) : find c s = none := by
  induction s with
  | nil => rfl
  | cons x s ih =>
    obtain ⟨different,absent⟩ := List.ne_and_not_mem_of_not_mem_cons absent
    rw [find, if_neg different.symm, ih absent]
    rfl

theorem findFirst {c : Char} {a : Str} (absent : c ∉ a) (b : Str) :
    find c (a ++ c :: b) = some (byteLen a) := by
  induction a with
  | nil => simp [find,byteLen]
  | cons x a ih =>
    obtain ⟨different,absent⟩ := List.ne_and_not_mem_of_not_mem_cons absent
    rw [List.cons_append, find, if_neg different.symm, ih absent, Option.map_some, byteLenCons,
      Nat.add_comm]

theorem splitOnceAbsent {c : Char} {s : Str} (absent : c ∉ s) : splitOnce c s = none := by
  induction s with
  | nil => rfl
  | cons x s ih =>
    obtain ⟨different,absent⟩ := List.ne_and_not_mem_of_not_mem_cons absent
    rw [splitOnce, if_neg different.symm, ih absent]
    rfl

theorem splitOnceFirst {c : Char} {a : Str} (absent : c ∉ a) (b : Str) :
    splitOnce c (a ++ c :: b) = some (a,b) := by
  induction a with
  | nil => simp [splitOnce]
  | cons x a ih =>
    obtain ⟨different,absent⟩ := List.ne_and_not_mem_of_not_mem_cons absent
    rw [List.cons_append, splitOnce, if_neg different.symm, ih absent]
    rfl

theorem rfindAbsent {c : Char} {s : Str} (absent : c ∉ s) : rfind c s = none := by
  induction s with
  | nil => rfl
  | cons x xs ih =>
    obtain ⟨different,absent⟩ := List.ne_and_not_mem_of_not_mem_cons absent
    rw [rfind, ih absent]
    exact if_neg different.symm

theorem rfindLast (a : Str) {c : Char} {b : Str} (absent : c ∉ b) :
    rfind c (a ++ c :: b) = some (byteLen a) := by
  induction a with
  | nil =>
    rw [List.nil_append, rfind, rfindAbsent absent]
    exact if_pos rfl
  | cons x a ih =>
    rw [List.cons_append, rfind, ih, byteLenCons, Nat.add_comm]

theorem stripPrefixSome {pre s rest : Str} : stripPrefix pre s = some rest ↔ s = pre ++ rest := by
  unfold stripPrefix
  constructor
  · intro stripped
    split at stripped
    · rename_i starts
      obtain ⟨more,rfl⟩ := List.isPrefixOf_iff_prefix.mp starts
      rw [List.drop_left] at stripped
      rw [Option.some.inj stripped]
    · contradiction
  · rintro rfl
    rw [if_pos (List.isPrefixOf_iff_prefix.mpr (List.prefix_append pre rest)), List.drop_left]

def isWhitespace (c : Char) : Bool :=
  let n := c.toNat
  (9 ≤ n && n ≤ 13) || n == 0x20 || n == 0x85 || n == 0xA0 || n ==
    0x1680 || (0x2000 ≤ n && n ≤ 0x200A) ||
    n == 0x2028 || n == 0x2029 || n == 0x202F || n == 0x205F || n == 0x3000

def trimStart (s : Str) : Str := s.dropWhile isWhitespace
def trimEnd (s : Str) : Str := (s.reverse.dropWhile isWhitespace).reverse
def trim (s : Str) : Str := trimEnd (trimStart s)

def EdgesClean (s : Str) : Prop :=
  (∀ c ∈ s.head?, isWhitespace c = false) ∧ ∀ c ∈ s.getLast?, isWhitespace c = false
instance (s : Str) : Decidable (EdgesClean s) :=
  have edge (o : Option Char) : Decidable (∀ c ∈ o, isWhitespace c = false) :=
    Option.decidableForallMem o
  @instDecidableAnd _ _ (edge s.head?) (edge s.getLast?)

theorem dropWhileClean {s : Str} (clean : ∀ c ∈ s.head?, isWhitespace c = false) :
    s.dropWhile isWhitespace = s := by
  cases s with
  | nil => rfl
  | cons c s => rw [List.dropWhile_cons_of_neg (by simp [clean c rfl])]

theorem trimClean {s : Str} (clean : EdgesClean s) : trim s = s := by
  rw [trim, trimStart, dropWhileClean clean.1, trimEnd, dropWhileClean, List.reverse_reverse]
  simpa only [List.head?_reverse] using clean.2

theorem trimStartEdge (s : Str) : ∀ c ∈ (trimStart s).head?, isWhitespace c = false := by
  intro c first
  have edge := List.head?_dropWhile_not isWhitespace s
  rw [trimStart] at first
  rwa [Option.mem_def.mp first] at edge

theorem trimEndPrefix (s : Str) : trimEnd s <+: s := by
  have back := List.reverse_prefix.mpr (List.dropWhile_suffix isWhitespace (l := s.reverse))
  rwa [List.reverse_reverse] at back

theorem trimEdges (s : Str) : EdgesClean (trim s) := by
  constructor
  · intro c first
    obtain ⟨rest,whole⟩ := trimEndPrefix (trimStart s)
    refine trimStartEdge s c ?_
    rw [← whole, List.head?_append, show (trimEnd (trimStart s)).head? = some c from first]
    rfl
  · intro c last
    rw [trim, trimEnd, List.getLast?_reverse] at last
    exact trimStartEdge (trimStart s).reverse c last

theorem trimInfix (s : Str) : trim s <:+: s :=
  (trimEndPrefix (trimStart s)).isInfix.trans (List.dropWhile_suffix isWhitespace).isInfix

theorem trimPadded {c : Char} (white : isWhitespace c = true) (s : Str) : trim (c :: s) = trim s := by
  rw [trim, trimStart, List.dropWhile_cons_of_pos white]
  rfl

def eqIgnoreAsciiCase (a b : Str) : Bool := a.map Char.toLower == b.map Char.toLower

theorem eqIgnoreRefl (a : Str) : eqIgnoreAsciiCase a a = true := beq_self_eq_true _

theorem eqIgnoreSymm (a b : Str) : eqIgnoreAsciiCase a b = eqIgnoreAsciiCase b a := Bool.beq_comm

theorem eqIgnoreLeft {a b : Str} (same : eqIgnoreAsciiCase a b = true) (c : Str) :
    eqIgnoreAsciiCase a c = eqIgnoreAsciiCase b c := by
  rw [eqIgnoreAsciiCase, eq_of_beq same, eqIgnoreAsciiCase]

def splitWhitespace (s : Str) : List Str := (s.splitOnP isWhitespace).filter (· ≠ [])

theorem splitWhitespaceSolid {w : Str} (ne : w ≠ []) (solid : ∀ c ∈ w, isWhitespace c = false) :
    splitWhitespace w = [w] := by
  rw [splitWhitespace, List.splitOnP_eq_singleton solid,
    List.filter_cons_of_pos (by simpa using ne), List.filter_nil]

theorem splitWhitespaceWord {w : Str} (ne : w ≠ []) (solid : ∀ c ∈ w, isWhitespace c = false)
    {c : Char} (white : isWhitespace c = true) (s : Str) :
    splitWhitespace (w ++ c :: s) = w :: splitWhitespace s := by
  rw [splitWhitespace, List.splitOnP_append_cons_of_forall_mem solid c white,
    List.filter_cons_of_pos (by simpa using ne)]
  rfl

theorem trimKeeps {pre w : Str} (white : ∀ c ∈ pre, isWhitespace c = true) (ne : w ≠ [])
    (solid : ∀ c ∈ w, isWhitespace c = false) (v : Str) : w <+: trim (pre ++ w ++ v) := by
  have front : trimStart (pre ++ w ++ v) = w ++ v := by
    rw [trimStart, List.append_assoc, List.dropWhile_append_of_pos white]
    obtain ⟨c,cs,rfl⟩ := List.exists_cons_of_ne_nil ne
    exact dropWhileClean (by simpa using solid c List.mem_cons_self)
  have back : w.reverse.dropWhile isWhitespace = w.reverse := dropWhileClean fun c last =>
    solid c (List.mem_reverse.mp (List.mem_of_mem_head? last))
  rw [trim, front, trimEnd, List.reverse_append, List.dropWhile_append]
  split
  · simpa only [back, List.reverse_reverse] using List.prefix_refl w
  · rw [List.reverse_append, List.reverse_reverse]
    exact List.prefix_append _ _

theorem trimStartSolid {c : Char} (solid : isWhitespace c = false) (s : Str) :
    trimStart (c :: s) = c :: s :=
  dropWhileClean (by simpa using solid)

theorem trimEndKeeps {c : Char} (solid : isWhitespace c = false) (a x : Str) :
    trimEnd (a ++ c :: x) = a ++ c :: trimEnd x := by
  have back : (c :: a.reverse).dropWhile isWhitespace = c :: a.reverse :=
    dropWhileClean (by simpa using solid)
  rw [trimEnd, trimEnd, List.reverse_append, List.reverse_cons, List.append_assoc,
    List.singleton_append, List.dropWhile_append]
  split
  · rename_i white
    rw [back, List.isEmpty_iff.mp white]
    simp
  · simp

theorem trimEndPadded {pad : Str} (white : ∀ c ∈ pad, isWhitespace c = true) (s : Str) :
    trimEnd (s ++ pad) = trimEnd s := by
  rw [trimEnd, List.reverse_append,
    List.dropWhile_append_of_pos (fun c mem => white c (List.mem_reverse.mp mem)), trimEnd]

theorem pieceFront {s piece : Str} {more : List Str} (split : s.splitOnP isWhitespace = piece :: more) :
    piece <+: s ∧ ∀ c ∈ piece, isWhitespace c = false := by
  induction s generalizing piece more with
  | nil => simp at split; simp [split.1]
  | cons x s ih =>
    rw [List.splitOnP_cons_eq_if_modifyHead] at split
    split at split
    · simp [← (List.cons.inj split).1]
    · rename_i solid
      obtain ⟨p,ps,rest⟩ := List.exists_cons_of_ne_nil (List.splitOnP_ne_nil isWhitespace s)
      rw [rest, List.modifyHead_cons] at split
      obtain ⟨start,clean⟩ := ih rest
      rw [← (List.cons.inj split).1]
      refine ⟨(List.prefix_cons_inj x).mpr start,fun c mem => ?_⟩
      rcases List.mem_cons.mp mem with rfl | mem
      · simpa using solid
      · exact clean c mem

theorem firstWord {s w : Str} (word : (splitWhitespace s)[0]? = some w) :
    w ≠ [] ∧ (∀ c ∈ w, isWhitespace c = false) ∧ ∃ pre v, s = pre ++ w ++ v ∧ ∀ c ∈ pre,
    isWhitespace c = true := by
  induction s with
  | nil => simp [splitWhitespace] at word
  | cons x s ih =>
    obtain ⟨p,ps,split⟩ := List.exists_cons_of_ne_nil (List.splitOnP_ne_nil isWhitespace s)
    by_cases white : isWhitespace x = true
    · have same : splitWhitespace (x :: s) = splitWhitespace s := by
        simp [splitWhitespace,List.splitOnP_cons_eq_if_modifyHead,white]
      obtain ⟨ne,solid,pre,v,rfl,front⟩ := ih (same ▸ word)
      refine ⟨ne,solid,x :: pre,v,rfl,fun c mem => ?_⟩
      rcases List.mem_cons.mp mem with rfl | mem
      · exact white
      · exact front c mem
    · obtain ⟨⟨v,rfl⟩,solid⟩ := pieceFront split
      have same : splitWhitespace (x :: (p ++ v)) = (x :: p) :: ps.filter (· ≠ []) := by
        simp [splitWhitespace,List.splitOnP_cons_eq_if_modifyHead,white,split]
      rw [same] at word
      cases Option.some.inj word
      refine ⟨List.cons_ne_nil _ _,fun c mem => ?_,[],v,rfl,by simp⟩
      rcases List.mem_cons.mp mem with rfl | mem
      · simpa using white
      · exact solid c mem

/- `split_inclusive`, then the line ending is taken off; a last line that no line
feed ends keeps its carriage return. -/
def splitInclusive (c : Char) : Str → List Str
  | [] => []
  | x :: xs => if x = c then [x] :: splitInclusive c xs else prependHead x (splitInclusive c xs)

def stripSuffix (c : Char) (s : Str) : Option Str :=
  if s.getLast? = some c then some s.dropLast else none

theorem stripSuffixSome {c : Char} {s rest : Str} : stripSuffix c s = some rest ↔ s = rest ++ [c] := by
  unfold stripSuffix
  constructor
  · intro stripped
    split at stripped
    · rename_i last
      obtain ⟨front,rfl⟩ := List.getLast?_eq_some_iff.mp last
      rw [List.dropLast_concat] at stripped
      rw [Option.some.inj stripped]
    · contradiction
  · rintro rfl
    rw [if_pos List.getLast?_concat, List.dropLast_concat]

def lineOf (line : Str) : Str := match stripSuffix '\n' line with
  | none => line
  | some rest => (stripSuffix '\r' rest).getD rest

def lines (s : Str) : List Str := (splitInclusive '\n' s).map lineOf

theorem splitInclusiveAt {c : Char} {l : Str} (absent : c ∉ l) (u : Str) :
    splitInclusive c (l ++ c :: u) = (l ++ [c]) :: splitInclusive c u := by
  induction l with
  | nil => simp [splitInclusive]
  | cons x l ih =>
    obtain ⟨different,absent⟩ := List.ne_and_not_mem_of_not_mem_cons absent
    rw [List.cons_append, splitInclusive, if_neg different.symm, ih absent]
    rfl

theorem splitInclusiveLast {c : Char} {l : Str} (absent : c ∉ l) (ne : l ≠ []) :
    splitInclusive c l = [l] := by
  induction l with
  | nil => contradiction
  | cons x l ih =>
    obtain ⟨different,absent⟩ := List.ne_and_not_mem_of_not_mem_cons absent
    rw [splitInclusive, if_neg different.symm]
    cases l with
    | nil => rfl
    | cons y l => rw [ih absent (by simp)]; rfl

theorem linesCrlf {l : Str} (absent : '\n' ∉ l) (u : Str) :
    lines (l ++ '\r' :: '\n' :: u) = l :: lines u := by
  have shape : l ++ '\r' :: '\n' :: u = (l ++ ['\r']) ++ '\n' :: u := by simp
  rw [shape, lines, splitInclusiveAt (by simpa using absent), List.map_cons]
  simp [lineOf,stripSuffix,lines]

theorem linesLast {l : Str} (absent : '\n' ∉ l) (ne : l ≠ []) : lines l = [l] := by
  have kept : stripSuffix '\n' l = none := if_neg fun last => absent (List.mem_of_getLast? last)
  rw [lines, splitInclusiveLast absent ne, List.map_singleton, lineOf, kept]

theorem linesJoined {ls : List Str} (plain : ∀ l ∈ ls, l ≠ [] ∧ '\n' ∉ l) :
    lines (joinPair '\r' '\n' ls) = ls := by
  induction ls with
  | nil => rfl
  | cons l ls ih =>
    obtain ⟨solid,absent⟩ := plain l List.mem_cons_self
    cases ls with
    | nil =>
      have single : joinPair '\r' '\n' [l] = l := by simp [joinPair]
      rw [single, linesLast absent solid]
    | cons m ls =>
      rw [joinPairCons l (by simp), linesCrlf absent,
        ih fun k mem => plain k (List.mem_cons_of_mem l mem)]

def CrlfOnly (s : Str) : Prop := ∀ u v, s = u ++ '\n' :: v → u.getLast? = some '\r'

theorem crlfOnlyAtom {s : Str} (paired : CrlfOnly s) (none : position ['\r','\n'] s = none) :
    '\n' ∉ s := by
  intro mem
  obtain ⟨u,v,rfl⟩ := List.append_of_mem mem
  obtain ⟨w,rfl⟩ := List.getLast?_eq_some_iff.mp (paired u v rfl)
  exact (positionNone (by simp)).mp none w.length ⟨v,by simp⟩

theorem pairedPieces {s : Str} (paired : CrlfOnly s) : ∀ l ∈ splitPair '\r' '\n' s, '\n' ∉ l := by
  induction h : s.length using Nat.strongRecOn generalizing s with
  | ind n ih =>
    rcases splitPairFirst (a := '\r') (b := '\n') s with ⟨none,whole⟩ | ⟨l,u,rfl,found,first⟩
    · have atom := crlfOnlyAtom paired none
      simpa only [whole, List.forall_mem_singleton] using atom
    · have front : CrlfOnly l := fun a b same => paired a (b ++ '\r' :: '\n' :: u) (by simp [same])
      have rest : CrlfOnly u := by
        intro a b same
        have last := paired (l ++ '\r' :: '\n' :: a) b (by simp [same])
        cases a with
        | nil => simp at last
        | cons x a => simpa [List.getLast?_cons_cons] using last
      rw [first, List.forall_mem_cons]
      exact ⟨crlfOnlyAtom front (positionBefore (by simp) found),
        ih u.length (by simp [← h]; omega) rest rfl⟩

theorem linesFeed {l : Str} (absent : '\n' ∉ l) (bare : l.getLast? ≠ some '\r') (u : Str) :
    lines (l ++ '\n' :: u) = l :: lines u := by
  have kept : stripSuffix '\r' l = none := if_neg bare
  rw [lines, splitInclusiveAt absent, List.map_cons, lineOf, stripSuffix, if_pos (by simp)]
  simp only [List.dropLast_concat, kept, Option.getD_none, lines]

/- Reading by lines cuts the pieces at CR LF once more, at their own line feeds; an
empty piece at the end of the text is no line. -/
theorem linesPieces (s : Str) : (splitPair '\r' '\n' s).flatMap (·.splitOn '\n') = lines s ∨
    (splitPair '\r' '\n' s).flatMap (·.splitOn '\n') = lines s ++ [[]] := by
  induction h : s.length using Nat.strongRecOn generalizing s with
  | ind n ih =>
    by_cases feed : '\n' ∈ s
    · obtain ⟨l,u,rfl,absent⟩ := List.eq_append_cons_of_mem feed
      have rest := ih u.length (by simp [← h]; omega) u rfl
      -- The first line feed ends a piece when it is paired, and only a line when it is bare.
      by_cases paired : l.getLast? = some '\r'
      · obtain ⟨k,rfl⟩ := List.getLast?_eq_some_iff.mp paired
        have absent : '\n' ∉ k := fun mem => absent (List.mem_append_left _ mem)
        rw [List.append_assoc, List.singleton_append, splitPairAppend (by decide),
          splitPairAtom (.inr absent),
          List.singleton_append, List.flatMap_cons, List.splitOn_eq_singleton absent, linesCrlf absent]
        simpa using rest
      · obtain ⟨p,ps,split⟩ := List.exists_cons_of_ne_nil (splitPairNe (a := '\r') (b := '\n') u)
        rw [split, List.flatMap_cons] at rest
        rw [splitPairBare (by decide) absent paired split, List.flatMap_cons,
          List.splitOn_append_cons_self_of_not_mem absent, linesFeed absent paired]
        simpa using rest
    · rw [splitPairAtom (.inr feed), List.flatMap_singleton, List.splitOn_eq_singleton feed]
      by_cases empty : s = []
      · exact .inr (by rw [empty]; rfl)
      · exact .inl (linesLast feed empty).symm

/- `char::to_digit` and the unsigned `from_str_radix`: one plus sign may stand in
front, every step is checked against the type's maximum. -/
def digitValue (radix : Nat) (c : Char) : Option Nat :=
  let n := c.toNat
  let value :=
    if 48 ≤ n ∧ n ≤ 57 then some (n - 48)
    else if 97 ≤ n ∧ n ≤ 122 then some (n - 87)
    else if 65 ≤ n ∧ n ≤ 90 then some (n - 55)
    else none
  value.filter (· < radix)

def digits (radix max : Nat) : Nat → Str → Option Nat
  | acc, [] => some acc
  | acc, c :: s => do
    let d ← digitValue radix c
    if acc * radix + d ≤ max then digits radix max (acc * radix + d) s else none

def fromStrRadix (radix max : Nat) : Str → Option Nat
  | [] => none
  | ['+'] => none
  | ['-'] => none
  | '+' :: s => digits radix max 0 s
  | s => digits radix max 0 s

theorem digitsAppend {radix max acc : Nat} (s u : Str) :
    digits radix max acc (s ++ u) = (digits radix max acc s).bind fun n => digits radix max n u := by
  induction s generalizing acc with
  | nil => rfl
  | cons c s ih =>
    simp only [List.cons_append, digits, bind]
    cases digitValue radix c with
    | none => rfl
    | some d =>
      simp only [Option.bind_some]
      split
      · exact ih
      · rfl

theorem digitsPlain {radix max : Nat} {c : Char} {s : Str} (plus : c ≠ '+') (minus : c ≠ '-') :
    fromStrRadix radix max (c :: s) = digits radix max 0 (c :: s) := by
  unfold fromStrRadix
  split <;> simp_all

def digitsValue (radix : Nat) (acc : Nat) (s : Str) : Nat :=
  s.foldl (fun n c => n * radix + (digitValue radix c).getD 0) acc

theorem digitsValueGrows {radix : Nat} (positive : 0 < radix) (s : Str) (acc : Nat) :
    acc ≤ digitsValue radix acc s := by
  induction s generalizing acc with
  | nil => exact Nat.le_refl acc
  | cons c s ih =>
    have more := ih (acc * radix + (digitValue radix c).getD 0)
    have scaled := Nat.le_mul_of_pos_right acc positive
    rw [digitsValue, List.foldl_cons, ← digitsValue]
    omega

/- Checking the bound at every digit is checking it once, behind the last. -/
theorem digitsBounded {radix max : Nat} (positive : 0 < radix) {s : Str}
    (valid : ∀ c ∈ s, (digitValue radix c).isSome = true) (acc : Nat) (small : acc ≤ max) :
    digits radix max acc s = if digitsValue radix acc s ≤ max then some (digitsValue radix acc s)
    else none := by
  induction s generalizing acc with
  | nil => simp [digits,digitsValue,small]
  | cons c s ih =>
    obtain ⟨d,value⟩ := Option.isSome_iff_exists.mp (valid c List.mem_cons_self)
    have step : digitsValue radix acc (c :: s) = digitsValue radix (acc * radix + d) s := by
      simp [digitsValue,value]
    have grows := digitsValueGrows positive s (acc * radix + d)
    simp only [digits, value, bind, Option.bind_some]
    split
    · rename_i fits
      rw [step, ih (fun k mem => valid k (List.mem_cons_of_mem c mem)) _ fits]
    · rw [step, if_neg (by omega)]

def Numeral (radix : Nat) (s : Str) (n : Nat) : Prop :=
  s ≠ [] ∧ (∀ c ∈ s, (digitValue radix c).isSome = true) ∧ digitsValue radix 0 s = n
instance (radix : Nat) (s : Str) (n : Nat) : Decidable (Numeral radix s n) := by
  unfold Numeral; infer_instance

theorem digitsValid {radix max acc n : Nat} {s : Str} (read : digits radix max acc s = some n) :
    ∀ c ∈ s, (digitValue radix c).isSome = true := by
  induction s generalizing acc with
  | nil => simp
  | cons c s ih =>
    obtain ⟨d,value,read⟩ := Option.bind_eq_some_iff.mp read
    split at read
    · intro k mem
      rcases List.mem_cons.mp mem with rfl | mem
      · rw [value]; rfl
      · exact ih read k mem
    · contradiction

theorem digitsIff {radix max n : Nat} (positive : 0 < radix) {s : Str} (nonempty : s ≠ []) :
    digits radix max 0 s = some n ↔ n ≤ max ∧ Numeral radix s n := by
  constructor
  · intro read
    have valid := digitsValid read
    rw [digitsBounded positive valid 0 (Nat.zero_le _)] at read
    split at read
    · rename_i fits
      cases read
      exact ⟨fits,nonempty,valid,rfl⟩
    · contradiction
  · rintro ⟨fits,_,valid,rfl⟩
    rw [digitsBounded positive valid 0 (Nat.zero_le _), if_pos fits]

theorem signNoDigit {c : Char} (sign : c = '+' ∨ c = '-') (radix : Nat) : digitValue radix c = none := by
  rcases sign with rfl | rfl <;> rfl

theorem signedNoNumeral {radix n : Nat} {c : Char} {s : Str} (sign : c = '+' ∨ c = '-') :
    ¬ Numeral radix (c :: s) n := by
  intro numeral
  have value := numeral.2.1 c List.mem_cons_self
  rw [signNoDigit sign] at value
  contradiction

theorem fromStrRadixIff {radix max n : Nat} (positive : 0 < radix) {s : Str} :
    fromStrRadix radix max s = some n ↔ n ≤ max ∧ ∃ ds, Numeral radix ds n ∧
    (s = ds ∨ s = '+' :: ds) := by
  have signed (u : Str) : (∃ ds, Numeral radix ds n ∧ ('+' :: u = ds ∨ '+' :: u = '+' :: ds)) ↔
      Numeral radix u n := by
    constructor
    · rintro ⟨ds,numeral,rfl | same⟩
      · exact absurd numeral (signedNoNumeral (.inl rfl))
      · exact (List.cons.inj same).2 ▸ numeral
    · exact fun numeral => ⟨u,numeral,.inr rfl⟩
  have bare {u : Str} (plus : u.head? ≠ some '+') :
      (∃ ds, Numeral radix ds n ∧ (u = ds ∨ u = '+' :: ds)) ↔ Numeral radix u n := by
    constructor
    · rintro ⟨ds,numeral,rfl | rfl⟩
      · exact numeral
      · exact absurd rfl plus
    · exact fun numeral => ⟨u,numeral,.inl rfl⟩
  unfold fromStrRadix
  split
  · rw [bare (by decide)]
    exact iff_of_false nofun fun both => both.2.1 rfl
  · rw [signed]
    exact iff_of_false nofun fun both => both.2.1 rfl
  · rw [bare (by decide)]
    exact iff_of_false nofun fun both => signedNoNumeral (.inr rfl) both.2
  · rename_i u filled
    rw [signed, digitsIff positive filled]
  · rename_i nonempty _ _ unsigned
    rw [bare, digitsIff positive nonempty]
    intro plus
    obtain ⟨u,shape⟩ := List.head?_eq_some_iff.mp plus
    exact unsigned u shape

def decimal (n : Nat) : Str := Nat.toDigits 10 n

theorem digitCharValue : ∀ {d : Nat}, d < 10 → digitValue 10 d.digitChar = some d := by decide

theorem digitsDecimal {max : Nat} (n : Nat) (fits : n ≤ max) : digits 10 max 0 (decimal n) = some n := by
  induction n using Nat.strongRecOn with
  | ind n ih =>
    by_cases small : n < 10
    · rw [decimal, Nat.toDigits_of_lt_base small, digits, digitCharValue small]
      simp [digits,fits]
    · have front := ih (n / 10) (by omega) (by omega)
      rw [decimal, Nat.toDigits_of_base_le (by decide) (by omega), digitsAppend]
      rw [decimal] at front
      have last : n % 10 < 10 := Nat.mod_lt _ (by decide)
      simp only [front, Option.bind_some, digits, digitCharValue last, bind]
      rw [Nat.div_add_mod', if_pos fits]

theorem decimalDigits {n : Nat} {c : Char} (mem : c ∈ decimal n) : c.isDigit :=
  Nat.isDigit_of_mem_toDigits (by decide) (by decide) mem

theorem parseDecimal {max : Nat} (n : Nat) (fits : n ≤ max) :
    fromStrRadix 10 max (decimal n) = some n := by
  obtain ⟨c,s,shape⟩ := List.exists_cons_of_ne_nil (Nat.toDigits_ne_nil (n := n) (b := 10))
  have digit := decimalDigits (n := n) (c := c) (by rw [decimal, shape]; exact List.mem_cons_self)
  have text : decimal n = c :: s := shape
  rw [text, digitsPlain, ← text, digitsDecimal n fits]
  · rintro rfl; simp at digit
  · rintro rfl; simp at digit

structure Canonical (s : Str) (n : Nat) : Prop where
  value : Numeral 10 s n
  leading : s.head? = some '0' → s = ['0']

theorem digitCharZero : ∀ {d : Nat}, d < 10 → d.digitChar = '0' → d = 0 := by decide

theorem decimalLeading {n : Nat} (positive : 0 < n) : (decimal n).head? ≠ some '0' := by
  induction n using Nat.strongRecOn with
  | ind n ih =>
    by_cases small : n < 10
    · rw [decimal, Nat.toDigits_of_lt_base small]
      intro zero
      have := digitCharZero small (Option.some.inj zero)
      omega
    · have front := ih (n / 10) (by omega) (by omega)
      obtain ⟨c,s,shape⟩ := List.exists_cons_of_ne_nil (Nat.toDigits_ne_nil (n := n / 10) (b := 10))
      rw [decimal, shape] at front
      rw [decimal, Nat.toDigits_of_base_le (by decide) (by omega), shape]
      exact front

theorem decimalCanonical (n : Nat) : Canonical (decimal n) n where
  value := ((digitsIff (by decide) Nat.toDigits_ne_nil).mp (digitsDecimal n (Nat.le_refl n))).2
  leading zero := by
    by_cases positive : 0 < n
    · exact absurd zero (decimalLeading positive)
    · rw [Nat.eq_zero_of_not_pos positive]
      rfl

theorem decimalLength {n k : Nat} (positive : 0 < k) :
    (asBytes (decimal n)).length ≤ k ↔ n < 10 ^ k := by
  rw [asciiLength fun c mem => ?_, decimal, Nat.length_toDigits_le_iff (by decide) positive]
  have digit := decimalDigits mem
  simp only [Char.isDigit, Bool.and_eq_true, decide_eq_true_eq, UInt32.le_iff_toNat_le] at digit
  exact Nat.lt_of_le_of_lt digit.2 (by decide)

end Rust.Text

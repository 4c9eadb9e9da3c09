import Mathlib.Data.List.Basic
import Mathlib.Data.List.Forall2

/-! Machines that take one input after the other. Every input gets an output, and the
machine goes on from a next state or has stopped. Nothing here depends on the program
that is modelled. -/
namespace Rust.Machine
variable {σ α β τ γ δ : Type}

/- The outputs so far and the state at their end; none once the machine has stopped. -/
def run (step : σ → α → β × Option σ) : σ → List α → List β × Option σ
  | s, [] => ([],some s)
  | s, a :: rest => match step s a with
    | (b,none) => ([b],none)
    | (b,some next) => (b :: (run step next rest).1,(run step next rest).2)

section Steps
variable {step : σ → α → β × Option σ}

theorem runNil (s : σ) : run step s [] = ([],some s) := rfl

theorem runStops {s : σ} {a : α} {b : β} (halts : step s a = (b,none)) (rest : List α) :
    run step s (a :: rest) = ([b],none) := by
  rw [run, halts]

theorem runGoes {s next : σ} {a : α} {b : β} (goes : step s a = (b,some next)) (rest : List α) :
    run step s (a :: rest) = (b :: (run step next rest).1,(run step next rest).2) := by
  rw [run, goes]

theorem runAppend {s mid : σ} {front : List α} (reached : (run step s front).2 = some mid)
    (rest : List α) :
    run step s (front ++ rest) =
      ((run step s front).1 ++ (run step mid rest).1,(run step mid rest).2) := by
  induction front generalizing s with
  | nil => rw [← Option.some.inj reached]; rfl
  | cons a front ih =>
    rcases moved : step s a with ⟨out,_ | next⟩
    · rw [runStops moved] at reached
      contradiction
    · rw [runGoes moved] at reached
      rw [List.cons_append, runGoes moved, runGoes moved, ih reached]
      rfl

theorem runOne (s : σ) (a : α) : (run step s [a]).1 = [(step s a).1] := by
  rcases moved : step s a with ⟨out,_ | next⟩
  · rw [runStops moved]
  · rw [runGoes moved, runNil]

theorem runNth {s : σ} {inputs : List α} {n : Nat} {b : β} (given : (run step s inputs).1[n]? = some b) :
    ∃ a at', inputs[n]? = some a ∧ (run step s (inputs.take n)).2 = some at' ∧ (step at' a).1 = b := by
  induction inputs generalizing s n with
  | nil => simp [runNil] at given
  | cons a rest ih =>
    rcases moved : step s a with ⟨out,_ | next⟩
    · rw [runStops moved] at given
      obtain ⟨zero,same⟩ : n = 0 ∧ out = b := by
        cases n with
        | zero => exact ⟨rfl,Option.some.inj given⟩
        | succ n => simp at given
      subst zero same
      exact ⟨a,s,rfl,rfl,by rw [moved]⟩
    · rw [runGoes moved] at given
      cases n with
      | zero => exact ⟨a,s,rfl,rfl,by rw [moved]; exact Option.some.inj given⟩
      | succ n =>
        obtain ⟨a',at',input,reached,out⟩ := ih given
        exact ⟨a',at',input,by rw [List.take_succ_cons, runGoes moved]; exact reached,out⟩

theorem runWhole {s last : σ} {inputs : List α} (ends : (run step s inputs).2 = some last) :
    (run step s inputs).1.length = inputs.length := by
  induction inputs generalizing s with
  | nil => rfl
  | cons a rest ih =>
    rcases moved : step s a with ⟨out,_ | next⟩
    · rw [runStops moved] at ends
      contradiction
    · rw [runGoes moved] at ends ⊢
      exact congrArg (· + 1) (ih ends)

theorem runMap {f : β → γ} {g : α → γ} (shows : ∀ s a, f (step s a).1 = g a) (s : σ) (inputs : List α) :
    (run step s inputs).1.map f = (inputs.take (run step s inputs).1.length).map g := by
  induction inputs generalizing s with
  | nil => rfl
  | cons a rest ih =>
    have own := shows s a
    rcases moved : step s a with ⟨out,_ | next⟩
    · rw [moved] at own
      simp only [runStops moved, List.map_singleton, List.length_singleton, List.take_succ_cons,
        List.take_zero, own]
    · rw [moved] at own
      simp only [runGoes moved, List.map_cons, List.length_cons, List.take_succ_cons, own, ih next]

variable (Inv : σ → Prop) {inputs : List α}

theorem runAlive (goes : ∀ a ∈ inputs, ∀ s, Inv s → ∃ next, (step s a).2 = some next ∧ Inv next)
    {s : σ} (start : Inv s) :
    ∃ last, (run step s inputs).2 = some last ∧ Inv last := by
  induction inputs generalizing s with
  | nil => exact ⟨s,rfl,start⟩
  | cons a rest ih =>
    obtain ⟨next,moved,kept⟩ := goes a List.mem_cons_self s start
    rw [runGoes (show step s a = ((step s a).1,some next) by rw [← moved])]
    exact ih (fun b mem => goes b (List.mem_cons_of_mem a mem)) kept

end Steps

section Simulation
variable {step : σ → α → β × Option σ} {step' : τ → γ → δ × Option τ}

/- One machine refines another that sees only some of its inputs: what the other does
not see keeps the states related, and each input it sees is one step of both. -/
structure Simulation (step : σ → α → β × Option σ) (step' : τ → γ → δ × Option τ)
    (Rel : σ → τ → Prop) (seen : α → Option γ)
    (Shows : α → β → δ → Prop) (inputs : List α) : Prop where
  idles : ∀ a ∈ inputs, seen a = none → ∀ s u, Rel s u → ∀ next, (step s a).2 = some next → Rel next u
  moves : ∀ a ∈ inputs, ∀ c, seen a = some c → ∀ s u, Rel s u → Shows a (step s a).1 (step' u c).1 ∧
    ∀ next, (step s a).2 = some next → ∃ next', (step' u c).2 = some next' ∧ Rel next next'

variable {Rel : σ → τ → Prop} {seen : α → Option γ} {Shows : α → β → δ → Prop} {inputs : List α}

theorem Simulation.tail {a : α} (sim : Simulation step step' Rel seen Shows (a :: inputs)) :
    Simulation step step' Rel seen Shows inputs :=
  ⟨fun b mem => sim.idles b (List.mem_cons_of_mem a mem),fun b mem =>
    sim.moves b (List.mem_cons_of_mem a mem)⟩

def visible (seen : α → Option γ) (pairs : List (α × β)) : List (α × β) :=
  pairs.filter fun p => (seen p.1).isSome

theorem visibleSkip {a : α} (hidden : seen a = none) (b : β) (rest : List (α × β)) :
    visible seen ((a,b) :: rest) = visible seen rest :=
  List.filter_cons_of_neg (by simp [hidden])

theorem visibleKeep {a : α} {c : γ} (shown : seen a = some c) (b : β) (rest : List (α × β)) :
    visible seen ((a,b) :: rest) = (a,b) :: visible seen rest :=
  List.filter_cons_of_pos (by simp [shown])

theorem Simulation.run (sim : Simulation step step' Rel seen Shows inputs) {s : σ} {u : τ}
    (start : Rel s u) :
    let run' := run step' u ((inputs.take (run step s inputs).1.length).filterMap seen)
    (∀ last, (run step s inputs).2 = some last → ∃ last', run'.2 = some last' ∧ Rel last last') ∧
    List.Forall₂ (fun p d => Shows p.1 p.2 d) (visible seen (inputs.zip (run step s inputs).1))
      run'.1 := by
  induction inputs generalizing s u with
  | nil => exact ⟨fun last same => ⟨u,rfl,Option.some.inj same ▸ start⟩,List.Forall₂.nil⟩
  | cons a rest ih =>
    cases shown : seen a with
    | none =>
      have kept := sim.idles a List.mem_cons_self shown s u start
      rcases moved : step s a with ⟨out,_ | next⟩
      · simp only [runStops moved, List.length_singleton, List.take_succ_cons, List.take_zero,
          List.filterMap_cons_none shown,
          List.filterMap_nil, List.zip_cons_cons, List.zip_nil_right, visibleSkip shown]
        exact ⟨fun last same => by contradiction,List.Forall₂.nil⟩
      · simp only [runGoes moved, List.length_cons, List.take_succ_cons,
          List.filterMap_cons_none shown, List.zip_cons_cons, visibleSkip shown]
        exact ih sim.tail (kept next (by rw [moved]))
    | some c =>
      obtain ⟨shows',goes⟩ := sim.moves a List.mem_cons_self c shown s u start
      rcases moved : step s a with ⟨out,_ | next⟩
      · rw [moved] at shows'
        simp only [runStops moved, List.length_singleton, List.take_succ_cons, List.take_zero,
          List.filterMap_cons_some shown,
          List.filterMap_nil, List.zip_cons_cons, List.zip_nil_right, visibleKeep shown, runOne]
        exact ⟨fun last same => by contradiction,List.Forall₂.cons shows' List.Forall₂.nil⟩
      · obtain ⟨next',moved',kept⟩ := goes next (by rw [moved])
        rw [moved] at shows'
        obtain ⟨ends,outputs⟩ := ih sim.tail kept
        simp only [runGoes moved, List.length_cons, List.take_succ_cons,
          List.filterMap_cons_some shown, List.zip_cons_cons,
          visibleKeep shown, runGoes (show step' u c = ((step' u c).1,some next') by rw [← moved'])]
        exact ⟨ends,List.Forall₂.cons shows' outputs⟩

end Simulation
end Rust.Machine

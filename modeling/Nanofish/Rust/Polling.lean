import Mathlib.Tactic.Common

/-! Operations that are polled until they are ready. Before every poll the world makes a
move, and a schedule lists the moves to come. Nothing here depends on the program that
is modelled. -/
namespace Rust.Polling
variable {σ ω α : Type}

inductive Poll (α : Type) where
  | ready (value : α)
  | pending
  deriving DecidableEq, Repr

def pollFn (act : ω → σ → σ) (poll : σ → Poll α × σ) : List ω → σ → Option α × σ × List ω
  | [], s => (none,s,[])
  | w :: rest, s => match poll (act w s) with
    | (.ready a,next) => (some a,next,rest)
    | (.pending,next) => pollFn act poll rest next

section Rule
variable {act : ω → σ → σ} {poll : σ → Poll α × σ} {Inv : σ → Prop} {Post : α → σ → Prop}

/- What one poll has to keep and to give for the operation to give it. -/
def Polls (poll : σ → Poll α × σ) (Inv : σ → Prop) (Post : α → σ → Prop) : Prop :=
  ∀ s, Inv s → match poll s with
  | (.ready a,next) => Post a next
  | (.pending,next) => Inv next

theorem pollRule (acts : ∀ w s, Inv s → Inv (act w s)) (polls : Polls poll Inv Post)
    (schedule : List ω) {s : σ} (start : Inv s) :
    (∀ a, (pollFn act poll schedule s).1 = some a → Post a (pollFn act poll schedule s).2.1) ∧
    ((pollFn act poll schedule s).1 = none → Inv (pollFn act poll schedule s).2.1) := by
  induction schedule generalizing s with
  | nil => exact ⟨fun a same => by contradiction,fun _ => start⟩
  | cons w rest ih =>
    have step := polls (act w s) (acts w s start)
    rcases polled : poll (act w s) with ⟨a | _,next⟩
    · rw [polled] at step
      simp only [pollFn, polled]
      exact ⟨fun b same => Option.some.inj same ▸ step,fun none => by contradiction⟩
    · rw [polled] at step
      simp only [pollFn, polled]
      exact ih step

end Rule
end Rust.Polling

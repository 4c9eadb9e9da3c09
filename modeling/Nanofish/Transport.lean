import Nanofish.Retries
import Nanofish.RequestFields

/-! Both read loops under any script: fragments of any size, faults and ends in any
order. What a loop reports is a front of what has arrived, and it reports it for a
reason. -/
namespace Nanofish.Transport
open Rust Rust.Utf8 Rust.Reads
open Protocol Codec HeaderBlock Client Receiving Retries Server Accepting

section Response
variable (t : Target) (buffer : Bytes)

def Settled (d : Bytes) : Prop := complete t d = true ∨ declaresLength t d = false ∧ d ≠ []

theorem verdictOk {held : Bytes} {sawEof : Bool} {n : Nat} (ok : verdict t held sawEof = .ok n) :
    n = held.length ∧ Settled t held := by
  unfold verdict at ok
  split at ok
  · contradiction
  · rename_i some
    split at ok
    · rename_i done
      cases ok
      exact ⟨rfl,.inl done⟩
    · cases sawEof with
      | false => contradiction
      | true =>
        cases declared : declaresLength t held with
        | true => simp [declared] at ok
        | false =>
          rw [declared] at ok
          cases ok
          exact ⟨rfl,.inr ⟨declared,some⟩⟩

def Reported (run : ReadRun) (come : Bytes) : Prop :=
  ∀ n, run.result = .ok n → ∃ d, n = d.length ∧ run.buffer = filled buffer d ∧
    d.length ≤ buffer.length ∧ d <+: come ∧ Settled t d

theorem endReported {held : Bytes} (bound : held.length ≤ buffer.length) (retries delays : Nat)
    (sawEof : Bool) (more : Bytes) :
    Reported t buffer (readEnd t (holding buffer held retries delays) sawEof) (held ++ more) := by
  intro n ok
  rw [readEndHolding] at ok ⊢
  obtain ⟨size,settled⟩ := verdictOk t ok
  exact ⟨held,size,rfl,bound,List.prefix_append held more,settled⟩

theorem loopReported (events : List (ReadEvent UInt8)) {held : Bytes}
    (bound : held.length ≤ buffer.length) (retries delays : Nat) :
    Reported t buffer (readLoop t events (holding buffer held retries delays))
      (held ++ arrived events) := by
  induction events generalizing held retries delays with
  | nil =>
    by_cases more : held.length < buffer.length ∧ 0 < retries
    · rw [loopWaits t buffer more.2 delays more.1]
      intro n ok
      contradiction
    · rw [readLoop.eq_def, if_neg (by simpa only [holding, filledLength bound] using more)]
      exact endReported t buffer bound retries delays false _
  | cons event rest ih =>
    by_cases more : held.length < buffer.length ∧ 0 < retries
    · obtain ⟨room,tries⟩ := more
      cases event with
      | close =>
        rw [loopClose t buffer tries delays rest room]
        exact endReported t buffer bound retries delays true _
      | fault =>
        rw [loopFault t buffer tries delays rest room]
        split
        · intro n ok
          contradiction
        · exact ih bound _ _
      | data fragment =>
        by_cases empty : fragment = []
        · rw [empty, loopEmpty t buffer tries delays rest room]
          exact endReported t buffer bound retries delays true _
        · have within := growLength buffer.length held fragment bound
          rw [loopData t buffer tries delays empty rest room, arrivedFragment empty]
          split
          · rename_i done
            intro n ok
            cases ok
            exact ⟨_,rfl,rfl,within,growArrived bound _,.inl done⟩
          · intro n ok
            by_cases goes : (grow buffer.length held fragment).length < buffer.length
            · obtain ⟨d,size,front,small,start,settled⟩ := ih within retries delays n ok
              rw [growWhole goes, List.append_assoc] at start
              exact ⟨d,size,front,small,start,settled⟩
            · rw [loopEnd t buffer goes rest within] at ok ⊢
              obtain ⟨d,size,front,small,start,settled⟩ :=
                endReported t buffer within retries delays false [] n ok
              rw [List.append_nil] at start
              exact ⟨d,size,front,small,start.trans (growArrived bound _),settled⟩
    · rw [readLoop.eq_def, if_neg (by simpa only [holding, filledLength bound] using more)]
      exact endReported t buffer bound retries delays false _

theorem responseReported (events : List (ReadEvent UInt8)) (maxRetries : Nat) :
    Reported t buffer (readResponse t events buffer maxRetries) (arrived events) :=
  loopReported t buffer events (show ([] : Bytes).length ≤ buffer.length from Nat.zero_le _) maxRetries 0

end Response

section Request
variable (t : Target) {buf : Bytes} (real : buf.length ≤ t.isizeMax)
include real

theorem requestLoopReported (events : List (ReadEvent UInt8)) {held : Bytes}
    (bound : held.length ≤ buf.length) {total : Nat}
    (ok : (readRequestLoop t events (accepting buf held)).result = .ok total) :
    ∃ d, readRequestLoop t events (accepting buf held) = ⟨.ok d.length,filled buf d⟩ ∧
    total = d.length ∧ d.length ≤ buf.length ∧
      d <+: held ++ arrived events ∧ framed t d = true := by
  induction events generalizing held with
  | nil =>
    rw [readRequestLoop.eq_def] at ok
    split at ok <;> contradiction
  | cons event rest ih =>
    by_cases room : held.length < buf.length
    · cases event with
      | close =>
        rw [requestLoopClose t bound room] at ok
        contradiction
      | fault =>
        rw [readRequestLoop.eq_def, if_pos (by rwa [accepting, filledLength bound])] at ok
        contradiction
      | data fragment =>
        by_cases empty : fragment = []
        · rw [readRequestLoop.eq_def, if_pos (by rwa [accepting, filledLength bound])] at ok
          simp [empty] at ok
        · have within := growLength buf.length held fragment bound
          rw [requestLoopStep t real room empty] at ok ⊢
          rw [arrivedFragment empty]
          split at ok
          · rename_i done
            cases ok
            exact ⟨_,if_pos done,rfl,within,growArrived bound _,done⟩
          · rename_i open'
            rw [if_neg open']
            by_cases goes : (grow buf.length held fragment).length < buf.length
            · obtain ⟨d,run,size,small,start,done⟩ := ih within ok
              rw [growWhole goes, List.append_assoc] at start
              exact ⟨d,run,size,small,start,done⟩
            · rw [requestLoopFull t within goes] at ok
              contradiction
    · rw [requestLoopFull t bound room] at ok
      contradiction

theorem requestReported (events : List (ReadEvent UInt8)) {total : Nat}
    (ok : (readRequest t events buf).result = .ok total) :
    ∃ d, readRequest t events buf = ⟨.ok d.length,filled buf d⟩ ∧ total = d.length ∧
    d.length ≤ buf.length ∧
      d <+: arrived events ∧ framed t d = true :=
  requestLoopReported t real events (show ([] : Bytes).length ≤ buf.length from Nat.zero_le _) ok

def Ends : ReadEvent UInt8 → Prop
  | .data fragment => fragment = []
  | _ => True

instance (event : ReadEvent UInt8) : Decidable (Ends event) := by
  cases event <;> unfold Ends <;> infer_instance

theorem requestLoopReturns (events : List (ReadEvent UInt8)) {held : Bytes}
    (bound : held.length ≤ buf.length)
    (enough : (∃ event ∈ events, Ends event) ∨ buf.length ≤ held.length + events.length) :
    (readRequestLoop t events (accepting buf held)).result.Returns := by
  induction events generalizing held with
  | nil =>
    have full : ¬ held.length < buf.length := by simpa using enough
    rw [requestLoopFull t bound full]
    trivial
  | cons event rest ih =>
    by_cases room : held.length < buf.length
    · cases event with
      | close =>
        rw [requestLoopClose t bound room]
        trivial
      | fault =>
        rw [readRequestLoop.eq_def, if_pos (by rwa [accepting, filledLength bound])]
        trivial
      | data fragment =>
        by_cases empty : fragment = []
        · rw [readRequestLoop.eq_def, if_pos (by rwa [accepting, filledLength bound])]
          simp [empty,Outcome.Returns]
        · rw [requestLoopStep t real room empty]
          split
          · trivial
          · refine ih (growLength buf.length held fragment bound) ?_
            have more : held.length + 1 ≤ (grow buf.length held fragment).length := by
              have some := List.length_pos_iff.mpr empty
              simp only [grow, List.length_append, List.length_take]
              omega
            rcases enough with ⟨event,mem,ends⟩ | long
            · rcases List.mem_cons.mp mem with rfl | mem
              · exact absurd ends empty
              · exact .inl ⟨event,mem,ends⟩
            · rw [List.length_cons] at long
              exact .inr (by omega)
    · rw [requestLoopFull t bound room]
      trivial

theorem requestReturns (events : List (ReadEvent UInt8))
    (enough : (∃ event ∈ events, Ends event) ∨ buf.length ≤ events.length) :
    (readRequest t events buf).result.Returns :=
  requestLoopReturns t real events (show ([] : Bytes).length ≤ buf.length from Nat.zero_le _)
    (by simpa using enough)

end Request

end Nanofish.Transport

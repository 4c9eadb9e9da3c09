import Nanofish.Rust.Machine
import Nanofish.Smoltcp.Adapter

/-! Any sequence of calls to the adapter, each awaited or dropped: what it gives to the
caller, what it hands to the socket, and what the end of the stream means. -/
namespace Nanofish.Smoltcp
open Rust Rust.Utf8 Rust.Reads Rust.Polling
open Protocol Codes Response Client Request Server Serving Messages Exchanges Streams

section Calls
variable {S W : Type} (tcp : TcpSocket S W) (all : WriteAll tcp)

inductive Call where
  | read (len : Nat)
  | write (buf : Bytes)
  | writeAll (buf : Bytes)
  | flush
  deriving DecidableEq, Repr

inductive Answer where
  | bytes (result : Outcome SmolTcpError Bytes)
  | count (result : Outcome SmolTcpError Nat)
  | done (result : Outcome SmolTcpError Unit)
  deriving DecidableEq, Repr

def perform (s : SmolTcpStream S W) : Call → Answer × SmolTcpStream S W
  | .read len => (.bytes (read tcp s len).1,(read tcp s len).2)
  | .write buf => (.count (write tcp s buf).1,(write tcp s buf).2)
  | .writeAll buf => (.done (all.writeAll s buf).1,(all.writeAll s buf).2)
  | .flush => (.done (flush tcp s).1,(flush tcp s).2)

def Answer.gave : Answer → Bytes
  | .bytes (.ok d) => d
  | _ => []

def Answer.Panics : Answer → Prop
  | .bytes result => result = .panic
  | .count result => result = .panic
  | .done result => result = .panic

/- What a call that writes has taken of its argument, as its answer tells. Only a
`write_all` that was dropped or failed does not tell how much that was. -/
def Took : Call → Answer → Bytes → Prop
  | .write buf,.count (.ok n),part => part = buf.take n ∧ n ≤ buf.length ∧ (buf ≠ [] → 0 < n)
  | .writeAll buf,.done result,part => part <+: buf ∧ (result = .ok () → part = buf)
  | _,_,part => part = []

variable {acked got sent : Bytes}

theorem performRule {s : SmolTcpStream S W} (here : At tcp acked got sent s) (call : Call) :
    ¬ (perform tcp all s call).1.Panics ∧ ∃ part, Took call (perform tcp all s call).1 part ∧
    At tcp acked (got ++ (perform tcp all s call).1.gave) (sent ++ part)
      (perform tcp all s call).2 := by
  cases call with
  | read len =>
    have rule := readRule tcp here len
    refine ⟨fun panics => ?_,[],rfl,?_⟩
    · rw [show (read tcp s len).1 = .panic from panics] at rule
      exact rule
    · rw [List.append_nil]
      simp only [perform]
      cases result : (read tcp s len).1 with
      | ok d => rw [result] at rule; exact rule.1
      | err e => rw [result] at rule; simpa [Answer.gave] using rule
      | panic => rw [result] at rule; exact rule.elim
      | pending => rw [result] at rule; simpa [Answer.gave] using rule
  | write buf =>
    by_cases none : buf = []
    · have same : write tcp s buf = (.ok 0,s) := if_pos none
      simp only [perform, same]
      exact ⟨fun panics => (by contradiction),[],⟨rfl,Nat.zero_le _,fun some => absurd none some⟩,
        by simpa [Answer.gave] using here⟩
    · have rule := writeRule tcp none here
      refine ⟨fun panics => ?_,?_⟩
      · rw [show (write tcp s buf).1 = .panic from panics] at rule
        exact rule
      · simp only [perform, Answer.gave, List.append_nil]
        cases result : (write tcp s buf).1 with
        | ok n => rw [result] at rule; exact ⟨buf.take n,⟨rfl,rule.2.2,fun _ => rule.2.1⟩,rule.1⟩
        | err e => rw [result] at rule; exact ⟨[],rfl,by rwa [List.append_nil]⟩
        | panic => rw [result] at rule; exact rule.elim
        | pending => rw [result] at rule; exact ⟨[],rfl,by rwa [List.append_nil]⟩
  | writeAll buf =>
    obtain ⟨calm,part,front,moved,whole⟩ := writeAllRule tcp all buf here
    exact ⟨calm,part,⟨front,whole⟩,
      by rwa [show (perform tcp all s (.writeAll buf)).1.gave = [] from rfl, List.append_nil]⟩
  | flush =>
    obtain ⟨moved,calm,_⟩ := flushRule tcp here
    exact ⟨calm,[],rfl,
      by rwa [show (perform tcp all s .flush).1.gave = [] from rfl, List.append_nil, List.append_nil]⟩

/- One call with the moves its caller waits for. When it is not through by then it is
dropped, as a timeout drops it, and the adapter is there for the next. -/
def callStep (s : LinkedStream tcp) (input : Call × List W) : Answer × Option (LinkedStream tcp) :=
  let next := perform tcp all { s.1 with schedule := input.2 } input.1
  (next.1,some ⟨next.2,by
    obtain ⟨_,_,_,moved⟩ := performRule tcp all (scheduleAt tcp (startsAt tcp s.2) input.2) input.1
    exact moved.linked⟩)

theorem callsRule (calls : List (Call × List W)) (s : LinkedStream tcp) :
    let run := Machine.run (callStep tcp all) s calls
    ∃ last parts, run.2 = some last ∧
    List.Forall₂ (fun p part => Took p.1.1 p.2 part) (calls.zip run.1) parts ∧
      last.1.got = s.1.got ++ run.1.flatMap Answer.gave ∧ last.1.sent = s.1.sent ++ parts.flatten ∧
      ∀ answer ∈ run.1, ¬ answer.Panics := by
  induction calls generalizing s with
  | nil =>
    exact ⟨s,[],rfl,.nil,(List.append_nil _).symm,(List.append_nil _).symm,by simp [Machine.runNil]⟩
  | cons input rest ih =>
    obtain ⟨calm,part,took,moved⟩ :=
      performRule tcp all (scheduleAt tcp (startsAt tcp s.2) input.2) input.1
    obtain ⟨last,parts,ends,each,got,sent,quiet⟩ := ih ⟨_,moved.linked⟩
    simp only [Machine.runGoes (show callStep tcp all s input = (_,some ⟨_,moved.linked⟩) from rfl)]
    refine ⟨last,part :: parts,ends,.cons took each,?_,?_,?_⟩
    · rw [got, moved.got, List.flatMap_cons, List.append_assoc]
    · rw [sent, moved.sent, List.flatten_cons, List.append_assoc]
    · intro answer mem
      rcases List.mem_cons.mp mem with rfl | mem
      · exact calm
      · exact quiet answer mem

theorem callsLast (s : LinkedStream tcp) (before : List (Call × List W)) (input : Call × List W) :
    ∃ mid : LinkedStream tcp,
    Machine.run (callStep tcp all) s (before ++ [input]) =
      ((Machine.run (callStep tcp all) s before).1 ++ [(callStep tcp all mid input).1],
      (callStep tcp all mid input).2) := by
  obtain ⟨mid,_,reached,_⟩ := callsRule tcp all before s
  refine ⟨mid,?_⟩
  rw [Machine.runAppend reached, Machine.runGoes (show callStep tcp all mid input = (_,some _) from rfl)]
  rfl

/- The socket has ended, with all that ever came in `whole`. -/
structure Over (whole : Bytes) (s : SmolTcpStream S W) : Prop where
  linked : Linked tcp s
  ended : tcp.ended s.socket
  came : s.came = whole

variable {whole : Bytes}

theorem actOver (w : W) (s : SmolTcpStream S W) (shut : Over tcp whole s) :
    Over tcp whole (act tcp w s) := by
  have ended := tcp.endedActs w s.socket shut.ended
  refine ⟨actLinked tcp w shut.linked,ended,?_⟩
  simp only [act, tcp.endedNone _ ended, List.drop_nil, List.append_nil, shut.came]

theorem pollReadOver (len : Nat) :
    Polls (pollRead tcp len) (Over tcp whole) fun _ => Over tcp whole := by
  intro s shut
  have kept := pollReadRule tcp len s (startsAt tcp shut.linked)
  have ended := tcp.endedRecv s.socket len shut.ended
  unfold pollRead at kept ⊢
  rcases taken : tcp.recvSlice s.socket len with ⟨e | d,socket⟩ <;> rw [taken] at kept ended
  · cases e with
    | finished => exact ⟨kept.1.linked,ended,shut.came⟩
    | invalidState => exact ⟨kept.linked,ended,shut.came⟩
  · by_cases waits : d = [] ∧ tcp.mayRecv socket = true
    · simp only [if_pos waits] at kept ⊢
      exact ⟨kept.linked,ended,shut.came⟩
    · simp only [if_neg waits] at kept ⊢
      exact ⟨kept.1.linked,ended,shut.came⟩

theorem pollWriteOver (buf : Bytes) :
    Polls (pollWrite tcp buf) (Over tcp whole) fun _ => Over tcp whole := by
  intro s shut
  have kept := pollWriteRule tcp buf s (startsAt tcp shut.linked)
  have ended := tcp.endedSend s.socket buf shut.ended
  unfold pollWrite at kept ⊢
  rcases taken : tcp.sendSlice s.socket buf with ⟨⟨⟩ | n,socket⟩ <;> rw [taken] at kept ended
  · exact ⟨kept.linked,ended,shut.came⟩
  · by_cases waits : n = 0 ∧ tcp.maySend socket = true
    · simp only [if_pos waits] at kept ⊢
      exact ⟨kept.linked,ended,shut.came⟩
    · simp only [if_neg waits] at kept ⊢
      exact ⟨kept.1.linked,ended,shut.came⟩

theorem pollFlushOver : Polls (pollFlush tcp) (Over tcp whole) fun _ => Over tcp whole := by
  intro s shut
  unfold pollFlush
  by_cases empty : tcp.sendQueue s.socket = 0
  · simp only [if_pos empty]
    exact shut
  · by_cases waits : tcp.maySend s.socket = true
    · simp only [if_neg empty, if_pos waits]
      exact shut
    · simp only [if_neg empty, if_neg waits]
      exact shut

theorem awaitOver {α : Type}
    {poll : SmolTcpStream S W → Poll (Except SmolTcpError α) × SmolTcpStream S W}
    (polls : Polls poll (Over tcp whole) fun _ => Over tcp whole) {s : SmolTcpStream S W}
    (shut : Over tcp whole s) :
    Over tcp whole (await tcp poll s).2 := by
  obtain ⟨last,rest,same,post⟩ := awaitRule tcp (actOver tcp) polls shut
  have here : Over tcp whole last := by
    cases result : (await tcp poll s).1 <;> rw [result] at post <;> first | exact post | exact post.elim
  rw [same]
  exact ⟨⟨here.linked.inbound,here.linked.outbound⟩,here.ended,here.came⟩

theorem writeOver (buf : Bytes) {s : SmolTcpStream S W} (shut : Over tcp whole s) :
    Over tcp whole (write tcp s buf).2 := by
  unfold write
  split
  · exact shut
  · exact awaitOver tcp (pollWriteOver tcp buf) shut

theorem writeAllOver (buf : Bytes) {s : SmolTcpStream S W} (shut : Over tcp whole s) :
    Over tcp whole (all.writeAll s buf).2 := by
  induction size : buf.length using Nat.strongRecOn generalizing buf s with
  | ind k ih =>
    by_cases empty : buf = []
    · rw [empty, all.nothing]
      exact shut
    · have kept := writeOver tcp buf shut
      rcases writeAllStep tcp all shut.linked empty with ⟨n,next,wrote,some,same⟩
        | ⟨e,next,wrote,same⟩ | ⟨next,wrote,same⟩
      · rw [wrote] at kept
        have shorter : (buf.drop n).length < k := by
          have := List.length_pos_iff.mpr empty
          rw [List.length_drop]
          omega
        rw [same]
        exact ih _ shorter (buf.drop n) kept rfl
      all_goals
        rw [wrote] at kept
        rw [same]
        exact kept

theorem performOver {s : SmolTcpStream S W} (shut : Over tcp whole s) (call : Call) :
    Over tcp whole (perform tcp all s call).2 := by
  cases call with
  | read len =>
    simp only [perform, read]
    split
    · exact shut
    · exact awaitOver tcp (pollReadOver tcp len) shut
  | write buf => exact writeOver tcp buf shut
  | writeAll buf => exact writeAllOver tcp all buf shut
  | flush => exact awaitOver tcp (pollFlushOver tcp) shut

theorem callsOver (calls : List (Call × List W)) {s last : LinkedStream tcp} (shut : Over tcp whole s.1)
    (ends : (Machine.run (callStep tcp all) s calls).2 = some last) : last.1.came = whole := by
  induction calls generalizing s with
  | nil => rw [← Option.some.inj ends]; exact shut.came
  | cons input rest ih =>
    have scheduled : Over tcp whole { s.1 with schedule := input.2 } :=
      ⟨⟨shut.linked.inbound,shut.linked.outbound⟩,shut.ended,shut.came⟩
    rw [Machine.runGoes (show callStep tcp all s input = (_,some _) from rfl)] at ends
    exact ih (performOver tcp all scheduled input.1) ends

end Calls

end Nanofish.Smoltcp

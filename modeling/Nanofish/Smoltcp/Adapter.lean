import Nanofish.Rust.Polling
import Nanofish.Streams.Loops

/-! The stream over a socket of smoltcp: smoltcp.rs. The socket is a parameter with its
documented behaviour; the application that owns it polls the interface between the polls
of an operation. -/
namespace Nanofish.Smoltcp
open Rust Rust.Utf8 Rust.Reads Rust.Polling
open Protocol Codes Response Client Request Server Serving Messages Exchanges Streams

inductive RecvError where
  | finished
  | invalidState
  deriving DecidableEq, Repr

inductive SendError where
  | invalidState
  deriving DecidableEq, Repr

inductive SmolTcpError where
  | recvInvalidState
  | sendInvalidState
  deriving DecidableEq, Repr

/- A TCP socket and the moves of its interface. `waiting` are the octets in its receive
buffer and `queued` those in its transmit buffer; it has `ended` once the other end has
closed its half and all of that has been taken. The laws are what the socket's functions
are documented to do; `may_recv` is true as long as there is or can be something to receive. -/
structure TcpSocket (S W : Type) where
  recvSlice : S → Nat → Except RecvError Bytes × S
  sendSlice : S → Bytes → Except SendError Nat × S
  mayRecv : S → Bool
  maySend : S → Bool
  sendQueue : S → Nat
  act : W → S → S
  waiting : S → Bytes
  queued : S → Bytes
  ended : S → Prop
  recvTakes : ∀ s n d next, recvSlice s n = (.ok d,next) →
    d.length ≤ n ∧ waiting s = d ++ waiting next ∧ queued next = queued s
  recvFinished : ∀ s n next, recvSlice s n = (.error .finished,next) → ended next
  recvClosed : ∀ s n d next, recvSlice s n = (.ok d,next) → mayRecv next = false → ended next
  recvFails : ∀ s n e next, recvSlice s n = (.error e,next) → waiting next = waiting s ∧
    queued next = queued s
  sendTakes : ∀ s data n next, sendSlice s data = (.ok n,next) →
    n ≤ data.length ∧ queued next = queued s ++ data.take n ∧
    waiting next = waiting s ∧ maySend next = true
  sendFails : ∀ s data e next, sendSlice s data = (.error e,next) → queued next = queued s ∧
    waiting next = waiting s
  queueLength : ∀ s, sendQueue s = (queued s).length
  actDelivers : ∀ w s, waiting s <+: waiting (act w s)
  actAcks : ∀ w s, queued (act w s) <:+ queued s
  endedNone : ∀ s, ended s → waiting s = []
  endedActs : ∀ w s, ended s → ended (act w s)
  endedRecv : ∀ s n, ended s → ended (recvSlice s n).2
  endedSend : ∀ s data, ended s → ended (sendSlice s data).2

/- The adapter with the moves that are still to come, and four histories: what reads have
returned and writes have taken, what the interface has delivered and what has been
acknowledged. -/
structure SmolTcpStream (S W : Type) where
  socket : S
  schedule : List W
  got : Bytes
  sent : Bytes
  came : Bytes
  left : Bytes

section Adapter
variable {S W : Type} (tcp : TcpSocket S W)

def act (w : W) (s : SmolTcpStream S W) : SmolTcpStream S W :=
  let socket := tcp.act w s.socket
  { s with
    socket := socket
    came := s.came ++ (tcp.waiting socket).drop (tcp.waiting s.socket).length
    left := s.left ++ (tcp.queued s.socket).take
      ((tcp.queued s.socket).length - (tcp.queued socket).length) }

def pollRead (len : Nat) (s : SmolTcpStream S W) :
    Poll (Except SmolTcpError Bytes) × SmolTcpStream S W :=
  match tcp.recvSlice s.socket len with
  | (.ok d,socket) =>
    let s := { s with socket := socket, got := s.got ++ d }
    if d = [] ∧ tcp.mayRecv socket = true then (.pending,s) else (.ready (.ok d),s)
  | (.error .finished,socket) => (.ready (.ok []),{ s with socket := socket })
  | (.error .invalidState,socket) => (.ready (.error .recvInvalidState),{ s with socket := socket })

def pollWrite (buf : Bytes) (s : SmolTcpStream S W) :
    Poll (Except SmolTcpError Nat) × SmolTcpStream S W :=
  match tcp.sendSlice s.socket buf with
  | (.ok n,socket) =>
    let s := { s with socket := socket, sent := s.sent ++ buf.take n }
    if n = 0 ∧ tcp.maySend socket = true then (.pending,s) else (.ready (.ok n),s)
  | (.error .invalidState,socket) => (.ready (.error .sendInvalidState),{ s with socket := socket })

def pollFlush (s : SmolTcpStream S W) : Poll (Except SmolTcpError Unit) × SmolTcpStream S W :=
  if tcp.sendQueue s.socket = 0 then (.ready (.ok ()),s)
  else if tcp.maySend s.socket = true then (.pending,s)
  else (.ready (.error .sendInvalidState),s)

def await {α : Type} (poll : SmolTcpStream S W → Poll (Except SmolTcpError α) × SmolTcpStream S W)
    (s : SmolTcpStream S W) :
    Outcome SmolTcpError α × SmolTcpStream S W := match pollFn (act tcp) poll s.schedule s with
  | (some (.ok a),s,rest) => (.ok a,{ s with schedule := rest })
  | (some (.error e),s,rest) => (.err e,{ s with schedule := rest })
  | (none,s,rest) => (.pending,{ s with schedule := rest })

def read (s : SmolTcpStream S W) (len : Nat) : Outcome SmolTcpError Bytes × SmolTcpStream S W :=
  if len = 0 then (.ok [],s) else await tcp (pollRead tcp len) s

def write (s : SmolTcpStream S W) (buf : Bytes) : Outcome SmolTcpError Nat × SmolTcpStream S W :=
  if buf = [] then (.ok 0,s) else await tcp (pollWrite tcp buf) s

def flush (s : SmolTcpStream S W) : Outcome SmolTcpError Unit × SmolTcpStream S W :=
  await tcp (pollFlush tcp) s

/- `write_all` is the stream trait's own method. It is documented to write in a loop until
nothing is left, and says nothing of a `write` that takes nothing. -/
structure WriteAll where
  writeAll : SmolTcpStream S W → Bytes → Outcome SmolTcpError Unit × SmolTcpStream S W
  nothing : ∀ s, writeAll s [] = (.ok (),s)
  more : ∀ s buf n next, buf ≠ [] → write tcp s buf = (.ok n,next) → 0 < n →
    writeAll s buf = writeAll next (buf.drop n)
  fails : ∀ s buf e next, buf ≠ [] → write tcp s buf = (.err e,next) → writeAll s buf = (.err e,next)
  waits : ∀ s buf next, buf ≠ [] → write tcp s buf = (.pending,next) → writeAll s buf = (.pending,next)

end Adapter

section Laws
variable {S W : Type} (tcp : TcpSocket S W)

structure Linked (s : SmolTcpStream S W) : Prop where
  inbound : s.came = s.got ++ tcp.waiting s.socket
  outbound : s.sent = s.left ++ tcp.queued s.socket

theorem actLinked (w : W) {s : SmolTcpStream S W} (linked : Linked tcp s) :
    Linked tcp (act tcp w s) := by
  obtain ⟨new,grown⟩ := tcp.actDelivers w s.socket
  obtain ⟨acked,shrunk⟩ := tcp.actAcks w s.socket
  constructor
  · simp only [act, ← grown, List.drop_left, linked.inbound, List.append_assoc]
  · have gone : (acked ++ tcp.queued (tcp.act w s.socket)).length -
        (tcp.queued (tcp.act w s.socket)).length = acked.length := by
      rw [List.length_append]
      omega
    simp only [act, linked.outbound, ← shrunk, gone, List.take_left, List.append_assoc]

/- What holds when an awaited operation is through, from what one poll has to show for
it; while it waits only the interface moves. -/
theorem awaitRule {α : Type}
    {poll : SmolTcpStream S W → Poll (Except SmolTcpError α) × SmolTcpStream S W}
    {Inv : SmolTcpStream S W → Prop} {Post : Except SmolTcpError α → SmolTcpStream S W → Prop}
    (acts : ∀ w s, Inv s → Inv (act tcp w s)) (polls : Polls poll Inv Post) {s : SmolTcpStream S W}
    (start : Inv s) :
    ∃ last rest, (await tcp poll s).2 = { last with schedule := rest } ∧ match (await tcp poll s).1 with
      | .ok a => Post (.ok a) last
      | .err e => Post (.error e) last
      | .panic => False
      | .pending => Inv last := by
  obtain ⟨ready,waits⟩ := pollRule acts polls s.schedule start
  unfold await
  rcases polled : pollFn (act tcp) poll s.schedule s
    with ⟨_ | (e | a),last,rest⟩ <;> rw [polled] at ready waits
  · exact ⟨last,rest,rfl,waits rfl⟩
  · exact ⟨last,rest,rfl,ready _ rfl⟩
  · exact ⟨last,rest,rfl,ready _ rfl⟩

structure At (acked got sent : Bytes) (s : SmolTcpStream S W) : Prop where
  linked : Linked tcp s
  acked : acked <+: s.left
  got : s.got = got
  sent : s.sent = sent

variable {acked got sent : Bytes}

theorem actAt (w : W) (s : SmolTcpStream S W) (here : At tcp acked got sent s) :
    At tcp acked got sent (act tcp w s) :=
  ⟨actLinked tcp w here.linked,here.acked.trans (List.prefix_append _ _),here.got,here.sent⟩

theorem scheduleAt {s : SmolTcpStream S W} (here : At tcp acked got sent s) (rest : List W) :
    At tcp acked got sent { s with schedule := rest } :=
  ⟨⟨here.linked.inbound,here.linked.outbound⟩,here.acked,here.got,here.sent⟩

def ReadPost (acked got sent : Bytes) (len : Nat) : Except SmolTcpError Bytes → SmolTcpStream S W → Prop
  | .ok d,s => At tcp acked (got ++ d) sent s ∧ d.length ≤ len ∧ (d = [] → 0 < len → tcp.ended s.socket)
  | .error _,s => At tcp acked got sent s

theorem pollReadRule (len : Nat) :
    Polls (pollRead tcp len) (At tcp acked got sent) (ReadPost tcp acked got sent len) := by
  intro s here
  unfold pollRead
  rcases taken : tcp.recvSlice s.socket len with ⟨e | d,socket⟩
  · obtain ⟨waiting,queued⟩ := tcp.recvFails _ _ _ _ taken
    have kept : At tcp acked got sent { s with socket := socket } :=
      ⟨⟨by rw [waiting]; exact here.linked.inbound,by rw [queued]; exact here.linked.outbound⟩,
        here.acked,here.got,here.sent⟩
    cases e with
    | finished =>
      exact ⟨by rwa [List.append_nil],Nat.zero_le _,fun _ _ => tcp.recvFinished _ _ _ taken⟩
    | invalidState => exact kept
  · obtain ⟨within,waiting,queued⟩ := tcp.recvTakes _ _ _ _ taken
    have moved : At tcp acked (got ++ d) sent { s with socket := socket, got := s.got ++ d } :=
      ⟨⟨by rw [List.append_assoc, ← waiting]; exact here.linked.inbound,
          by rw [queued]; exact here.linked.outbound⟩,
        here.acked,by rw [← here.got],here.sent⟩
    by_cases waits : d = [] ∧ tcp.mayRecv socket = true
    · simp only [if_pos waits]
      rw [waits.1, List.append_nil, List.append_nil] at moved
      rwa [waits.1, List.append_nil]
    · simp only [if_neg waits]
      -- Only a socket that cannot receive any more lets a read of nothing through.
      refine ⟨moved,within,fun none some => tcp.recvClosed _ _ _ _ taken ?_⟩
      exact Bool.eq_false_iff.mpr fun may => waits ⟨none,may⟩

def WritePost (acked got sent : Bytes) (buf : Bytes) : Except SmolTcpError Nat → SmolTcpStream S W → Prop
  | .ok n,s => At tcp acked got (sent ++ buf.take n) s ∧ 0 < n ∧ n ≤ buf.length
  | .error _,s => At tcp acked got sent s

theorem pollWriteRule (buf : Bytes) :
    Polls (pollWrite tcp buf) (At tcp acked got sent) (WritePost tcp acked got sent buf) := by
  intro s here
  unfold pollWrite
  rcases taken : tcp.sendSlice s.socket buf with ⟨e | n,socket⟩
  · obtain ⟨queued,waiting⟩ := tcp.sendFails _ _ _ _ taken
    exact ⟨⟨by rw [waiting]; exact here.linked.inbound,by rw [queued]; exact here.linked.outbound⟩,
      here.acked,here.got,here.sent⟩
  · obtain ⟨within,queued,waiting,may⟩ := tcp.sendTakes _ _ _ _ taken
    have moved : At tcp acked got (sent ++ buf.take n)
        { s with socket := socket, sent := s.sent ++ buf.take n } :=
      ⟨⟨by rw [waiting]; exact here.linked.inbound,
          by rw [queued, ← List.append_assoc, ← here.linked.outbound]⟩,
        here.acked,here.got,by rw [← here.sent]⟩
    by_cases waits : n = 0 ∧ tcp.maySend socket = true
    · simp only [if_pos waits]
      rw [waits.1, List.take_zero, List.append_nil, List.append_nil] at moved
      rwa [waits.1, List.take_zero, List.append_nil]
    · simp only [if_neg waits]
      exact ⟨moved,Nat.pos_of_ne_zero fun none => waits ⟨none,may⟩,within⟩

def FlushPost (acked got sent : Bytes) : Except SmolTcpError Unit → SmolTcpStream S W → Prop
  | .ok (),s => At tcp acked got sent s ∧ tcp.queued s.socket = []
  | .error _,s => At tcp acked got sent s

theorem pollFlushRule :
    Polls (pollFlush tcp) (At tcp acked got sent) (FlushPost tcp acked got sent) := by
  intro s here
  unfold pollFlush
  by_cases empty : tcp.sendQueue s.socket = 0
  · simp only [if_pos empty]
    rw [tcp.queueLength] at empty
    exact ⟨here,List.length_eq_zero_iff.mp empty⟩
  · simp only [if_neg empty]
    by_cases waits : tcp.maySend s.socket = true
    · simp only [if_pos waits]
      exact here
    · simp only [if_neg waits]
      exact here

theorem readRule {s : SmolTcpStream S W} (here : At tcp acked got sent s) (len : Nat) :
    match (read tcp s len).1 with
    | .ok d => At tcp acked (got ++ d) sent (read tcp s len).2 ∧ d.length ≤ len ∧
      (d = [] → 0 < len → tcp.ended (read tcp s len).2.socket)
    | .panic => False
    | _ => At tcp acked got sent (read tcp s len).2 := by
  unfold read
  by_cases none : len = 0
  · simp only [if_pos none]
    exact ⟨by rwa [List.append_nil],Nat.zero_le _,fun _ some => absurd none (Nat.ne_of_gt some)⟩
  · simp only [if_neg none]
    obtain ⟨last,rest,same,post⟩ := awaitRule tcp (actAt tcp) (pollReadRule tcp len) here
    rw [same]
    cases result : (await tcp (pollRead tcp len) s).1 with
    | ok d => rw [result] at post; exact ⟨scheduleAt tcp post.1 rest,post.2⟩
    | err e => rw [result] at post; exact scheduleAt tcp post rest
    | panic => rw [result] at post; exact post
    | pending => rw [result] at post; exact scheduleAt tcp post rest

theorem flushRule {s : SmolTcpStream S W} (here : At tcp acked got sent s) :
    At tcp acked got sent (flush tcp s).2 ∧ (flush tcp s).1 ≠ .panic ∧
    ((flush tcp s).1 = .ok () → tcp.queued (flush tcp s).2.socket = []) := by
  obtain ⟨last,rest,same,post⟩ := awaitRule tcp (actAt tcp) (pollFlushRule tcp) here
  unfold flush
  rw [same]
  cases result : (await tcp (pollFlush tcp) s).1 with
  | ok => rw [result] at post; exact ⟨scheduleAt tcp post.1 rest,by simp,fun _ => post.2⟩
  | err e => rw [result] at post; exact ⟨scheduleAt tcp post rest,by simp,by simp⟩
  | panic => rw [result] at post; exact post.elim
  | pending => rw [result] at post; exact ⟨scheduleAt tcp post rest,by simp,by simp⟩

theorem writeRule {buf : Bytes} (some : buf ≠ []) {s : SmolTcpStream S W}
    (here : At tcp acked got sent s) : match (write tcp s buf).1 with
    | .ok n => At tcp acked got (sent ++ buf.take n) (write tcp s buf).2 ∧ 0 < n ∧ n ≤ buf.length
    | .panic => False
    | _ => At tcp acked got sent (write tcp s buf).2 := by
  unfold write
  simp only [if_neg some]
  obtain ⟨last,rest,same,post⟩ := awaitRule tcp (actAt tcp) (pollWriteRule tcp buf) here
  rw [same]
  cases result : (await tcp (pollWrite tcp buf) s).1 with
  | ok n => rw [result] at post; exact ⟨scheduleAt tcp post.1 rest,post.2⟩
  | err e => rw [result] at post; exact scheduleAt tcp post rest
  | panic => rw [result] at post; exact post
  | pending => rw [result] at post; exact scheduleAt tcp post rest

theorem startsAt {s : SmolTcpStream S W} (linked : Linked tcp s) : At tcp s.left s.got s.sent s :=
  ⟨linked,List.prefix_rfl,rfl,rfl⟩

variable (all : WriteAll tcp)

/- What `write_all` does first: no `write` of the adapter takes nothing, so the loop's law
covers every case. -/
theorem writeAllStep {s : SmolTcpStream S W} (linked : Linked tcp s) {buf : Bytes} (some : buf ≠ []) :
    (∃ n next, write tcp s buf = (.ok n,next) ∧ 0 < n ∧
      all.writeAll s buf = all.writeAll next (buf.drop n)) ∨
    (∃ e next, write tcp s buf = (.err e,next) ∧ all.writeAll s buf = (.err e,next)) ∨
    ∃ next, write tcp s buf = (.pending,next) ∧ all.writeAll s buf = (.pending,next) := by
  have rule := writeRule tcp some (startsAt tcp linked)
  rcases wrote : write tcp s buf with ⟨n | e | _ | _,next⟩ <;> rw [wrote] at rule
  · exact .inl ⟨n,next,rfl,rule.2.1,all.more s buf n next some wrote rule.2.1⟩
  · exact .inr (.inl ⟨e,next,rfl,all.fails s buf e next some wrote⟩)
  · exact rule.elim
  · exact .inr (.inr ⟨next,rfl,all.waits s buf next some wrote⟩)

theorem writeAllRule (buf : Bytes) {s : SmolTcpStream S W} (here : At tcp acked got sent s) :
    (all.writeAll s buf).1 ≠ .panic ∧ ∃ part, part <+: buf ∧
    At tcp acked got (sent ++ part) (all.writeAll s buf).2 ∧
      ((all.writeAll s buf).1 = .ok () → part = buf) := by
  induction size : buf.length using Nat.strongRecOn generalizing buf sent s with
  | ind k ih =>
    by_cases empty : buf = []
    · rw [empty, all.nothing]
      exact ⟨by simp,[],List.prefix_rfl,by rwa [List.append_nil],fun _ => rfl⟩
    · have rule := writeRule tcp empty here
      rcases writeAllStep tcp all here.linked empty with ⟨n,next,wrote,some,same⟩
        | ⟨e,next,wrote,same⟩ | ⟨next,wrote,same⟩
      · rw [wrote] at rule
        have shorter : (buf.drop n).length < k := by
          have := List.length_pos_iff.mpr empty
          rw [List.length_drop]
          omega
        obtain ⟨calm,part,front,moved,whole⟩ := ih _ shorter (buf.drop n) rule.1 rfl
        rw [same]
        refine ⟨calm,buf.take n ++ part,?_,by rwa [← List.append_assoc],fun done => ?_⟩
        · conv => rhs; rw [← List.take_append_drop n buf]
          exact (List.prefix_append_right_inj _).mpr front
        · rw [whole done, List.take_append_drop]
      · rw [wrote] at rule
        rw [same]
        exact ⟨by simp,[],List.nil_prefix,by rwa [List.append_nil],by simp⟩
      · rw [wrote] at rule
        rw [same]
        exact ⟨by simp,[],List.nil_prefix,by rwa [List.append_nil],by simp⟩

theorem readLinked {s : SmolTcpStream S W} (linked : Linked tcp s) (len : Nat) :
    Linked tcp (read tcp s len).2 := by
  have rule := readRule tcp (startsAt tcp linked) len
  cases result : (read tcp s len).1 with
  | ok d => rw [result] at rule; exact rule.1.linked
  | err e => rw [result] at rule; exact rule.linked
  | panic => rw [result] at rule; exact rule.elim
  | pending => rw [result] at rule; exact rule.linked

end Laws

section New
variable {S W : Type} (tcp : TcpSocket S W)

def LinkedStream : Type := { s : SmolTcpStream S W // Linked tcp s }

def SmolTcpStream.new (socket : S) (schedule : List W) : LinkedStream tcp :=
  ⟨⟨socket,schedule,[],tcp.queued socket,tcp.waiting socket,[]⟩,⟨rfl,rfl⟩⟩

end New

structure Buffers where
  capacity : Nat
  rx : Bytes
  tx : Bytes
  finished : Bool
  deriving DecidableEq, Repr

inductive Move where
  | deliver (data : Bytes)
  | ack (n : Nat)
  | finish
  deriving DecidableEq, Repr

def buffers : TcpSocket Buffers Move where
  recvSlice s n :=
    if s.rx = [] ∧ s.finished = true then (.error .finished,s)
    else (.ok (s.rx.take n),{ s with rx := s.rx.drop n })
  sendSlice s data :=
    let n := min data.length (s.capacity - s.tx.length)
    (.ok n,{ s with tx := s.tx ++ data.take n })
  mayRecv s := !s.finished || !s.rx.isEmpty
  maySend _ := true
  sendQueue s := s.tx.length
  act w s := match w with
    | .deliver data => if s.finished then s else { s with rx := s.rx ++ data }
    | .ack n => { s with tx := s.tx.drop n }
    | .finish => { s with finished := true }
  waiting := Buffers.rx
  queued := Buffers.tx
  ended s := s.finished = true ∧ s.rx = []
  recvTakes s n d next same := by
    split at same <;> cases same
    exact ⟨List.length_take_le _ _,(List.take_append_drop n s.rx).symm,rfl⟩
  recvFinished s n next same := by
    split at same <;> cases same
    rename_i through
    exact ⟨through.2,through.1⟩
  recvClosed s n d next same closed := by
    split at same <;> cases same
    simpa using closed
  recvFails s n e next same := by
    split at same <;> cases same
    exact ⟨rfl,rfl⟩
  sendTakes s data n next same := by
    cases same
    exact ⟨Nat.min_le_left _ _,rfl,rfl,rfl⟩
  sendFails s data e next same := by cases same
  queueLength _ := rfl
  actDelivers w s := by
    cases w with
    | deliver data => cases s.finished <;> simp
    | _ => simp
  actAcks w s := by
    cases w with
    | deliver data => cases s.finished <;> simp
    | _ => simp [List.drop_suffix]
  endedNone s shut := shut.2
  endedActs w s shut := by cases w <;> simp [shut.1,shut.2]
  endedRecv s n shut := by simp [shut.1,shut.2]
  endedSend s data shut := shut

-- The loop that the trait has for every stream; a `write` that takes nothing ends it by a panic.
def writeLoop {S W : Type} (tcp : TcpSocket S W) (s : SmolTcpStream S W) (buf : Bytes) :
    Outcome SmolTcpError Unit × SmolTcpStream S W :=
  if buf = [] then (.ok (),s) else match write tcp s buf with
    | (.ok n,s) => if n = 0 then (.panic,s) else writeLoop tcp s (buf.drop n)
    | (.err e,s) => (.err e,s)
    | (.panic,s) => (.panic,s)
    | (.pending,s) => (.pending,s)
termination_by buf.length
decreasing_by
  have some := List.length_pos_iff.mpr ‹¬ buf = []›
  simp only [List.length_drop]
  omega

def written {S W : Type} (tcp : TcpSocket S W) : WriteAll tcp where
  writeAll := writeLoop tcp
  nothing s := by rw [writeLoop, if_pos rfl]
  more s buf n next some wrote positive := by
    conv => lhs; rw [writeLoop, if_neg some]
    simp only [wrote, if_neg (Nat.ne_of_gt positive)]
  fails s buf e next some wrote := by
    rw [writeLoop, if_neg some]
    simp only [wrote]
  waits s buf next some wrote := by
    rw [writeLoop, if_neg some]
    simp only [wrote]

end Nanofish.Smoltcp

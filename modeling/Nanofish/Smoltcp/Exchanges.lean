import Nanofish.ServeLoop
import Nanofish.Smoltcp.Adapter
import Nanofish.Streams.Flushes

/-! The client and the server over sockets of smoltcp: the adapter is a stream, so what is
proved of exchanges holds, and success means that the peer has acknowledged the message. -/
namespace Nanofish.Smoltcp
open Rust Rust.Utf8 Rust.Reads Rust.Polling
open Protocol Codes Response Client Request Server Serving Messages Exchanges Streams

section Stream
variable {S W : Type} (tcp : TcpSocket S W) (all : WriteAll tcp)

def forget {α : Type} : Outcome SmolTcpError α → Outcome Unit α
  | .ok a => .ok a
  | .err _ => .err ()
  | .panic => .panic
  | .pending => .pending

theorem forgetOk {α : Type} {x : Outcome SmolTcpError α} {a : α} : forget x = .ok a ↔
    x = .ok a := by cases x <;> simp [forget]

theorem forgetPanic {α : Type} {x : Outcome SmolTcpError α} : forget x = .panic ↔ x = .panic := by
  cases x <;> simp [forget]

def smolTcpIo : Io (LinkedStream tcp) where
  read s n := (forget (read tcp s.1 n).1,⟨(read tcp s.1 n).2,readLinked tcp s.2 n⟩)
  writeAll s data := (forget (all.writeAll s.1 data).1,⟨(all.writeAll s.1 data).2,by
    obtain ⟨_,_,_,moved,_⟩ := writeAllRule tcp all data (startsAt tcp s.2)
    exact moved.linked⟩)
  flush s := (forget (flush tcp s.1).1,⟨(flush tcp s.1).2,(flushRule tcp (startsAt tcp s.2)).1.linked⟩)
  got s := s.1.got
  sent s := s.1.sent
  reads s n := by
    have rule := readRule tcp (startsAt tcp s.2) n
    cases result : (read tcp s.1 n).1 with
    | ok d =>
      rw [result] at rule
      exact ⟨by simp [forget],rule.2.1,rule.1.got,rule.1.sent⟩
    | err e =>
      rw [result] at rule
      exact ⟨by simp [forget],Nat.zero_le _,rule.got.trans (List.append_nil _).symm,rule.sent⟩
    | panic => rw [result] at rule; exact rule.elim
    | pending =>
      rw [result] at rule
      exact ⟨by simp [forget],Nat.zero_le _,rule.got.trans (List.append_nil _).symm,rule.sent⟩
  writes s data := by
    obtain ⟨calm,part,front,moved,whole⟩ := writeAllRule tcp all data (startsAt tcp s.2)
    exact ⟨fun same => calm (forgetPanic.mp same),moved.got,part,front,moved.sent,fun done =>
      whole (forgetOk.mp done)⟩
  flushes s := by
    obtain ⟨moved,calm,_⟩ := flushRule tcp (startsAt tcp s.2)
    exact ⟨fun same => calm (forgetPanic.mp same),moved.got,moved.sent⟩

end Stream

section Acknowledged
variable {S W : Type} (tcp : TcpSocket S W) (all : WriteAll tcp)

def Acked (whole : Bytes) (s : LinkedStream tcp) : Prop := s.1.sent = whole ∧ s.1.left = whole

theorem flushAcks {u v : LinkedStream tcp} (ok : (smolTcpIo tcp all).flush u = (.ok (),v)) :
    Acked tcp v.1.sent v := by
  have moved := flushRule tcp (startsAt tcp u.2)
  have same : (⟨(flush tcp u.1).2,moved.1.linked⟩ : LinkedStream tcp) = v := congrArg Prod.snd ok
  have empty := moved.2.2 (forgetOk.mp (congrArg Prod.fst ok))
  have outbound := moved.1.linked.outbound
  rw [empty, List.append_nil] at outbound
  exact ⟨rfl,by rw [← same]; exact outbound.symm⟩

theorem readAcks {whole : Bytes} (s : LinkedStream tcp) (n : Nat) (here : Acked tcp whole s) :
    Acked tcp whole ((smolTcpIo tcp all).read s n).2 := by
  have kept : At tcp s.1.left (s.1.got ++ taken ((smolTcpIo tcp all).read s n).1) s.1.sent
      (read tcp s.1 n).2 := by
    have rule := readRule tcp (startsAt tcp s.2) n
    simp only [smolTcpIo]
    cases result : (read tcp s.1 n).1 with
    | ok d => rw [result] at rule; exact rule.1
    | err e => rw [result] at rule; simpa [forget,taken] using rule
    | panic => rw [result] at rule; exact rule.elim
    | pending => rw [result] at rule; simpa [forget,taken] using rule
  obtain ⟨sent,left⟩ := here
  have acked := kept.acked
  have outbound : (read tcp s.1 n).2.left <+: (read tcp s.1 n).2.sent := ⟨_,kept.linked.outbound.symm⟩
  rw [kept.sent, sent] at outbound
  rw [left] at acked
  exact ⟨kept.sent.trans sent,outbound.eq_of_length_le acked.length_le⟩

end Acknowledged

theorem smolAcknowledged (t : Target) {S W τ : Type} (tcp : TcpSocket S W) (all : WriteAll tcp)
    (s : LinkedStream tcp) :
    (∀ RQ maxRetries request buffer,
      let run := requestOn t (smolTcpIo tcp all) RQ maxRetries s request buffer
      ∀ given, run.result = .ok given → Acked tcp (s.1.sent ++ requestWire request) run.state) ∧
    ∀ REQ_SIZE MAX_RESPONSE_SIZE (handler : Handler τ) state,
      let served := handleOn t (smolTcpIo tcp all) REQ_SIZE MAX_RESPONSE_SIZE handler state s
      served.result = .ok () → ∃ request, served.handled = [request] ∧
        Acked tcp (s.1.sent ++ responseWire (answer (handler state request).1)) served.state := by
  constructor
  · intro RQ maxRetries request buffer run given ok
    obtain ⟨u,v,flushed,sent,last⟩ := requestFlushed t (smolTcpIo tcp all) ok
    have grown : v.1.sent = s.1.sent ++ requestWire request := sent
    have acked := flushAcks tcp all flushed
    rw [grown] at acked
    have kept := responseKeeps t (smolTcpIo tcp all) (readAcks tcp all) acked ⟨buffer,0,maxRetries,0⟩
    rw [show run.state = _ from last]
    exact kept
  · intro REQ_SIZE MAX_RESPONSE_SIZE handler state served ok
    obtain ⟨request,u,handled,flushed,sent⟩ := servedFlushed t (smolTcpIo tcp all) ok
    have grown : served.state.1.sent = s.1.sent ++
      responseWire (answer (handler state request).1) := sent
    have acked := flushAcks tcp all flushed
    rw [show (handleOn t (smolTcpIo tcp all) REQ_SIZE MAX_RESPONSE_SIZE handler state
      s).state.1.sent = _ from grown] at acked
    exact ⟨request,handled,acked⟩

def created : Handler Nat := fun calls _ => (.ok ⟨.created,Vec.new,.binary [48]⟩,calls + 1)

theorem smolAcknowledgedShort :
    let down := responseWire (answer (created 0 (delivered ServeLoop.postHi)).1)
    let near := SmolTcpStream.new buffers ⟨20,[],[],false⟩
      (List.replicate 8 (.ack 20) ++ [.deliver (down.take 9),.deliver (down.drop 9)])
    let run :=
      requestOn .bits32 (smolTcpIo buffers (written buffers)) 128 5 near ServeLoop.postHi
        (List.replicate 128 0)
    let far := SmolTcpStream.new buffers ⟨64,[],[],false⟩
      [.deliver (requestWire ServeLoop.postHi),.ack 0,.ack 50]
    let served := handleOn .bits32 (smolTcpIo buffers (written buffers)) 128 128 created 0 far
    Acked buffers (requestWire ServeLoop.postHi) run.state ∧ ∃ request, served.handled = [request] ∧
      Acked buffers (responseWire (answer (created 0 request).1)) served.state := by
  intro down near run far served
  obtain ⟨client,_⟩ := smolAcknowledged (τ := Nat) .bits32 buffers (written buffers) near
  obtain ⟨_,server⟩ := smolAcknowledged (τ := Nat) .bits32 buffers (written buffers) far
  have answered :
      run.result = .ok (received (answer (created 0 (delivered ServeLoop.postHi)).1),44) := by
    decide +kernel
  have ended : served.result = .ok () := by decide +kernel
  exact ⟨client 128 5 ServeLoop.postHi (List.replicate 128 0) _ answered,server 128 128 created 0 ended⟩

/- Both ends of a connection on sockets of smoltcp. What the interface of one end
delivers is a front of what the other end's stream has taken: that much is TCP's. -/
theorem smolExchangeSafe (t : Target) {S S' W W' τ : Type} (near : TcpSocket S W)
    (far : TcpSocket S' W') (allNear : WriteAll near) (allFar : WriteAll far)
    (RQ maxRetries REQ_SIZE MAX_RESPONSE_SIZE : Nat) (real : REQ_SIZE ≤ t.isizeMax)
    (handler : Handler τ) (state : τ) (req : HttpClientRequest) (good : Sendable t req)
    (able : Answerable t (answer (handler state (delivered req)).1)) (s : LinkedStream near)
    (p : LinkedStream far) (buffer : Bytes) (nearFresh : s.1.got = [] ∧ s.1.sent = [])
    (farFresh : p.1.got = [] ∧ p.1.sent = []) :
    let run := requestOn t (smolTcpIo near allNear) RQ maxRetries s req buffer
    let served := handleOn t (smolTcpIo far allFar) REQ_SIZE MAX_RESPONSE_SIZE handler state p
    served.state.1.came <+: run.state.1.sent → run.state.1.came <+: served.state.1.sent →
    (served.handled = [] ∨ served.handled = [delivered req]) ∧
    ∀ response total, run.result = .ok (response,total) → served.handled = [delivered req] ∧
      response = received (answer (handler state (delivered req)).1) := by
  intro run served up down
  have farGot : served.state.1.got <+: served.state.1.came := ⟨_,served.state.2.inbound.symm⟩
  have nearGot : run.state.1.got <+: run.state.1.came := ⟨_,run.state.2.inbound.symm⟩
  obtain ⟨once,kept⟩ :=
    streamsSafe t (smolTcpIo near allNear) (smolTcpIo far allFar) RQ maxRetries REQ_SIZE
      MAX_RESPONSE_SIZE real handler state req good able s p buffer nearFresh farFresh
      (farGot.trans up) (nearGot.trans down)
  exact ⟨once,fun response total ok => ⟨(kept response total ok).1,(kept response total ok).2.1⟩⟩

theorem smolExchangeSafeShort :
    let up := requestWire ServeLoop.postHi
    let down := responseWire (answer (created 0 (delivered ServeLoop.postHi)).1)
    let near := SmolTcpStream.new buffers ⟨20,[],[],false⟩
      (List.replicate 8 (.ack 20) ++ [.deliver (down.take 9),.deliver (down.drop 9)])
    let far := SmolTcpStream.new buffers ⟨64,[],[],false⟩
      [.deliver (up.take 30),.deliver (up.drop 30),.ack 0,.ack 50]
    let run :=
      requestOn .bits32 (smolTcpIo buffers (written buffers)) 128 5 near ServeLoop.postHi
        (List.replicate 128 0)
    let served := handleOn .bits32 (smolTcpIo buffers (written buffers)) 128 128 created 0 far
    served.handled = [delivered ServeLoop.postHi] ∧
    run.result = .ok (received (answer (created 0 (delivered ServeLoop.postHi)).1),44) := by
  intro up down near far run served
  obtain ⟨good,able,there,back,ok⟩ : Sendable .bits32 ServeLoop.postHi ∧
      Answerable .bits32 (answer (created 0 (delivered ServeLoop.postHi)).1) ∧
      served.state.1.came <+: run.state.1.sent ∧ run.state.1.came <+: served.state.1.sent ∧
      run.result = .ok (received (answer (created 0 (delivered ServeLoop.postHi)).1),44) := by
    decide +kernel
  obtain ⟨_,kept⟩ :=
    smolExchangeSafe .bits32 buffers buffers (written buffers) (written buffers) 128 5 128 128
      (by decide) created 0 ServeLoop.postHi good able near far (List.replicate 128 0) ⟨rfl,rfl⟩
      ⟨rfl,rfl⟩ there back
  exact ⟨(kept _ _ ok).1,ok⟩

end Nanofish.Smoltcp

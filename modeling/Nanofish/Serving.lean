import Nanofish.Sending
import Nanofish.Accepting

/-! One connection from its first read to its last write. Every exit before `write_all`
leaves the stream's output as it was, and there is one `write_all`. -/
namespace Nanofish.Serving
open Rust Rust.Utf8 Rust.Text Rust.Reads
open Protocol Codes Response Client Request Server Sending

def internalError : HttpResponse :=
  ⟨.internalServerError,⟨[⟨"Content-Type".toList,"text/plain".toList⟩],by decide⟩,
    .text "Internal Server Error".toList⟩

def answer : Except Error HttpResponse → HttpResponse
  | .ok response => response
  | .error _ => internalError

section Connection
variable (t : Target) {σ : Type} (REQ_SIZE MAX_RESPONSE_SIZE : Nat) (handler : Handler σ)
  (state : σ) (stream : Stream)

def accepted : Outcome Error HttpRequest := do
  let totalRead ← (readRequest t stream.reads (List.replicate REQ_SIZE 0)).result
  let data ← sliceTo (readRequest t stream.reads (List.replicate REQ_SIZE 0)).buf totalRead
  HttpRequest.tryFrom data

def reply (q : HttpRequest) : Served :=
  match (answer (handler state q).1).buildBytes MAX_RESPONSE_SIZE with
  | .err e => ⟨.err e,[q],stream.written⟩
  | .panic => ⟨.panic,[q],stream.written⟩
  | .pending => ⟨.pending,[q],stream.written⟩
  | .ok response => match send stream response.items none with
    | (false,stream) => ⟨.err .tcpError,[q],stream.written⟩
    | (true,stream) => ⟨.ok (),[q],stream.written⟩

theorem servedExact : handleHttpConnectionWithSizes t REQ_SIZE MAX_RESPONSE_SIZE handler state stream =
    match accepted t REQ_SIZE stream with
    | .err e => ⟨.err e,[],stream.written⟩
    | .panic => ⟨.panic,[],stream.written⟩
    | .pending => ⟨.pending,[],stream.written⟩
    | .ok q => reply MAX_RESPONSE_SIZE handler state stream q := by
  unfold handleHttpConnectionWithSizes
  cases request : accepted t REQ_SIZE stream with
  | err e => unfold accepted at request; simp only [request]
  | panic => unfold accepted at request; simp only [request]
  | pending => unfold accepted at request; simp only [request]
  | ok q =>
    unfold accepted at request
    simp only [request, reply]
    cases (handler state q).1 <;> rfl

theorem servedNone (none : ∀ q, accepted t REQ_SIZE stream ≠ .ok q) :
    let served := handleHttpConnectionWithSizes t REQ_SIZE MAX_RESPONSE_SIZE handler state stream
    served.handled = [] ∧ served.result ≠ .ok () ∧ served.written = stream.written := by
  intro served
  have whole : served = _ := servedExact t REQ_SIZE MAX_RESPONSE_SIZE handler state stream
  rw [whole]
  cases request : accepted t REQ_SIZE stream with
  | ok q => exact absurd request (none q)
  | err e => exact ⟨rfl,by simp,rfl⟩
  | panic => exact ⟨rfl,by simp,rfl⟩
  | pending => exact ⟨rfl,by simp,rfl⟩

theorem acceptedSource {q : HttpRequest} (ok : accepted t REQ_SIZE stream = .ok q) :
    ∃ total, (readRequest t stream.reads (List.replicate REQ_SIZE 0)).result = .ok total ∧
      HttpRequest.tryFrom
        ((readRequest t stream.reads (List.replicate REQ_SIZE 0)).buf.take total) = .ok q := by
  obtain ⟨total,read,ok⟩ := Outcome.bindOk.mp ok
  obtain ⟨data,sliced,parsed⟩ := Outcome.bindOk.mp ok
  refine ⟨total,read,?_⟩
  unfold sliceTo at sliced
  split at sliced
  · cases sliced; exact parsed
  · contradiction

theorem sourceAccepted {total : Nat} {q : HttpRequest}
    (read : (readRequest t stream.reads (List.replicate REQ_SIZE 0)).result = .ok total)
    (parsed : HttpRequest.tryFrom
      ((readRequest t stream.reads (List.replicate REQ_SIZE 0)).buf.take total) = .ok q) :
    accepted t REQ_SIZE stream = .ok q := by
  have inside : total ≤ (readRequest t stream.reads (List.replicate REQ_SIZE 0)).buf.length :=
    Accepting.requestInside t stream.reads (Nat.zero_le _) total read
  rw [accepted, read, Outcome.okBind, sliceToFits inside, Outcome.okBind, parsed]

theorem replyHandled (q : HttpRequest) :
    (reply MAX_RESPONSE_SIZE handler state stream q).handled = [q] := by
  unfold reply
  split
  · rfl
  · rfl
  · rfl
  · split <;> rfl

theorem replyUnbuilt {q : HttpRequest}
    (failed : ∀ b, (answer (handler state q).1).buildBytes MAX_RESPONSE_SIZE ≠ .ok b) :
    (reply MAX_RESPONSE_SIZE handler state stream q).written = stream.written ∧
      (reply MAX_RESPONSE_SIZE handler state stream q).result ≠ .ok () := by
  unfold reply
  split
  · exact ⟨rfl,by simp⟩
  · exact ⟨rfl,by simp⟩
  · exact ⟨rfl,by simp⟩
  · rename_i b built
    exact absurd built (failed b)

theorem replyBuilt {q : HttpRequest} {b : Vec UInt8 MAX_RESPONSE_SIZE}
    (built : (answer (handler state q).1).buildBytes MAX_RESPONSE_SIZE = .ok b) :
    ∃ part, part <+: b.items ∧
      (reply MAX_RESPONSE_SIZE handler state stream q).written = stream.written ++ part ∧
      ((reply MAX_RESPONSE_SIZE handler state stream q).result = .ok () → part = b.items) ∧
      ((∀ w ∈ stream.writes, w = .accept) →
        (reply MAX_RESPONSE_SIZE handler state stream q).result = .ok () ∧ part = b.items) := by
  obtain ⟨part,front,written,whole⟩ := sendTaken stream b.items
  refine ⟨part,front,?_⟩
  simp only [reply, built]
  rcases sent : send stream b.items none with ⟨_ | _,s⟩
  · rw [sent] at written
    refine ⟨written,fun done => by contradiction,fun clear => ?_⟩
    obtain ⟨rest,wrote⟩ := sendClear stream clear b.items none
    rw [sent] at wrote
    cases wrote
  · rw [sent] at written whole
    exact ⟨written,fun _ => whole rfl,fun _ => ⟨rfl,whole rfl⟩⟩

end Connection

theorem oneWholeResponse (t : Target) {σ : Type} (REQ_SIZE MAX_RESPONSE_SIZE : Nat)
    (handler : Handler σ) (state : σ) (stream : Stream) :
    let run := readRequest t stream.reads (List.replicate REQ_SIZE 0)
    let served := handleHttpConnectionWithSizes t REQ_SIZE MAX_RESPONSE_SIZE handler state stream
    served.handled.length ≤ 1 ∧
    (∀ q ∈ served.handled, ∃ total, run.result = .ok total ∧
      HttpRequest.tryFrom (run.buf.take total) = .ok q) ∧
    (∀ total q, run.result = .ok total → HttpRequest.tryFrom (run.buf.take total) = .ok q →
      served.handled = [q]) ∧
    (served.handled = [] → served.result ≠ .ok () ∧ served.written = stream.written) ∧
    ∀ q ∈ served.handled,
      ((∀ b, (answer (handler state q).1).buildBytes MAX_RESPONSE_SIZE ≠ .ok b) →
        served.result ≠ .ok () ∧ served.written = stream.written) ∧
      ∀ b, (answer (handler state q).1).buildBytes MAX_RESPONSE_SIZE = .ok b →
        ∃ part, part <+: b.items ∧ served.written = stream.written ++ part ∧
        (served.result = .ok () → part = b.items) ∧
          ((∀ w ∈ stream.writes, w = .accept) → served.result = .ok () ∧ part = b.items) := by
  intro run served
  by_cases some : ∃ q, accepted t REQ_SIZE stream = .ok q
  · obtain ⟨q,request⟩ := some
    have whole : served = reply MAX_RESPONSE_SIZE handler state stream q := by
      simp only [served, servedExact t REQ_SIZE MAX_RESPONSE_SIZE handler state stream, request]
    have handled := replyHandled MAX_RESPONSE_SIZE handler state stream q
    rw [whole, handled]
    refine ⟨by simp,fun p mem => ?_,fun total p read parsed => ?_,by simp,fun p mem => ?_⟩
    · rw [List.mem_singleton.mp mem]
      exact acceptedSource t REQ_SIZE stream request
    · cases request.symm.trans (sourceAccepted t REQ_SIZE stream read parsed)
      rfl
    · rw [List.mem_singleton.mp mem]
      exact ⟨fun failed => (replyUnbuilt MAX_RESPONSE_SIZE handler state stream failed).symm,
        fun b built => replyBuilt MAX_RESPONSE_SIZE handler state stream built⟩
  · obtain ⟨handled,failed,kept⟩ :=
      servedNone t REQ_SIZE MAX_RESPONSE_SIZE handler state stream fun q request => some ⟨q,request⟩
    have none : served.handled = [] := handled
    rw [none]
    exact ⟨by simp,by simp,
      fun total q read parsed => absurd ⟨q,sourceAccepted t REQ_SIZE stream read parsed⟩ some,
      fun _ => ⟨failed,kept⟩,by simp⟩

theorem oneWholeResponseHi :
    let handler : Handler Unit := fun state _ => (.ok ⟨.ok,Vec.new,.text "hi".toList⟩,state)
    let stream : Stream :=
      ⟨[.data (asBytes "GET / HTTP/1.1\r\n".toList),.data (asBytes "\r\n".toList)],[],[]⟩
    let served := handleHttpConnectionWithSizes .bits32 32 64 handler () stream
    served.handled = [⟨.GET,"/".toList,"HTTP/1.1".toList,Vec.new,[]⟩] ∧ served.result = .ok () ∧
      served.written = asBytes "HTTP/1.1 200 OK\r\nContent-Length: 2\r\n\r\nhi".toList := by
  intro handler stream served
  obtain ⟨_,_,called,_,replied⟩ := oneWholeResponse .bits32 32 64 handler () stream
  have handled : served.handled = [⟨.GET,"/".toList,"HTTP/1.1".toList,Vec.new,[]⟩] :=
    called 18 _ (by decide +kernel) (by decide +kernel)
  obtain ⟨part,_,written,_,clear⟩ := (replied _ (by rw [handled]; exact List.mem_cons_self)).2
    ⟨asBytes "HTTP/1.1 200 OK\r\nContent-Length: 2\r\n\r\nhi".toList,by decide +kernel⟩
      (by decide +kernel)
  obtain ⟨done,whole⟩ := clear (by simp [stream])
  exact ⟨handled,done,by rw [written, whole]; rfl⟩

end Nanofish.Serving

import Nanofish.Streams.Scripts

/-! What success says of the stream: the message has been written whole, and the last call
behind it was a flush that went through. -/
namespace Nanofish.Streams
open Rust Rust.Utf8 Rust.Reads
open Protocol Codes Response Codec Client Request Server Serving Messages Exchanges

section Flushed
variable (t : Target) {σ : Type} (io : Io σ)

theorem andThenFirst {done : Outcome Unit Unit × σ} {next : σ → Outcome Unit Unit × σ}
    (ok : (andThen done next).1 = .ok ()) :
    done.1 = .ok () := by
  by_contra failed
  rw [andThenFailed failed] at ok
  exact failed ok

theorem writeWhole {s : σ} {data : Bytes} (ok : (io.writeAll s data).1 = .ok ()) :
    io.sent (io.writeAll s data).2 = io.sent s ++ data := by
  obtain ⟨_,_,part,_,wrote,whole⟩ := io.writes s data
  rw [wrote, whole ok]

theorem sendFlushed {s : σ} {head : Bytes} {body : Option Bytes}
    (ok : (sendOn io s head body).1 = .ok ()) :
    ∃ u, io.flush u = (.ok (),(sendOn io s head body).2) ∧
      io.sent (sendOn io s head body).2 = io.sent s ++ (head ++ body.getD []) := by
  unfold sendOn at ok ⊢
  have first := andThenFirst ok
  have start := writeWhole io first
  rw [andThenOk first] at ok ⊢
  generalize (io.writeAll s head).2 = u at ok start ⊢
  have flushed {v : σ} (done : (io.flush v).1 = .ok ()) : io.flush v = (.ok (),(io.flush v).2) ∧
      io.sent (io.flush v).2 = io.sent v := ⟨Prod.ext done rfl,(io.flushes v).2.2⟩
  cases body with
  | none =>
    rw [andThenOk rfl] at ok ⊢
    obtain ⟨same,kept⟩ := flushed ok
    exact ⟨u,same,kept.trans (start.trans (by simp))⟩
  | some data =>
    have second := andThenFirst ok
    rw [andThenOk second] at ok ⊢
    obtain ⟨same,kept⟩ := flushed ok
    refine ⟨_,same,kept.trans ?_⟩
    rw [writeWhole io second, start, List.append_assoc, Option.getD_some]

theorem responseKeeps {Keep : σ → Prop} (keeps : ∀ s n, Keep s → Keep (io.read s n).2) {s : σ}
    (here : Keep s) (st : ReadState) :
    Keep (readLoopOn t io s st).2 := by
  have moved {s next : σ} {n : Nat} {found : Outcome Unit Bytes} (read : io.read s n = (found,next))
      (here : Keep s) : Keep next := by
    have kept := keeps s n here
    rwa [read] at kept
  fun_induction readLoopOn t io s st with
  | case1 s st more next read => exact moved read here
  | case2 s st more next read => exact moved read here
  | case3 s st more e next read last => exact moved read here
  | case4 s st more e next read last ih => exact ih (moved read here)
  | case5 s st more fragment next read none => exact moved read here
  | case6 s st more fragment next read solid buffer totalRead done => exact moved read here
  | case7 s st more fragment next read solid buffer totalRead done ih => exact ih (moved read here)
  | case8 s st full => exact here

theorem requestFlushed {RQ maxRetries : Nat} {s : σ} {request : HttpClientRequest} {buffer : Bytes}
    {given : HttpResponse × Nat}
    (ok : (requestOn t io RQ maxRetries s request buffer).result = .ok given) :
    ∃ u v, io.flush u = (.ok (),v) ∧ io.sent v = io.sent s ++ requestWire request ∧
      (requestOn t io RQ maxRetries s request buffer).state =
        (readResponseOn t io v buffer maxRetries).2 := by
  unfold requestOn at ok ⊢
  cases built : buildReq RQ request.method request.host request.path request.headers request.body with
  | err e => rw [built] at ok; contradiction
  | panic => rw [built] at ok; contradiction
  | pending => rw [built] at ok; contradiction
  | ok head =>
    simp only [built] at ok ⊢
    rcases done : sendOn io s head.items request.body with ⟨_ | e | _ | _,v⟩
    case ok =>
      obtain ⟨u,flushed,sent⟩ :=
        sendFlushed io (show (sendOn io s head.items request.body).1 = .ok () by rw [done])
      rw [done] at flushed sent
      exact ⟨u,v,flushed,by rw [sent, requestBuilt built],rfl⟩
    all_goals
      rw [done] at ok
      contradiction

theorem servedFlushed {τ : Type} {REQ_SIZE MAX_RESPONSE_SIZE : Nat} {handler : Handler τ}
    {state : τ} {s : σ}
    (ok : (handleOn t io REQ_SIZE MAX_RESPONSE_SIZE handler state s).result = .ok ()) :
    let served := handleOn t io REQ_SIZE MAX_RESPONSE_SIZE handler state s
    ∃ request u, served.handled = [request] ∧ io.flush u = (.ok (),served.state) ∧
      io.sent served.state = io.sent s ++ responseWire (answer (handler state request).1) := by
  obtain ⟨_,found,_⟩ := requestScripted t io s ⟨List.replicate REQ_SIZE 0,0,none⟩
  have quiet : io.sent (readRequestOn t io s (List.replicate REQ_SIZE 0)).2 = io.sent s :=
    (foundMoves io found).2
  have whole := handledExact t io REQ_SIZE MAX_RESPONSE_SIZE handler state s
  cases asked : acceptedOn t io REQ_SIZE s with
  | ok q =>
    simp only [asked] at whole
    cases response : (answer (handler state q).1).buildBytes MAX_RESPONSE_SIZE with
    | ok b =>
      simp only [response] at whole
      rw [whole] at ok ⊢
      generalize (readRequestOn t io s (List.replicate REQ_SIZE 0)).2 = u at ok quiet ⊢
      have done : (sendOn io u b.items none).1 = .ok () := by
        cases result : (sendOn io u b.items none).1 <;> simp [result,tcpResult] at ok ⊢
      obtain ⟨w,flushed,sent⟩ := sendFlushed io done
      refine ⟨q,w,rfl,flushed,?_⟩
      rw [sent, quiet, Option.getD_none, List.append_nil, RoundTrip.buildBytesBlock response]
      rfl
    | _ =>
      simp only [response] at whole
      rw [whole] at ok
      contradiction
  | _ =>
    simp only [asked] at whole
    rw [whole] at ok
    contradiction

end Flushed

end Nanofish.Streams

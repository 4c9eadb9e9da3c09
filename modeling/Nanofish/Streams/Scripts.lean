import Nanofish.Streams.Loops

/-! What a stream answered, call by call, as a script. The loops over the stream are the
scripted ones over these answers. -/
namespace Nanofish.Streams
open Rust Rust.Utf8 Rust.Reads
open Protocol Codes Response Codec Client Request Server Serving Messages Exchanges

section Scripts
variable (t : Target) {σ : Type} (io : Io σ)

theorem readMoves {s next : σ} {n : Nat} {found : Outcome Unit Bytes}
    (read : io.read s n = (found,next)) :
    found ≠ .panic ∧ io.got next = io.got s ++ taken found ∧ io.sent next = io.sent s := by
  obtain ⟨calm,_,got,sent⟩ := io.reads s n
  rw [read] at calm got sent
  exact ⟨calm,got,sent⟩

/- Reads one after the other, and what each of them found. One that finds nothing or waits
for ever is the last. -/
inductive Found : σ → List (ReadEvent UInt8) → σ → Prop
  | none (s : σ) : Found s [] s
  | waits {s next : σ} {n : Nat} : io.read s n = (.pending,next) → Found s [] next
  | ends {s next : σ} {n : Nat} : io.read s n = (.ok [],next) → Found s [.data []] next
  | fails {s next last : σ} {n : Nat} {e : Unit} {events : List (ReadEvent UInt8)} :
      io.read s n = (.err e,next) → Found next events last → Found s (.fault :: events) last
  | finds {s next last : σ} {n : Nat} {fragment : Bytes} {events : List (ReadEvent UInt8)} :
      io.read s n = (.ok fragment,next) → fragment ≠ [] → Found next events last →
      Found s (.data fragment :: events) last

theorem foundMoves {s last : σ} {events : List (ReadEvent UInt8)} (found : Found io s events last) :
    io.got last = io.got s ++ arrived events ∧ io.sent last = io.sent s := by
  induction found with
  | none s => exact ⟨(List.append_nil _).symm,rfl⟩
  | waits read => exact (readMoves io read).2
  | ends read => exact (readMoves io read).2
  | fails read _ ih =>
    obtain ⟨_,got,sent⟩ := readMoves io read
    refine ⟨ih.1.trans ?_,ih.2.trans sent⟩
    rw [got]
    exact congrArg (· ++ arrived _) (List.append_nil _)
  | finds read solid _ ih =>
    obtain ⟨_,got,sent⟩ := readMoves io read
    refine ⟨ih.1.trans ?_,ih.2.trans sent⟩
    rw [got, arrivedFragment solid, List.append_assoc]
    rfl

def Waits (last : σ) : Prop := (∃ s n, io.read s n = (.pending,last)) ∨
  (∃ s data, io.writeAll s data = (.pending,last)) ∨ ∃ s, io.flush s = (.pending,last)

theorem responseWaits {st : ReadState} (more : st.totalRead < st.buffer.length ∧ 0 < st.retries) :
    (readLoop t [] st).result = .pending := by
  rw [readLoop.eq_def, if_pos more]

/- The loop over a stream is the loop over what its reads found: it needs every one of them,
and no more, unless it waits for one. -/
theorem responseScripted (s : σ) (st : ReadState) :
    ∃ events, Found io s events (readLoopOn t io s st).2 ∧
    (readLoopOn t io s st).1 = readLoop t events st ∧
    (∀ k < events.length, (readLoop t (events.take k) st).result = .pending) ∧
    (Waits io (readLoopOn t io s st).2 ∨ ∀ more,
      readLoop t (events ++ more) st = readLoop t events st) := by
  fun_induction readLoopOn t io s st with
  | case1 s st more next read =>
    exact ⟨[],.waits read,by rw [readLoop.eq_def, if_pos more],by simp,.inl (.inl ⟨s,_,read⟩)⟩
  | case2 s st more next read => exact absurd rfl (readMoves io read).1
  | case3 s st more e next read last =>
    have step (rest : List (ReadEvent UInt8)) :
        readLoop t (.fault :: rest) st = ⟨.err .tcpError,st.buffer,st.delays⟩ := by
      rw [readLoop.eq_def, if_pos more]
      exact if_pos last
    refine ⟨[.fault],.fails read (.none next),(step []).symm,fun k short => ?_,
      .inr fun rest => (step rest).trans (step []).symm⟩
    rw [Nat.lt_one_iff.mp short]
    exact responseWaits t more
  | case4 s st more e next read last ih =>
    obtain ⟨events,found,same,needed,enough⟩ := ih
    have step (rest : List (ReadEvent UInt8)) : readLoop t (.fault :: rest) st =
        readLoop t rest { st with retries := st.retries - 1, delays := st.delays + 1 } := by
      rw [readLoop.eq_def, if_pos more]
      exact if_neg last
    refine ⟨.fault :: events,.fails read found,by rw [same, step],fun k short => ?_,
      enough.imp_right fun all rest => by rw [List.cons_append, step, step, all]⟩
    cases k with
    | zero => exact responseWaits t more
    | succ k => rw [List.take_succ_cons, step]; exact needed k (Nat.lt_of_succ_lt_succ short)
  | case5 s st more fragment next read none =>
    obtain rfl := List.length_eq_zero_iff.mp none
    have step (rest : List (ReadEvent UInt8)) :
        readLoop t (.data [] :: rest) st = readEnd t st true := by
      rw [readLoop.eq_def, if_pos more]
      simp only [List.take_nil, List.length_nil, if_true]
    refine ⟨[.data []],.ends read,(step []).symm,fun k short => ?_,.inr fun rest =>
      (step rest).trans (step []).symm⟩
    rw [Nat.lt_one_iff.mp short]
    exact responseWaits t more
  | case6 s st more fragment next read solid buffer totalRead done =>
    have step (rest : List (ReadEvent UInt8)) :
        readLoop t (.data fragment :: rest) st = ⟨.ok totalRead,buffer,st.delays⟩ := by
      rw [readLoop.eq_def, if_pos more]
      simp only [List.take_of_length_le (readWithin io read), solid, if_false]
      exact if_pos done
    refine ⟨[.data fragment],.finds read (by simpa using solid) (.none next),(step []).symm,
      fun k short => ?_,
      .inr fun rest => (step rest).trans (step []).symm⟩
    rw [Nat.lt_one_iff.mp short]
    exact responseWaits t more
  | case7 s st more fragment next read solid buffer totalRead done ih =>
    obtain ⟨events,found,same,needed,enough⟩ := ih
    have step (rest : List (ReadEvent UInt8)) : readLoop t (.data fragment :: rest) st =
        readLoop t rest { st with buffer := buffer, totalRead := totalRead } := by
      rw [readLoop.eq_def, if_pos more]
      simp only [List.take_of_length_le (readWithin io read), solid, if_false]
      exact if_neg done
    refine ⟨.data fragment :: events,.finds read (by simpa using solid) found,
      by rw [same, step],fun k short => ?_,
      enough.imp_right fun all rest => by rw [List.cons_append, step, step, all]⟩
    cases k with
    | zero => exact responseWaits t more
    | succ k => rw [List.take_succ_cons, step]; exact needed k (Nat.lt_of_succ_lt_succ short)
  | case8 s st full =>
    have step (rest : List (ReadEvent UInt8)) : readLoop t rest st = readEnd t st false := by
      rw [readLoop.eq_def, if_neg full]
    exact ⟨[],.none s,(step []).symm,by simp,.inr fun rest => (step rest).trans (step []).symm⟩

def headerSeen (st : RequestState) (fragment : Bytes) : Option Nat := match st.headerEnd with
  | some hdrEnd => some hdrEnd
  | none =>
    findDoubleCrlf ((overwrite st.buf st.totalRead fragment).take (st.totalRead + fragment.length))

theorem requestLoopRead {st : RequestState} (more : st.totalRead < st.buf.length) {fragment : Bytes}
    (solid : ¬ fragment.length = 0) (within : fragment.length ≤ st.buf.length - st.totalRead)
    (rest : List (ReadEvent UInt8)) :
    let buf := overwrite st.buf st.totalRead fragment
    let totalRead := st.totalRead + fragment.length
    readRequestLoop t (.data fragment :: rest) st = match headerSeen st fragment with
      | none => readRequestLoop t rest ⟨buf,totalRead,none⟩
      | some hdrEnd => match requestComplete t buf totalRead hdrEnd with
        | .ok true => ⟨.ok totalRead,buf⟩
        | .ok false => readRequestLoop t rest ⟨buf,totalRead,some hdrEnd⟩
        | .err e => ⟨.err e,buf⟩
        | .panic => ⟨.panic,buf⟩
        | .pending => ⟨.pending,buf⟩ := by
  intro buf totalRead
  rw [readRequestLoop.eq_def, if_pos more]
  simp only [List.take_of_length_le within, solid, if_false]
  rfl

theorem requestWaits {st : RequestState} (more : st.totalRead < st.buf.length) :
    (readRequestLoop t [] st).result = .pending := by
  rw [readRequestLoop.eq_def, if_pos more]

structure RequestScripted (s last : σ) (st : RequestState) (run : RequestRun)
    (events : List (ReadEvent UInt8)) : Prop where
  found : Found io s events last
  same : run = readRequestLoop t events st
  needed : ∀ k < events.length, (readRequestLoop t (events.take k) st).result = .pending
  enough : run.result = .pending ∧ Waits io last ∨
    ∀ more, readRequestLoop t (events ++ more) st = readRequestLoop t events st

theorem requestLast {s last : σ} {st : RequestState} {run : RequestRun} {event : ReadEvent UInt8}
    (more : st.totalRead < st.buf.length) (found : Found io s [event] last)
    (step : ∀ rest, readRequestLoop t (event :: rest) st = run) :
    RequestScripted t io s last st run [event] where
  found := found
  same := (step []).symm
  needed k short := by
    rw [Nat.lt_one_iff.mp short]
    exact requestWaits t more
  enough := .inr fun rest => (step rest).trans (step []).symm

theorem requestOnward {s next last : σ} {st st' : RequestState} {n : Nat} {fragment : Bytes}
    {run : RequestRun} {events : List (ReadEvent UInt8)} (more : st.totalRead < st.buf.length)
    (read : io.read s n = (.ok fragment,next)) (solid : ¬ fragment.length = 0)
    (step : ∀ rest, readRequestLoop t (.data fragment :: rest) st = readRequestLoop t rest st')
    (rest : RequestScripted t io next last st' run events) :
    RequestScripted t io s last st run (.data fragment :: events) where
  found := .finds read (by simpa using solid) rest.found
  same := by rw [step, rest.same]
  needed k short := by
    cases k with
    | zero => exact requestWaits t more
    | succ k => rw [List.take_succ_cons, step]; exact rest.needed k (Nat.lt_of_succ_lt_succ short)
  enough := rest.enough.imp_right fun all tail => by rw [List.cons_append, step, step, all]

theorem requestScripted (s : σ) (st : RequestState) : ∃ events,
    RequestScripted t io s (readRequestLoopOn t io s st).2 st (readRequestLoopOn t io s st).1
      events := by
  fun_induction readRequestLoopOn t io s st with
  | case1 s st more next read =>
    exact ⟨[],.waits read,by rw [readRequestLoop.eq_def, if_pos more],by simp,.inl ⟨rfl,.inl ⟨s,_,read⟩⟩⟩
  | case2 s st more next read => exact absurd rfl (readMoves io read).1
  | case3 s st more e next read =>
    exact ⟨[.fault],requestLast t io more (.fails read (.none next)) fun rest =>
      by rw [readRequestLoop.eq_def, if_pos more]⟩
  | case4 s st more fragment next read none =>
    obtain rfl := List.length_eq_zero_iff.mp none
    refine ⟨[.data []],requestLast t io more (.ends read) fun rest => ?_⟩
    rw [readRequestLoop.eq_def, if_pos more]
    simp only [List.take_nil, List.length_nil, if_true]
  | case5 s st more fragment next read solid buf totalRead headerEnd open' ih =>
    have seen : headerSeen st fragment = none := open'
    obtain ⟨events,rest⟩ := ih
    exact ⟨.data fragment :: events,requestOnward t io more read solid
      (fun rest => by rw [requestLoopRead t more solid (readWithin io read), seen]) rest⟩
  | case6 s st more fragment next read solid buf totalRead headerEnd hdrEnd found done =>
    have seen : headerSeen st fragment = some hdrEnd := found
    refine ⟨[.data fragment],requestLast t io more (.finds read (by simpa using solid) (.none next))
      fun rest => ?_⟩
    simp only [requestLoopRead t more solid (readWithin io read), seen]
    rw [show requestComplete t _ _ hdrEnd = _ from done]
  | case7 s st more fragment next read solid buf totalRead headerEnd hdrEnd found open' ih =>
    have seen : headerSeen st fragment = some hdrEnd := found
    obtain ⟨events,rest⟩ := ih
    refine ⟨.data fragment :: events,requestOnward t io more read solid (fun rest => ?_) rest⟩
    simp only [requestLoopRead t more solid (readWithin io read), seen]
    rw [show requestComplete t _ _ hdrEnd = _ from open']
  | case8 s st more fragment next read solid buf totalRead headerEnd hdrEnd found e failed =>
    have seen : headerSeen st fragment = some hdrEnd := found
    refine ⟨[.data fragment],requestLast t io more (.finds read (by simpa using solid) (.none next))
      fun rest => ?_⟩
    simp only [requestLoopRead t more solid (readWithin io read), seen]
    rw [show requestComplete t _ _ hdrEnd = _ from failed]
  | case9 s st more fragment next read solid buf totalRead headerEnd hdrEnd found failed =>
    have seen : headerSeen st fragment = some hdrEnd := found
    refine ⟨[.data fragment],requestLast t io more (.finds read (by simpa using solid) (.none next))
      fun rest => ?_⟩
    simp only [requestLoopRead t more solid (readWithin io read), seen]
    rw [show requestComplete t _ _ hdrEnd = _ from failed]
  | case10 s st more fragment next read solid buf totalRead headerEnd hdrEnd found waits =>
    have seen : headerSeen st fragment = some hdrEnd := found
    refine ⟨[.data fragment],requestLast t io more (.finds read (by simpa using solid) (.none next))
      fun rest => ?_⟩
    simp only [requestLoopRead t more solid (readWithin io read), seen]
    rw [show requestComplete t _ _ hdrEnd = _ from waits]
  | case11 s st full =>
    have step (rest : List (ReadEvent UInt8)) :
        readRequestLoop t rest st = ⟨.err .bufferOverflow,st.buf⟩ := by
      rw [readRequestLoop.eq_def, if_neg full]
    exact ⟨[],.none s,(step []).symm,by simp,.inr fun rest => (step rest).trans (step []).symm⟩

theorem andThenOk {done : Outcome Unit Unit × σ} (ok : done.1 = .ok ())
    (next : σ → Outcome Unit Unit × σ) :
    andThen done next = next done.2 := by
  rw [andThen, ok]

theorem andThenFailed {done : Outcome Unit Unit × σ} (failed : done.1 ≠ .ok ())
    (next : σ → Outcome Unit Unit × σ) :
    andThen done next = done := by
  obtain ⟨r,s⟩ := done
  cases r with
  | ok => exact absurd rfl failed
  | err e => rfl
  | panic => rfl
  | pending => rfl

/- Writes and flushes one after the other, and what became of each. The first that does not
go through, be it that it waits for ever, is the last. -/
inductive Wrote : σ → List WriteEvent → σ → Prop
  | none (s : σ) : Wrote s [] s
  | takes {s last : σ} {data : Bytes} {writes : List WriteEvent} : (io.writeAll s data).1 = .ok () →
      Wrote (io.writeAll s data).2 writes last → Wrote s (.accept :: writes) last
  | cuts {s : σ} {data : Bytes} {n : Nat} : (io.writeAll s data).1 ≠ .ok () →
      io.sent (io.writeAll s data).2 = io.sent s ++ data.take n →
      Wrote s [.fault n] (io.writeAll s data).2
  | flushes {s last : σ} {writes : List WriteEvent} : (io.flush s).1 = .ok () →
      Wrote (io.flush s).2 writes last → Wrote s (.accept :: writes) last
  | stuck {s : σ} : (io.flush s).1 ≠ .ok () → Wrote s [.fault 0] (io.flush s).2

theorem writeTaken {s : σ} {data : Bytes} (done : (io.writeAll s data).1 = .ok ())
    (reads : List (ReadEvent UInt8)) (rest : List WriteEvent) :
    (⟨reads,.accept :: rest,io.sent s⟩ : Stream).writeAll data =
      (true,⟨reads,rest,io.sent (io.writeAll s data).2⟩) := by
  obtain ⟨_,_,part,_,wrote,whole⟩ := io.writes s data
  rw [wrote, whole done]
  rfl

theorem writeCut (s : σ) (data : Bytes) :
    ∃ n, io.sent (io.writeAll s data).2 = io.sent s ++ data.take n ∧
    ∀ (reads : List (ReadEvent UInt8)) (rest : List WriteEvent),
      (⟨reads,.fault n :: rest,io.sent s⟩ : Stream).writeAll data =
        (false,⟨reads,rest,io.sent (io.writeAll s data).2⟩) := by
  obtain ⟨_,_,part,front,wrote,_⟩ := io.writes s data
  have cut : data.take part.length = part := (List.prefix_iff_eq_take.mp front).symm
  refine ⟨part.length,by rw [wrote, cut],fun reads rest => ?_⟩
  rw [wrote, ← cut]
  simp [Stream.writeAll,cut]

/- What became of the writes, as a script. A write that waits for ever is one that fails
there: it took the same bytes, and nothing follows. -/
theorem flushScripted (s : σ) : ∃ writes, Wrote io s writes (io.flush s).2 ∧ ∀ reads, ∃ rest,
    (⟨reads,writes,io.sent s⟩ : Stream).flush =
      (decide ((io.flush s).1 = .ok ()),⟨reads,rest,io.sent (io.flush s).2⟩) := by
  obtain ⟨_,_,kept⟩ := io.flushes s
  by_cases done : (io.flush s).1 = .ok ()
  · exact ⟨[.accept],.flushes done (.none _),fun reads => ⟨[],by rw [decide_eq_true done, kept]; rfl⟩⟩
  · exact ⟨[.fault 0],.stuck done,fun reads => ⟨[],by rw [decide_eq_false done, kept]; rfl⟩⟩

theorem sendScripted (s : σ) (head : Bytes) (body : Option Bytes) : (∃ writes,
      Wrote io s writes (sendOn io s head body).2 ∧ ∀ reads, ∃ rest,
      send ⟨reads,writes,io.sent s⟩ head body =
        (decide ((sendOn io s head body).1 = .ok ()),⟨reads,rest,io.sent (sendOn io s head body).2⟩)) ∧
    (sendOn io s head body).1 ≠ .panic ∧ io.got (sendOn io s head body).2 = io.got s ∧
    ((sendOn io s head body).1 = .pending → Waits io (sendOn io s head body).2) := by
  obtain ⟨calm,kept,_⟩ := io.writes s head
  have write {s : σ} {data : Bytes} (pending : (io.writeAll s data).1 = .pending) :
      Waits io (io.writeAll s data).2 :=
    .inr (.inl ⟨s,data,Prod.ext pending rfl⟩)
  have flush {s : σ} (pending : (io.flush s).1 = .pending) : Waits io (io.flush s).2 :=
    .inr (.inr ⟨s,Prod.ext pending rfl⟩)
  unfold sendOn
  by_cases done : (io.writeAll s head).1 = .ok ()
  · have wrote := writeTaken io done
    have step {writes : List WriteEvent} {last : σ}
        (rest : Wrote io (io.writeAll s head).2 writes last) :
        Wrote io s (.accept :: writes) last := .takes done rest
    rw [andThenOk done]
    generalize (io.writeAll s head).2 = u at kept wrote step
    cases body with
    | none =>
      obtain ⟨writes,last,flushed⟩ := flushScripted io u
      obtain ⟨calm',kept',_⟩ := io.flushes u
      rw [andThenOk rfl]
      refine ⟨⟨.accept :: writes,step last,fun reads => ?_⟩,calm',kept'.trans kept,flush⟩
      obtain ⟨rest,flushed⟩ := flushed reads
      exact ⟨rest,by simp only [send, wrote]; exact flushed⟩
    | some data =>
      obtain ⟨calm',kept',_⟩ := io.writes u data
      by_cases done : (io.writeAll u data).1 = .ok ()
      · have wrote' := writeTaken io done
        have step' {writes : List WriteEvent} {last : σ}
            (rest : Wrote io (io.writeAll u data).2 writes last) :
            Wrote io u (.accept :: writes) last := .takes done rest
        simp only [andThenOk done]
        generalize (io.writeAll u data).2 = v at kept' wrote' step'
        obtain ⟨writes,last,flushed⟩ := flushScripted io v
        obtain ⟨calm'',kept'',_⟩ := io.flushes v
        refine ⟨⟨.accept :: .accept :: writes,step (step' last),fun reads => ?_⟩,calm'',
          kept''.trans (kept'.trans kept),flush⟩
        obtain ⟨rest,flushed⟩ := flushed reads
        exact ⟨rest,by simp only [send, wrote, wrote']; exact flushed⟩
      · obtain ⟨n,cut,wrote'⟩ := writeCut io u data
        simp only [andThenFailed done]
        refine ⟨⟨[.accept,.fault n],step (.cuts done cut),fun reads => ⟨[],?_⟩⟩,calm',
          kept'.trans kept,write⟩
        simp only [send, wrote, wrote', decide_eq_false done]
  · obtain ⟨n,cut,wrote⟩ := writeCut io s head
    rw [andThenFailed done]
    refine ⟨⟨[.fault n],.cuts done cut,fun reads => ⟨[],?_⟩⟩,calm,kept,write⟩
    simp only [send, wrote, decide_eq_false done]

/- What a run results in is what the scripted one does. Only a write that waits is told
apart: on the script it is one that fails. -/
def Covers {α : Type} (waits : Prop) (scripted run : Outcome Error α) : Prop :=
  scripted = run ∨ scripted = .err .tcpError ∧ run = .pending ∧ waits

structure RequestCovered (RQ maxRetries : Nat) (s : σ) (request : HttpClientRequest) (buffer : Bytes)
    (stream : Stream) : Prop where
  start : stream.written = io.sent s
  calls : ∃ u, Wrote io s stream.writes u ∧
    Found io u stream.reads (requestOn t io RQ maxRetries s request buffer).state
  written : (requestWithRetryDelay t RQ maxRetries stream request buffer).written =
    io.sent (requestOn t io RQ maxRetries s request buffer).state
  delays : (requestWithRetryDelay t RQ maxRetries stream request buffer).delays =
    (requestOn t io RQ maxRetries s request buffer).delays
  got : io.got (requestOn t io RQ maxRetries s request buffer).state = io.got s ++ arrived stream.reads
  result : Covers (Waits io (requestOn t io RQ maxRetries s request buffer).state)
    (requestWithRetryDelay t RQ maxRetries stream request buffer).result
    (requestOn t io RQ maxRetries s request buffer).result
  needed : ∀ k < stream.reads.length, (requestWithRetryDelay t RQ maxRetries
    { stream with reads := stream.reads.take k } request buffer).result = .pending
  enough : Waits io (requestOn t io RQ maxRetries s request buffer).state ∨
    ∀ more, requestWithRetryDelay t RQ maxRetries { stream with reads := stream.reads ++ more }
      request buffer =
      requestWithRetryDelay t RQ maxRetries stream request buffer

theorem requestCovered (RQ maxRetries : Nat) (s : σ) (request : HttpClientRequest) (buffer : Bytes) :
    ∃ stream : Stream, RequestCovered t io RQ maxRetries s request buffer stream := by
  cases built : buildReq RQ request.method request.host request.path request.headers request.body with
  | ok head =>
    obtain ⟨⟨writes,calls,wrote⟩,calm,kept,waits⟩ := sendScripted io s head.items request.body
    rcases done : sendOn io s head.items request.body with ⟨r,u⟩
    rw [done] at calls calm kept waits
    cases r with
    | ok =>
      obtain ⟨events,found,same,needed,enough⟩ := responseScripted t io u ⟨buffer,0,maxRetries,0⟩
      have run : requestOn t io RQ maxRetries s request buffer =
          ⟨decodeResponse t (readResponseOn t io u buffer maxRetries).1,
            (readResponseOn t io u buffer maxRetries).1.delays,
            (readResponseOn t io u buffer maxRetries).2⟩ := by
        simp only [requestOn, built, done]
      have scripted (reads : List (ReadEvent UInt8)) :
          requestWithRetryDelay t RQ maxRetries ⟨reads,writes,io.sent s⟩ request buffer =
            ⟨decodeResponse t (readResponse t reads buffer maxRetries),io.sent u,
              (readResponse t reads buffer maxRetries).delays⟩ := by
        obtain ⟨rest,sent⟩ := wrote reads
        rw [done] at sent
        simp only [requestWithRetryDelay, built, sent, decide_true]
      have read : readResponse t events buffer maxRetries =
        (readResponseOn t io u buffer maxRetries).1 := same.symm
      have moved := foundMoves io found
      refine ⟨⟨events,writes,io.sent s⟩,rfl,⟨u,calls,by rw [run]; exact found⟩,?_,?_,?_,.inl ?_,
        fun k short => ?_,?_⟩
      · rw [run, scripted]
        exact moved.2.symm
      · rw [run, scripted, read]
      · rw [run, ← show io.got u = io.got s from kept]
        exact moved.1
      · rw [run, scripted, read]
      · rw [scripted, decodeResponse,
          show (readResponse t (events.take k) buffer maxRetries).result = _ from needed k short]
        rfl
      · rw [run]
        refine enough.imp_right fun all more => ?_
        rw [scripted, scripted, show readResponse t (events ++ more) buffer maxRetries = _ from all more]
        rfl
    | panic => exact absurd rfl calm
    | _ =>
      -- Nothing is read behind a write that did not go through.
      have scripted (reads : List (ReadEvent UInt8)) :
          requestWithRetryDelay t RQ maxRetries ⟨reads,writes,io.sent s⟩ request buffer =
            ⟨.err .tcpError,io.sent u,0⟩ := by
        obtain ⟨rest,sent⟩ := wrote reads
        rw [done] at sent
        simp only [requestWithRetryDelay, built, sent, reduceCtorEq, decide_false]
      have run : (requestOn t io RQ maxRetries s request buffer).state = u ∧
          (requestOn t io RQ maxRetries s request buffer).delays = 0 := by
        simp only [requestOn, built, done, and_self]
      refine ⟨⟨[],writes,io.sent s⟩,rfl,⟨u,calls,by rw [run.1]; exact .none u⟩,
        by rw [scripted, run.1],by rw [scripted, run.2],
        by rw [run.1, kept]; exact (List.append_nil _).symm,?_,by simp,
        .inr fun more => (scripted more).trans (scripted []).symm⟩
      rw [scripted, run.1]
      simp only [requestOn, built, done]
      first | exact .inl rfl | exact .inr ⟨rfl,rfl,waits rfl⟩
  | _ =>
    refine ⟨⟨[],[],io.sent s⟩,rfl,⟨s,.none s,?_⟩,?_,?_,?_,.inl ?_,by simp,.inr fun more => ?_⟩ <;>
      simp only [requestOn, requestWithRetryDelay, built]
    · exact .none s
    · exact (List.append_nil _).symm

theorem replyReads {τ : Type} (MAX_RESPONSE_SIZE : Nat) (handler : Handler τ) (state : τ)
    (q : HttpRequest) (reads reads' : List (ReadEvent UInt8)) (writes : List WriteEvent)
    (written : Bytes) :
    reply MAX_RESPONSE_SIZE handler state ⟨reads,writes,written⟩ q =
      reply MAX_RESPONSE_SIZE handler state ⟨reads',writes,written⟩ q := by
  unfold reply
  cases (answer (handler state q).1).buildBytes MAX_RESPONSE_SIZE with
  | ok b =>
    rcases writes with _ | ⟨_ | _,_ | ⟨_ | _,rest⟩⟩ <;> rfl
  | _ => rfl

structure ServedCovered {τ : Type} (REQ_SIZE MAX_RESPONSE_SIZE : Nat) (handler : Handler τ)
    (state : τ) (s : σ) (stream : Stream) : Prop where
  start : stream.written = io.sent s
  calls : ∃ u, Found io s stream.reads u ∧
    Wrote io u stream.writes (handleOn t io REQ_SIZE MAX_RESPONSE_SIZE handler state s).state
  written : (handleHttpConnectionWithSizes t REQ_SIZE MAX_RESPONSE_SIZE handler state stream).written =
    io.sent (handleOn t io REQ_SIZE MAX_RESPONSE_SIZE handler state s).state
  handled : (handleHttpConnectionWithSizes t REQ_SIZE MAX_RESPONSE_SIZE handler state stream).handled =
    (handleOn t io REQ_SIZE MAX_RESPONSE_SIZE handler state s).handled
  got : io.got (handleOn t io REQ_SIZE MAX_RESPONSE_SIZE handler state s).state = io.got s ++
    arrived stream.reads
  result : Covers (Waits io (handleOn t io REQ_SIZE MAX_RESPONSE_SIZE handler state s).state)
    (handleHttpConnectionWithSizes t REQ_SIZE MAX_RESPONSE_SIZE handler state stream).result
    (handleOn t io REQ_SIZE MAX_RESPONSE_SIZE handler state s).result
  needed : ∀ k < stream.reads.length,
    handleHttpConnectionWithSizes t REQ_SIZE MAX_RESPONSE_SIZE handler state
    { stream with reads := stream.reads.take k } = ⟨.pending,[],stream.written⟩
  enough : Waits io (handleOn t io REQ_SIZE MAX_RESPONSE_SIZE handler state s).state ∨
    ∀ more, handleHttpConnectionWithSizes t REQ_SIZE MAX_RESPONSE_SIZE handler state
      { stream with reads := stream.reads ++ more } =
        handleHttpConnectionWithSizes t REQ_SIZE MAX_RESPONSE_SIZE handler state stream

theorem servedCovered {τ : Type} (REQ_SIZE MAX_RESPONSE_SIZE : Nat) (handler : Handler τ)
    (state : τ) (s : σ) :
    ∃ stream : Stream, ServedCovered t io REQ_SIZE MAX_RESPONSE_SIZE handler state s stream := by
  obtain ⟨events,found,same,needed,enough⟩ := requestScripted t io s ⟨List.replicate REQ_SIZE 0,0,none⟩
  have moved := foundMoves io found
  have ask (writes : List WriteEvent) :
      accepted t REQ_SIZE ⟨events,writes,io.sent s⟩ = acceptedOn t io REQ_SIZE s := by
    rw [accepted, readRequest, ← same]
    rfl
  have short (writes : List WriteEvent) : ∀ k < events.length,
      handleHttpConnectionWithSizes t REQ_SIZE MAX_RESPONSE_SIZE handler state
        ⟨events.take k,writes,io.sent s⟩ =
        ⟨.pending,[],io.sent s⟩ := by
    intro k bound
    have waits : accepted t REQ_SIZE ⟨events.take k,writes,io.sent s⟩ = .pending := by
      rw [accepted, readRequest, needed k bound]
      rfl
    rw [servedExact, waits]
  have long (writes : List WriteEvent)
      (all : ∀ more, readRequestLoop t (events ++ more) ⟨List.replicate REQ_SIZE 0,0,none⟩ =
        readRequestLoop t events ⟨List.replicate REQ_SIZE 0,0,none⟩) (more : List (ReadEvent UInt8)) :
      handleHttpConnectionWithSizes t REQ_SIZE MAX_RESPONSE_SIZE handler state
        ⟨events ++ more,writes,io.sent s⟩ =
        handleHttpConnectionWithSizes t REQ_SIZE MAX_RESPONSE_SIZE handler state
          ⟨events,writes,io.sent s⟩ := by
    have again : accepted t REQ_SIZE ⟨events ++ more,writes,io.sent s⟩ = acceptedOn t io REQ_SIZE s := by
      rw [← ask writes, accepted, readRequest, all]
      rfl
    rw [servedExact, servedExact, again, ask]
    cases acceptedOn t io REQ_SIZE s with
    | ok q => exact replyReads MAX_RESPONSE_SIZE handler state q _ _ _ _
    | _ => rfl
  have whole := handledExact t io REQ_SIZE MAX_RESPONSE_SIZE handler state s
  have scripted (writes : List WriteEvent) := servedExact t REQ_SIZE MAX_RESPONSE_SIZE handler state
    ⟨events,writes,io.sent s⟩
  simp only [ask] at scripted
  -- Without an answer nothing is written.
  have silent {result : Outcome Error Unit} {handled : List HttpRequest}
      (run : handleOn t io REQ_SIZE MAX_RESPONSE_SIZE handler state s =
        ⟨result,handled,(readRequestOn t io s (List.replicate REQ_SIZE 0)).2⟩)
      (script : handleHttpConnectionWithSizes t REQ_SIZE MAX_RESPONSE_SIZE handler state
        ⟨events,[],io.sent s⟩ =
        ⟨result,handled,io.sent s⟩) :
      ∃ stream : Stream, ServedCovered t io REQ_SIZE MAX_RESPONSE_SIZE handler state s stream := by
    refine ⟨⟨events,[],io.sent s⟩,rfl,⟨_,found,by rw [run]; exact .none _⟩,?_,?_,?_,.inl ?_,short [],?_⟩
    · rw [run, script]
      exact moved.2.symm
    · rw [run, script]
    · rw [run]
      exact moved.1
    · rw [run, script]
    · rw [run]
      exact enough.imp And.right (long [])
  cases asked : acceptedOn t io REQ_SIZE s with
  | ok q =>
    have all := enough.resolve_left fun waits => by
      have pending : (readRequestOn t io s (List.replicate REQ_SIZE 0)).1.result = .pending := waits.1
      rw [acceptedOn, pending] at asked
      contradiction
    rw [asked] at whole scripted
    simp only [reply] at whole scripted
    cases response : (answer (handler state q).1).buildBytes MAX_RESPONSE_SIZE with
    | ok b =>
      simp only [response] at whole scripted
      obtain ⟨⟨writes,calls,wrote⟩,calm,kept,waits⟩ :=
        sendScripted io (readRequestOn t io s (List.replicate REQ_SIZE 0)).2 b.items none
      obtain ⟨rest,sent⟩ := wrote events
      rw [show io.sent (readRequestOn t io s (List.replicate REQ_SIZE 0)).2 =
        io.sent s from moved.2] at sent
      have script := scripted writes
      simp only [sent] at script
      generalize sendOn io (readRequestOn t io s (List.replicate REQ_SIZE 0)).2 b.items none =
        done at whole calls calm kept waits script
      obtain ⟨r,v⟩ := done
      have settled : io.got v = io.got s ++ arrived events := kept.trans moved.1
      refine ⟨⟨events,writes,io.sent s⟩,rfl,⟨_,found,by rw [whole]; exact calls⟩,?_,?_,
        by rw [whole]; exact settled,?_,
        short writes,.inr (long writes all)⟩
      all_goals rw [whole, script]
      · cases r <;> rfl
      · cases r <;> rfl
      · cases r with
        | panic => exact absurd rfl calm
        | pending => exact .inr ⟨rfl,rfl,waits rfl⟩
        | _ => exact .inl rfl
    | _ =>
      simp only [response] at whole scripted
      exact silent whole (scripted [])
  | _ =>
    rw [asked] at whole scripted
    exact silent whole (scripted [])

end Scripts

theorem coversOk {α : Type} {waits : Prop} {scripted run : Outcome Error α} {a : α}
    (covers : Covers waits scripted run) (ok : run = .ok a) : scripted = .ok a := by
  rcases covers with same | ⟨_,waits,_⟩
  · exact same.trans ok
  · rw [ok] at waits
    contradiction

structure Memory where
  inbox : List Bytes
  got : Bytes
  sent : Bytes
  deriving DecidableEq, Repr

def memory : Io Memory where
  read s n := match s.inbox with
    | [] => (.ok [],s)
    | fragment :: rest => (.ok (fragment.take n),{ s with
        inbox := if fragment.length ≤ n then rest else fragment.drop n :: rest
        got := s.got ++ fragment.take n })
  writeAll s data := (.ok (),{ s with sent := s.sent ++ data })
  flush s := (.ok (),s)
  got := Memory.got
  sent := Memory.sent
  reads s n := by
    rcases s with ⟨_ | ⟨fragment,rest⟩,got,sent⟩
    · exact ⟨by simp,Nat.zero_le n,(List.append_nil got).symm,rfl⟩
    · exact ⟨by simp,List.length_take_le n fragment,rfl,rfl⟩
  writes s data := ⟨by simp,rfl,data,List.prefix_rfl,rfl,fun _ => rfl⟩
  flushes s := ⟨by simp,rfl,rfl⟩

theorem streamsSafe (t : Target) {σ ρ τ : Type} (near : Io σ) (far : Io ρ)
    (RQ maxRetries REQ_SIZE MAX_RESPONSE_SIZE : Nat) (real : REQ_SIZE ≤ t.isizeMax)
    (handler : Handler τ) (state : τ) (req : HttpClientRequest) (good : Sendable t req)
    (able : Answerable t (answer (handler state (delivered req)).1)) (s : σ) (p : ρ)
    (buffer : Bytes) (nearFresh : near.got s = [] ∧ near.sent s = [])
    (farFresh : far.got p = [] ∧ far.sent p = []) :
    let run := requestOn t near RQ maxRetries s req buffer
    let served := handleOn t far REQ_SIZE MAX_RESPONSE_SIZE handler state p
    far.got served.state <+: near.sent run.state → near.got run.state <+: far.sent served.state →
    (served.handled = [] ∨ served.handled = [delivered req]) ∧
    ∀ response total, run.result = .ok (response,total) → served.handled = [delivered req] ∧
      response = received (answer (handler state (delivered req)).1) ∧
      total = (responseWire (answer (handler state (delivered req)).1)).length := by
  intro run served up down
  obtain ⟨nearStream,client⟩ := requestCovered t near RQ maxRetries s req buffer
  obtain ⟨farStream,server⟩ := servedCovered t far REQ_SIZE MAX_RESPONSE_SIZE handler state p
  have nearCame : near.got run.state = arrived nearStream.reads :=
    client.got.trans (by rw [nearFresh.1, List.nil_append])
  have farCame : far.got served.state = arrived farStream.reads :=
    server.got.trans (by rw [farFresh.1, List.nil_append])
  have safe :=
    exchangeSafe t RQ maxRetries REQ_SIZE MAX_RESPONSE_SIZE real handler state req good able
      nearStream farStream buffer
    ⟨client.start.trans nearFresh.2,server.start.trans farFresh.2⟩
      (by rw [client.written, ← farCame]; exact up)
    (by rw [server.written, ← nearCame]; exact down)
  rw [server.handled] at safe
  exact ⟨safe.1,fun response total ok => safe.2 response total (coversOk client.result ok)⟩

end Nanofish.Streams

import Nanofish.Builder
import Nanofish.Exchanges
import Nanofish.Rust.Machine

/-! The server that accepts one connection after the other: server/embassy.rs. Its loop
keeps the handler's state from one connection to the next and nothing else. -/
namespace Nanofish.ServeLoop
open Rust Rust.Utf8 Rust.Text Rust.Reads
open Protocol Codes Response Codec Client Request RoundTrip Builder
open Retries Accepting Server Serving Transport Messages Exchanges

-- A handler that may still be running when its time is up; its state is what it has done.
def TimedHandler (σ : Type) := σ → HttpRequest → Option (Except Error HttpResponse) × σ

def mimeText : Str := "text/plain".toList

def timedOut : HttpResponse :=
  ⟨.requestTimeout,⟨[contentTypeHeader mimeText],by decide⟩,.text "Request Timeout".toList⟩

theorem timedOutBuilt : (do
    let b ← Builder.contentType (Builder.status new .requestTimeout) mimeText
    build (Builder.text b "Request Timeout".toList)) = .ok timedOut := by
  decide +kernel

def timeoutHandler {σ : Type} (inner : TimedHandler σ) : Handler σ :=
  fun state request => match inner state request with
  | (some (.ok response),state) => (.ok response,state)
  | (some (.error e),state) => (.error e,state)
  | (none,state) => (.ok timedOut,state)

inductive Arrival where
  | fault
  | connection (stream : Stream)
  deriving DecidableEq, Repr

section Loop
variable (t : Target) {σ : Type} (REQ_SIZE MAX_RESPONSE_SIZE : Nat) (inner : TimedHandler σ)

def stateAfter (handler : Handler σ) (state : σ) (handled : List HttpRequest) : σ :=
  handled.foldl (fun state request => (handler state request).2) state

/- A failed `accept` costs a pause. An error of a connection is logged and the loop
goes on; it does not come back from a panic, nor from a connection that waits. -/
def serveStep (state : σ) : Arrival → Option Served × Option σ
  | .fault => (none,some state)
  | .connection stream =>
    let handler := timeoutHandler inner
    let served := handleHttpConnectionWithSizes t REQ_SIZE MAX_RESPONSE_SIZE handler state stream
    (some served,match served.result with
      | .ok () => some (stateAfter handler state served.handled)
      | .err _ => some (stateAfter handler state served.handled)
      | .panic => none
      | .pending => none)

def serve (state : σ) (arrivals : List Arrival) : List (Option Served) × Option σ :=
  Machine.run (serveStep t REQ_SIZE MAX_RESPONSE_SIZE inner) state arrivals

def requestOf : Arrival → Option HttpRequest
  | .fault => none
  | .connection stream => match accepted t REQ_SIZE stream with
    | .ok request => some request
    | _ => none

/- A connection that stays silent is ended by the idle timeout, one that fills the
buffer is over too; the others bring a request. -/
def Bounded (arrival : Arrival) : Prop := match arrival with
  | .fault => True
  | .connection stream => (∃ event ∈ stream.reads, Ends event) ∨ REQ_SIZE ≤ stream.reads.length ∨
      (requestOf t REQ_SIZE arrival).isSome = true

instance (arrival : Arrival) : Decidable (Bounded t REQ_SIZE arrival) := by
  cases arrival <;> unfold Bounded <;> infer_instance

def Writable (r : HttpResponse) : Prop :=
  addsLength r true = true → r.body.asBytes.length < 10 ^ scratchDigits

end Loop

section Connection
variable {t : Target} {σ : Type} {REQ_SIZE MAX_RESPONSE_SIZE : Nat} {stream : Stream}

theorem acceptedReturns (real : REQ_SIZE ≤ t.isizeMax)
    (bounded : Bounded t REQ_SIZE (.connection stream)) :
    (accepted t REQ_SIZE stream).Returns := by
  have size : (List.replicate REQ_SIZE (0 : UInt8)).length = REQ_SIZE := List.length_replicate
  rw [Bounded, ← or_assoc] at bounded
  rcases bounded with enough | brings
  case inr =>
    simp only [requestOf] at brings
    split at brings
    · rename_i same
      rw [same]
      trivial
    · contradiction
  have returns := requestReturns t (size.symm ▸ real) stream.reads (by rwa [size])
  obtain ⟨_,held,sound⟩ := readRequestSound t (size.symm ▸ real) stream.reads
  unfold accepted
  cases read : (readRequest t stream.reads (List.replicate REQ_SIZE 0)).result with
  | err e => trivial
  | panic => rw [read] at returns; contradiction
  | pending => rw [read] at returns; contradiction
  | ok total =>
    rw [Outcome.okBind, sliceToFits (by rw [held]; exact (sound total read).1), Outcome.okBind]
    generalize (readRequest t stream.reads (List.replicate REQ_SIZE 0)).buf.take total = data
    cases found : findDoubleCrlf data with
    | none => rw [RequestFields.tryFromOpen found]; trivial
    | some pos =>
      obtain ⟨closes,_,whole⟩ := HeaderBlock.blockOf found
      rw [whole, RequestFields.tryFromBlock _ closes]
      exact Outcome.bindReturns (Outcome.ofOptionReturns _ _) fun s => RequestFields.parseFromReturns s _

theorem buildReturns (N : Nat) {r : HttpResponse} (writable : Writable r) :
    (r.buildBytes N).Returns := by
  rw [buildBytesFitted N writable, fitted]
  split <;> trivial

theorem replyReturns {handler : Handler σ} {state : σ} {q : HttpRequest}
    (writable : Writable (answer (handler state q).1)) :
    (reply MAX_RESPONSE_SIZE handler state stream q).result.Returns := by
  have returns := buildReturns MAX_RESPONSE_SIZE writable
  unfold reply
  cases built : (answer (handler state q).1).buildBytes MAX_RESPONSE_SIZE with
  | err e => trivial
  | panic => rw [built] at returns; contradiction
  | pending => rw [built] at returns; contradiction
  | ok b =>
    simp only
    split <;> trivial

end Connection

section Steps
variable {t : Target} {σ : Type} {REQ_SIZE : Nat} (MAX_RESPONSE_SIZE : Nat) (inner : TimedHandler σ)
  (state : σ) {arrival : Arrival}

theorem stepServes {q : HttpRequest} (seen : requestOf t REQ_SIZE arrival = some q) :
    ∃ stream, arrival = .connection stream ∧
    let served := reply MAX_RESPONSE_SIZE (timeoutHandler inner) state stream q
    serveStep t REQ_SIZE MAX_RESPONSE_SIZE inner state arrival = (some served,
      if served.result.Returns then some (timeoutHandler inner state q).2 else none) := by
  cases arrival with
  | fault => contradiction
  | connection stream =>
    refine ⟨stream,rfl,?_⟩
    have ok : accepted t REQ_SIZE stream = .ok q := by
      simp only [requestOf] at seen
      split at seen
      · rename_i same
        rw [same, Option.some.inj seen]
      · contradiction
    intro served
    have handled : served.handled = [q] :=
      replyHandled MAX_RESPONSE_SIZE (timeoutHandler inner) state stream q
    simp only [serveStep, servedAccepted _ _ _ _ t ok]
    change (some served,match served.result with
      | .ok () => some (stateAfter (timeoutHandler inner) state served.handled)
      | .err _ => some (stateAfter (timeoutHandler inner) state served.handled)
      | .panic => none
      | .pending => none) = _
    rw [handled]
    cases served.result <;> rfl

theorem stepIdles (none : requestOf t REQ_SIZE arrival = none) :
    (∀ next, (serveStep t REQ_SIZE MAX_RESPONSE_SIZE inner state arrival).2 = some next → next = state) ∧
    ∀ served, (serveStep t REQ_SIZE MAX_RESPONSE_SIZE inner state arrival).1 = some served → ∃ stream,
      arrival = .connection stream ∧ served.handled = [] ∧ served.result ≠ .ok () ∧
      served.written = stream.written := by
  cases arrival with
  | fault => exact ⟨fun next same => (Option.some.inj same).symm,fun served same => by contradiction⟩
  | connection stream =>
    have lost : ∀ q, accepted t REQ_SIZE stream ≠ .ok q := fun q ok => by simp [requestOf,ok] at none
    have quiet := servedNone t REQ_SIZE MAX_RESPONSE_SIZE (timeoutHandler inner) state stream lost
    simp only [serveStep]
    generalize handleHttpConnectionWithSizes t REQ_SIZE MAX_RESPONSE_SIZE (timeoutHandler inner)
      state stream = served at quiet
    obtain ⟨handled,failed,kept⟩ := quiet
    rw [handled]
    refine ⟨fun next same => ?_,fun served' same => ⟨stream,rfl,?_⟩⟩
    · split at same
      · exact (Option.some.inj same).symm
      · exact (Option.some.inj same).symm
      · contradiction
      · contradiction
    · rw [← Option.some.inj same]
      exact ⟨handled,failed,kept⟩

theorem answerWritable (writable : ∀ state q r, (inner state q).1 = some (.ok r) → Writable r)
    (q : HttpRequest) :
    Writable (answer (timeoutHandler inner state q).1) := by
  have own := writable state q
  unfold timeoutHandler
  split
  · rename_i r _ same
    exact own r (by rw [same])
  · exact fun _ => (by decide : internalError.body.asBytes.length < 10 ^ scratchDigits)
  · exact fun _ => (by decide : timedOut.body.asBytes.length < 10 ^ scratchDigits)

theorem stepGoesOn (real : REQ_SIZE ≤ t.isizeMax) (bounded : Bounded t REQ_SIZE arrival)
    (writable : ∀ state q r, (inner state q).1 = some (.ok r) → Writable r) :
    ∃ next, (serveStep t REQ_SIZE MAX_RESPONSE_SIZE inner state arrival).2 = some next := by
  cases seen : requestOf t REQ_SIZE arrival with
  | some q =>
    obtain ⟨stream,_,step⟩ := stepServes MAX_RESPONSE_SIZE inner state seen
    exact ⟨_,by rw [step]; exact if_pos (replyReturns (answerWritable inner state writable q))⟩
  | none =>
    cases arrival with
    | fault => exact ⟨state,rfl⟩
    | connection stream =>
      have returns := acceptedReturns real bounded
      simp only [serveStep, servedExact]
      cases request : accepted t REQ_SIZE stream with
      | ok q => simp [requestOf,request] at seen
      | err e => exact ⟨_,rfl⟩
      | panic => rw [request] at returns; contradiction
      | pending => rw [request] at returns; contradiction

end Steps

/- What the server is for: a service that takes one request after the other. -/
def service {σ : Type} (handler : Handler σ) (state : σ) (request : HttpRequest) :
    Except Error HttpResponse × Option σ :=
  ((handler state request).1,some (handler state request).2)

theorem serviceRun {σ : Type} (handler : Handler σ) (state : σ) (requests : List HttpRequest) :
    (Machine.run (service handler) state requests).2 = some (stateAfter handler state requests) := by
  induction requests generalizing state with
  | nil => rfl
  | cons q rest ih =>
    rw [Machine.runGoes (show service handler state q = (_,some _) from rfl), ih]
    rfl

/- What an arrival's peer sees of its call: a front of the answer, and all of it when
the connection went well. -/
def Shows (arrival : Arrival) (out : Option Served) (response : Except Error HttpResponse) : Prop :=
  ∃ stream served part, arrival = .connection stream ∧ out = some served ∧
    part <+: responseWire (answer response) ∧ served.written = stream.written ++ part ∧
    (served.result = .ok () → part = responseWire (answer response))

def handledBy (out : Option Served) : List HttpRequest := (out.map Served.handled).getD []

section Runs
variable (t : Target) {σ : Type} (REQ_SIZE MAX_RESPONSE_SIZE : Nat) (inner : TimedHandler σ)

theorem stepHandled (state : σ) (arrival : Arrival) :
    handledBy (serveStep t REQ_SIZE MAX_RESPONSE_SIZE inner state arrival).1 =
      (requestOf t REQ_SIZE arrival).toList := by
  cases seen : requestOf t REQ_SIZE arrival with
  | some q =>
    obtain ⟨stream,_,step⟩ := stepServes MAX_RESPONSE_SIZE inner state seen
    rw [step]
    exact replyHandled MAX_RESPONSE_SIZE (timeoutHandler inner) state stream q
  | none =>
    obtain ⟨_,quiet⟩ := stepIdles MAX_RESPONSE_SIZE inner state seen
    cases out : (serveStep t REQ_SIZE MAX_RESPONSE_SIZE inner state arrival).1 with
    | none => rfl
    | some served =>
      obtain ⟨_,_,handled,_⟩ := quiet served out
      exact handled

theorem serveSimulates (arrivals : List Arrival) :
    Machine.Simulation (serveStep t REQ_SIZE MAX_RESPONSE_SIZE inner)
    (service (timeoutHandler inner)) (· = ·) (requestOf t REQ_SIZE) Shows arrivals where
  idles :=
    fun arrival _ none state u same next moved =>
      ((stepIdles MAX_RESPONSE_SIZE inner state none).1 next moved).trans same
  moves := by
    rintro arrival _ q seen state _ rfl
    obtain ⟨stream,rfl,step⟩ := stepServes MAX_RESPONSE_SIZE inner state seen
    obtain ⟨part,front,wrote,whole⟩ := replyFront MAX_RESPONSE_SIZE (timeoutHandler inner) state stream q
    rw [step]
    refine ⟨⟨stream,_,part,rfl,rfl,front,wrote,whole⟩,fun next moved =>
      ⟨(timeoutHandler inner state q).2,rfl,?_⟩⟩
    dsimp only at moved
    split at moved
    · exact (Option.some.inj moved).symm
    · contradiction

theorem stateBefore {state now : σ} {arrivals : List Arrival}
    (reached : (serve t REQ_SIZE MAX_RESPONSE_SIZE inner state arrivals).2 = some now) :
    now = stateAfter (timeoutHandler inner) state (arrivals.filterMap (requestOf t REQ_SIZE)) := by
  obtain ⟨ends,_⟩ :=
    (serveSimulates t REQ_SIZE MAX_RESPONSE_SIZE inner arrivals).run (rfl : state = state)
  obtain ⟨last,done,rfl⟩ := ends now reached
  have all : (serve t REQ_SIZE MAX_RESPONSE_SIZE inner state arrivals).1.length = arrivals.length :=
    Machine.runWhole reached
  unfold serve at all
  rw [all, List.take_length, serviceRun] at done
  exact (Option.some.inj done).symm

theorem runHandled (state : σ) (arrivals : List Arrival) :
    let run := serve t REQ_SIZE MAX_RESPONSE_SIZE inner state arrivals
    run.1.flatMap handledBy = (arrivals.take run.1.length).filterMap (requestOf t REQ_SIZE) := by
  intro run
  have each := Machine.runMap (stepHandled t REQ_SIZE MAX_RESPONSE_SIZE inner) state arrivals
  rw [List.flatMap_def, List.filterMap_eq_flatMap_toList, List.flatMap_def]
  exact congrArg List.flatten each

end Runs

theorem serveRefines (t : Target) {σ : Type} (REQ_SIZE MAX_RESPONSE_SIZE : Nat)
    (inner : TimedHandler σ) (state : σ) (arrivals : List Arrival) :
    let run := serve t REQ_SIZE MAX_RESPONSE_SIZE inner state arrivals
    let requests := (arrivals.take run.1.length).filterMap (requestOf t REQ_SIZE)
    let calls := Machine.run (service (timeoutHandler inner)) state requests
    run.1.flatMap handledBy = requests ∧ (∀ last, run.2 = some last → calls.2 = some last) ∧
    List.Forall₂ (fun arrival response => Shows arrival.1 arrival.2 response)
      (Machine.visible (requestOf t REQ_SIZE) (arrivals.zip run.1)) calls.1 := by
  intro run requests calls
  obtain ⟨ends,shown⟩ :=
    (serveSimulates t REQ_SIZE MAX_RESPONSE_SIZE inner arrivals).run (rfl : state = state)
  refine ⟨runHandled t REQ_SIZE MAX_RESPONSE_SIZE inner state arrivals,fun last done => ?_,shown⟩
  obtain ⟨last',done',same⟩ := ends last done
  rw [same]
  exact done'

section Alive
variable (t : Target) {σ : Type} {REQ_SIZE : Nat} (MAX_RESPONSE_SIZE : Nat)
  (real : REQ_SIZE ≤ t.isizeMax) (inner : TimedHandler σ)
  (writable : ∀ state q r, (inner state q).1 = some (.ok r) → Writable r) (state : σ)
  {arrivals : List Arrival}
  (bounded : ∀ arrival ∈ arrivals, Bounded t REQ_SIZE arrival)
include real writable bounded

theorem serveGoesOn :
    ∃ last, (serve t REQ_SIZE MAX_RESPONSE_SIZE inner state arrivals).2 = some last := by
  obtain ⟨last,ends,_⟩ := Machine.runAlive (fun _ => True)
    (fun arrival mem now _ =>
      (stepGoesOn MAX_RESPONSE_SIZE inner now real (bounded arrival mem) writable).imp fun _ same =>
        ⟨same,trivial⟩)
    (show True from trivial)
  exact ⟨last,ends⟩

end Alive

def parity : TimedHandler Nat := fun calls request =>
  (if request.method = .PUT then none else
    some (.ok ⟨.created,Vec.new,.binary [if calls % 2 = 0 then 48 else 49]⟩),calls + 1)

theorem parityWritable (calls : Nat) (q : HttpRequest) (r : HttpResponse)
    (answered : (parity calls q).1 = some (.ok r)) :
    Writable r := by
  simp only [parity, Option.ite_none_left_eq_some, Option.some.injEq, Except.ok.injEq] at answered
  rw [← answered.2]
  exact fun _ => (by decide : 1 < 10 ^ scratchDigits)

def postHi : HttpClientRequest := ⟨.POST,"h".toList,"/".toList,[],some [104,105]⟩
def putHi : HttpClientRequest := { postHi with method := .PUT }

theorem serveEvery (t : Target) {σ : Type} (REQ_SIZE MAX_RESPONSE_SIZE : Nat)
    (real : REQ_SIZE ≤ t.isizeMax) (inner : TimedHandler σ)
    (writable : ∀ state q r, (inner state q).1 = some (.ok r) → Writable r) (state : σ)
    (arrivals : List Arrival) (bounded : ∀ arrival ∈ arrivals, Bounded t REQ_SIZE arrival) :
    let run := serve t REQ_SIZE MAX_RESPONSE_SIZE inner state arrivals
    let requests := arrivals.filterMap (requestOf t REQ_SIZE)
    run.1.length = arrivals.length ∧ run.2 = some (stateAfter (timeoutHandler inner) state requests) ∧
    run.1.flatMap handledBy = requests ∧ ∀ served, some served ∈ run.1 → served.result.Returns := by
  intro run requests
  obtain ⟨last,ends⟩ := serveGoesOn t MAX_RESPONSE_SIZE real inner writable state bounded
  have all : run.1.length = arrivals.length := Machine.runWhole ends
  have handled := runHandled t REQ_SIZE MAX_RESPONSE_SIZE inner state arrivals
  refine ⟨all,?_,?_,fun served mem => ?_⟩
  · rw [← stateBefore t REQ_SIZE MAX_RESPONSE_SIZE inner ends]
    exact ends
  · change run.1.flatMap handledBy =
      (arrivals.take run.1.length).filterMap (requestOf t REQ_SIZE) at handled
    rwa [all, List.take_length] at handled
  · obtain ⟨n,given⟩ := List.mem_iff_getElem?.mp mem
    obtain ⟨arrival,now,input,_,out⟩ := Machine.runNth given
    obtain ⟨next,moved⟩ := stepGoesOn MAX_RESPONSE_SIZE inner now real
      (bounded arrival (List.mem_of_getElem? input)) writable
    cases arrival with
    | fault => contradiction
    | connection stream =>
      simp only [serveStep, Option.some.injEq] at out moved
      rw [out] at moved
      cases result : served.result <;> rw [result] at moved <;> trivial

theorem serveEveryFaults :
    let arrivals :=
      [.fault,.connection ⟨[.data [71,69,84],.fault],[],[]⟩,
        .connection ⟨[.data (requestWire putHi)],[],[]⟩]
    let run := serve .bits32 128 128 parity 0 arrivals
    run.1.length = 3 ∧ run.1.flatMap handledBy = [delivered putHi] := by
  intro arrivals run
  have every :=
    serveEvery .bits32 128 128 (by decide) parity parityWritable 0 arrivals (by decide +kernel)
  exact ⟨every.1,every.2.2.1.trans (by decide +kernel)⟩

section Isolation
variable (t : Target) {σ : Type} (REQ_SIZE MAX_RESPONSE_SIZE : Nat) (inner : TimedHandler σ)

def kept (arrival : Arrival) : Option Arrival := (requestOf t REQ_SIZE arrival).map fun _ => arrival

theorem keptFilter (arrivals : List Arrival) :
    arrivals.filterMap (kept t REQ_SIZE) = arrivals.filter fun arrival =>
    (requestOf t REQ_SIZE arrival).isSome := by
  rw [← List.filterMap_eq_filter]
  congr 1
  funext arrival
  cases seen : requestOf t REQ_SIZE arrival <;> simp [kept,Option.guard,seen]

theorem keptVisible (pairs : List (Arrival × Option Served)) :
    Machine.visible (kept t REQ_SIZE) pairs = Machine.visible (requestOf t REQ_SIZE) pairs := by
  simp only [Machine.visible, kept, Option.isSome_map]

theorem keptSimulates (arrivals : List Arrival) :
    Machine.Simulation (serveStep t REQ_SIZE MAX_RESPONSE_SIZE inner)
    (serveStep t REQ_SIZE MAX_RESPONSE_SIZE inner) (· = ·) (kept t REQ_SIZE)
    (fun _ out out' => out = out') arrivals where
  idles :=
    fun arrival _ none state u same next moved =>
      ((stepIdles MAX_RESPONSE_SIZE inner state (Option.map_eq_none_iff.mp none)).1 next
        moved).trans same
  moves := by
    rintro arrival _ arrival' seen state _ rfl
    obtain ⟨_,_,rfl⟩ := Option.map_eq_some_iff.mp seen
    exact ⟨rfl,fun next moved => ⟨next,moved,rfl⟩⟩

end Isolation

theorem serveIsolated (t : Target) {σ : Type} (REQ_SIZE MAX_RESPONSE_SIZE : Nat)
    (real : REQ_SIZE ≤ t.isizeMax) (inner : TimedHandler σ)
    (writable : ∀ state q r, (inner state q).1 = some (.ok r) → Writable r) (state : σ)
    (arrivals : List Arrival) (bounded : ∀ arrival ∈ arrivals, Bounded t REQ_SIZE arrival) :
    let run := serve t REQ_SIZE MAX_RESPONSE_SIZE inner state arrivals
    let alone :=
      serve t REQ_SIZE MAX_RESPONSE_SIZE inner state (arrivals.filter fun arrival =>
        (requestOf t REQ_SIZE arrival).isSome)
    (Machine.visible (requestOf t REQ_SIZE) (arrivals.zip run.1)).map Prod.snd = alone.1 ∧
    run.2 = alone.2 := by
  intro run alone
  obtain ⟨last,ends⟩ := serveGoesOn t MAX_RESPONSE_SIZE real inner writable state bounded
  obtain ⟨reached,shown⟩ :=
    (keptSimulates t REQ_SIZE MAX_RESPONSE_SIZE inner arrivals).run (rfl : state = state)
  have all : (serve t REQ_SIZE MAX_RESPONSE_SIZE inner state arrivals).1.length = arrivals.length :=
    Machine.runWhole ends
  unfold serve at all
  rw [all, List.take_length, keptFilter] at reached shown
  rw [keptVisible, ← List.forall₂_map_left_iff, List.forall₂_eq_eq_eq] at shown
  obtain ⟨last',same,rfl⟩ := reached last ends
  exact ⟨shown,ends.trans same.symm⟩

theorem serveIsolatedFaults :
    let good := .connection ⟨[.data (requestWire postHi)],[],[]⟩
    let arrivals :=
      [.connection ⟨[.data [71,69,84],.fault],[],[]⟩,good,
        .connection ⟨[.data [13,10,13,10],.close],[],[]⟩,good]
    (Machine.visible (requestOf .bits32 128)
      (arrivals.zip (serve .bits32 128 128 parity 0 arrivals).1)).map Prod.snd =
      (serve .bits32 128 128 parity 0 [good,good]).1 := by
  intro good arrivals
  have bounded : ∀ arrival ∈ arrivals, Bounded .bits32 128 arrival := by decide +kernel
  have alone : (arrivals.filter fun arrival => (requestOf .bits32 128 arrival).isSome) =
    [good,good] := by decide +kernel
  exact alone ▸ (serveIsolated .bits32 128 128 (by decide) parity parityWritable 0 arrivals bounded).1

theorem serveLinearizable (t : Target) {σ : Type} (REQ_SIZE MAX_RESPONSE_SIZE : Nat)
    (real : REQ_SIZE ≤ t.isizeMax) (inner : TimedHandler σ) (state : σ) (arrivals : List Arrival)
    (n : Nat) (far : Stream) (served : Served) (arrival : arrivals[n]? = some (.connection far))
    (given : (serve t REQ_SIZE MAX_RESPONSE_SIZE inner state arrivals).1[n]? = some (some served))
    (RQ maxRetries : Nat) (near : Stream) (req : HttpClientRequest) (buffer : Bytes)
    (fresh : near.written = [] ∧ far.written = []) (good : Sendable t req) :
    let handler := timeoutHandler inner
    let now := stateAfter handler state ((arrivals.take n).filterMap (requestOf t REQ_SIZE))
    let run := requestWithRetryDelay t RQ maxRetries near req buffer
    Answerable t (answer (handler now (delivered req)).1) →
    arrived far.reads <+: run.written → arrived near.reads <+: served.written →
    (served.handled = [] ∨ served.handled = [delivered req]) ∧
    ∀ response total, run.result = .ok (response,total) → served.handled = [delivered req] ∧
      response = received (answer (handler now (delivered req)).1) ∧
      total = (responseWire (answer (handler now (delivered req)).1)).length := by
  intro handler now run able up down
  obtain ⟨a,at',input,reached,out⟩ := Machine.runNth given
  have here : at' = now := stateBefore t REQ_SIZE MAX_RESPONSE_SIZE inner reached
  obtain rfl : a = .connection far := Option.some.inj (input.symm.trans arrival)
  simp only [serveStep, Option.some.injEq] at out
  rw [here] at out
  rw [← out] at down ⊢
  exact exchangeSafe t RQ maxRetries REQ_SIZE MAX_RESPONSE_SIZE real handler now req good able near
    far buffer fresh up down

theorem serveLinearizableSecond :
    let up := requestWire postHi
    let far : Stream := ⟨[.data (up.take 30),.data (up.drop 30)],[.fault 50],[]⟩
    let arrivals : List Arrival := [.connection ⟨[.data (requestWire putHi)],[],[]⟩,.connection far]
    let response := answer (timeoutHandler parity 1 (delivered postHi)).1
    let near : Stream :=
      ⟨[.data ((responseWire response).take 9),.fault,.data ((responseWire response).drop 9)],[],[]⟩
    let run := requestWithRetryDelay .bits32 128 5 near postHi (List.replicate 128 0)
    (serve .bits32 128 128 parity 0 arrivals).1[1]? =
      some (some ⟨.err .tcpError,[delivered postHi],responseWire response⟩) ∧
    ∀ given total, run.result = .ok (given,total) → given = received response := by
  intro up far arrivals response near run
  obtain ⟨good,able,came,back⟩ : Sendable .bits32 postHi ∧ Answerable .bits32 response ∧
      arrived far.reads <+: run.written ∧
      arrived near.reads <+: responseWire response := by decide +kernel
  have served : (serve .bits32 128 128 parity 0 arrivals).1[1]? =
      some (some ⟨.err .tcpError,[delivered postHi],responseWire response⟩) := by decide +kernel
  refine ⟨served,fun given total ok => ?_⟩
  have before : (arrivals.take 1).filterMap (requestOf .bits32 128) = [delivered putHi] := by
    decide +kernel
  have each :=
    serveLinearizable .bits32 128 128 (by decide) parity 0 arrivals 1 far _ rfl served 128
      5 near postHi
    (List.replicate 128 0) ⟨rfl,rfl⟩ good
  rw [before] at each
  exact ((each able came back).2 given total ok).2.1

theorem serveLive (t : Target) {σ : Type} (REQ_SIZE MAX_RESPONSE_SIZE : Nat)
    (real : REQ_SIZE ≤ t.isizeMax) (inner : TimedHandler σ)
    (writable : ∀ state q r, (inner state q).1 = some (.ok r) → Writable r) (state : σ)
    (arrivals : List Arrival) (bounded : ∀ arrival ∈ arrivals, Bounded t REQ_SIZE arrival) (n : Nat)
    (far : Stream) (arrival : arrivals[n]? = some (.connection far)) (RQ maxRetries : Nat)
    (near : Stream) (req : HttpClientRequest) (buffer : Bytes)
    (fresh : near.written = [] ∧ far.written = [])
    (clear : ∀ w ∈ near.writes ++ far.writes, w = .accept) (good : Sendable t req)
    (head : Vec UInt8 RQ)
    (built : buildReq RQ req.method req.host req.path req.headers req.body = .ok head)
    (up : List Bytes) (whole : up.flatten = requestWire req ∧ ∀ p ∈ up, p ≠ [])
    (behind : List (ReadEvent UInt8)) (farScript : far.reads = up.map ReadEvent.data ++ behind)
    (room : (requestWire req).length ≤ REQ_SIZE) :
    let handler := timeoutHandler inner
    let now := stateAfter handler state ((arrivals.take n).filterMap (requestOf t REQ_SIZE))
    let response := answer (handler now (delivered req)).1
    let run := requestWithRetryDelay t RQ maxRetries near req buffer
    ∀ b, Answerable t response → response.buildBytes MAX_RESPONSE_SIZE = .ok b →
    b.items.length < buffer.length →
    (serve t REQ_SIZE MAX_RESPONSE_SIZE inner state arrivals).1[n]? =
      some (some ⟨.ok (),[delivered req],b.items⟩) ∧
    ∀ down later, (∀ p ∈ down, p ≠ []) → List.flatten down = b.items →
      calm near.reads = down.map ReadEvent.data ++ .close :: later →
      near.reads.count .fault < maxRetries →
        run.written = requestWire req ∧ run.result = .ok (received response,b.items.length) := by
  intro handler now response run b able answered small
  obtain ⟨last,ends⟩ := serveGoesOn t MAX_RESPONSE_SIZE real inner writable state bounded
  have all : (serve t REQ_SIZE MAX_RESPONSE_SIZE inner state arrivals).1.length = arrivals.length :=
    Machine.runWhole ends
  have inside : n < (serve t REQ_SIZE MAX_RESPONSE_SIZE inner state arrivals).1.length := by
    rw [all]
    exact (List.getElem?_eq_some_iff.mp arrival).1
  have wire : b.items = responseWire response := buildBytesBlock answered
  refine ⟨?_,fun down later nonempty arrives script few => ?_⟩
  · obtain ⟨a,at',input,reached,out⟩ := Machine.runNth (List.getElem?_eq_getElem inside)
    have here : at' = now := stateBefore t REQ_SIZE MAX_RESPONSE_SIZE inner reached
    obtain rfl : a = .connection far := Option.some.inj (input.symm.trans arrival)
    have served :=
      servedLive t good real handler now (fun w mem => clear w (List.mem_append_right _ mem))
        whole.2 whole.1
      farScript room answered
    rw [fresh.2, List.nil_append] at served
    rw [List.getElem?_eq_getElem inside]
    simp only [serveStep] at out
    rw [here, served] at out
    exact congrArg some out.symm
  · obtain ⟨wrote,result⟩ :=
      requestLive t (fun w mem => clear w (List.mem_append_left _ mem)) built able
        (wire ▸ small) nonempty
      (arrives.trans wire) script few
    rw [fresh.1, List.nil_append] at wrote
    exact ⟨wrote,wire ▸ result⟩

theorem serveLiveSecond :
    let up := requestWire postHi
    let far : Stream := ⟨[.data (up.take 30),.data (up.drop 30)],[],[]⟩
    let arrivals : List Arrival := [.connection ⟨[.data (requestWire putHi)],[],[]⟩,.connection far]
    let response := answer (timeoutHandler parity 1 (delivered postHi)).1
    let down := responseWire response
    let near : Stream := ⟨[.data (down.take 9),.fault,.data (down.drop 9),.close],[],[]⟩
    (serve .bits32 128 128 parity 0 arrivals).1[1]? = some (some ⟨.ok (),[delivered postHi],down⟩) ∧
    (requestWithRetryDelay .bits32 128 2 near postHi (List.replicate 128 0)).result =
      .ok (received response,down.length) := by
  intro up far arrivals response down near
  obtain ⟨good,able,small,whole⟩ : Sendable .bits32 postHi ∧ Answerable .bits32 response ∧
      (up.length ≤ 128 ∧ down.length < 128) ∧
      ([up.take 30,up.drop 30].flatten = up ∧ ∀ p ∈ [up.take 30,up.drop 30], p ≠ []) ∧
      [down.take 9,down.drop 9].flatten = down ∧ ∀ p ∈ [down.take 9,down.drop 9], p ≠ [] := by
    decide +kernel
  have before : (arrivals.take 1).filterMap (requestOf .bits32 128) = [delivered putHi] := by
    decide +kernel
  have live :=
    serveLive .bits32 128 128 (by decide) parity parityWritable 0 arrivals (by decide +kernel) 1 far
      rfl 128 2 near postHi
    (List.replicate 128 0) ⟨rfl,rfl⟩ (by decide) good ⟨up.take 66,by decide +kernel⟩
    (by decide +kernel) [up.take 30,up.drop 30]
    whole.1 [] (List.append_nil _).symm small.1
  rw [before] at live
  obtain ⟨served,returned⟩ := live ⟨down,by decide +kernel⟩ able (by decide +kernel) small.2
  exact ⟨served,(returned [down.take 9,down.drop 9] [] whole.2.2 whole.2.1 (by decide +kernel)
    (by decide +kernel)).2⟩

end Nanofish.ServeLoop

import Mathlib.Data.List.Pairwise
import Nanofish.Response

/-! The response builder of response.rs. Its calls push header fields in their order,
and `build` keeps the last field of each name. -/
namespace Nanofish.Builder
open Rust Rust.Utf8 Rust.Text
open Protocol Codes Response

structure HttpResponseBuilder where
  status : StatusCode
  headers : Vec HttpHeader maxHeaders
  body : Option ResponseBody
  deriving DecidableEq, Repr

def mimeJson : Str := "application/json".toList
def mimeProblemJson : Str := "application/problem+json".toList

def contentTypeHeader (value : Str) : HttpHeader := ⟨contentTypeName,value⟩

def withStatus (status : StatusCode) : HttpResponseBuilder := ⟨status,Vec.new,none⟩
def new : HttpResponseBuilder := withStatus .ok

def pushHeader (b : HttpResponseBuilder) (h : HttpHeader) : Outcome Error HttpResponseBuilder := do
  let headers ← Outcome.ofOption .bufferOverflow (b.headers.push h)
  .ok { b with headers := headers }

def status (b : HttpResponseBuilder) (status : StatusCode) : HttpResponseBuilder :=
  { b with status := status }
def header (b : HttpResponseBuilder) (name value : Str) : Outcome Error HttpResponseBuilder :=
  pushHeader b ⟨name,value⟩

def headers (b : HttpResponseBuilder) : List HttpHeader → Outcome Error HttpResponseBuilder
  | [] => .ok b
  | h :: rest => do
    let b ← pushHeader b ⟨h.name,h.value⟩
    headers b rest

def contentType (b : HttpResponseBuilder) (ct : Str) : Outcome Error HttpResponseBuilder :=
  pushHeader b (contentTypeHeader ct)

def json (b : HttpResponseBuilder) (body : Str) : Outcome Error HttpResponseBuilder := do
  let b ← pushHeader b (contentTypeHeader mimeJson)
  .ok { b with body := some (.text body) }

def problemJson (b : HttpResponseBuilder) (body : Str) : Outcome Error HttpResponseBuilder := do
  let b ← pushHeader b (contentTypeHeader mimeProblemJson)
  .ok { b with body := some (.text body) }

def text (b : HttpResponseBuilder) (body : Str) : HttpResponseBuilder :=
  { b with body := some (.text body) }
def binary (b : HttpResponseBuilder) (body : Bytes) : HttpResponseBuilder :=
  { b with body := some (.binary body) }
def emptyBody (b : HttpResponseBuilder) : HttpResponseBuilder := { b with body := some .empty }

-- One turn of the fold in `build`; its push is ignored when the list is full.
def keep (acc : Vec HttpHeader maxHeaders) (h : HttpHeader) : Vec HttpHeader maxHeaders :=
  if acc.items.any fun existing => eqIgnoreAsciiCase existing.name h.name then acc else
    (acc.push h).getD acc

def build (b : HttpResponseBuilder) : Outcome Error HttpResponse :=
  let kept := b.headers.items.reverse.foldl keep Vec.new
  .ok ⟨b.status,⟨kept.items.reverse,by rw [List.length_reverse]; exact kept.fits⟩,b.body.getD .empty⟩

/- A use of the builder: calls in their order, the first failure ends it. -/
inductive Call where
  | status (status : StatusCode)
  | header (name value : Str)
  | headers (hs : List HttpHeader)
  | contentType (ct : Str)
  | json (body : Str)
  | problemJson (body : Str)
  | text (body : Str)
  | binary (body : Bytes)
  | emptyBody
  deriving DecidableEq, Repr

def call (b : HttpResponseBuilder) : Call → Outcome Error HttpResponseBuilder
  | .status s => .ok (status b s)
  | .header name value => header b name value
  | .headers hs => headers b hs
  | .contentType ct => contentType b ct
  | .json body => json b body
  | .problemJson body => problemJson b body
  | .text body => .ok (text b body)
  | .binary body => .ok (binary b body)
  | .emptyBody => .ok (emptyBody b)

def run : List Call → HttpResponseBuilder → Outcome Error HttpResponseBuilder
  | [], b => .ok b
  | c :: calls, b => do
    let b ← call b c
    run calls b

def pushed : Call → List HttpHeader
  | .header name value => [⟨name,value⟩]
  | .headers hs => hs
  | .contentType ct => [contentTypeHeader ct]
  | .json _ => [contentTypeHeader mimeJson]
  | .problemJson _ => [contentTypeHeader mimeProblemJson]
  | _ => []

def statusSet : Call → Option StatusCode
  | .status s => some s
  | _ => none

def bodySet : Call → Option ResponseBody
  | .json body => some (.text body)
  | .problemJson body => some (.text body)
  | .text body => some (.text body)
  | .binary body => some (.binary body)
  | .emptyBody => some .empty
  | _ => none

theorem pushHeaderExtends (b : HttpResponseBuilder) (h : HttpHeader) : pushHeader b h =
    (Outcome.ofOption .bufferOverflow (b.headers.extend [h]) >>= fun hs =>
      .ok { b with headers := hs }) := rfl

theorem headersExtend (b : HttpResponseBuilder) (hs : List HttpHeader) : headers b hs =
    (Outcome.ofOption .bufferOverflow (b.headers.extend hs) >>= fun hs =>
      .ok { b with headers := hs }) := by
  induction hs generalizing b with
  | nil => rw [Vec.extendNil]; rfl
  | cons h hs ih =>
    have both : b.headers.extend (h :: hs) = (b.headers.extend [h]).bind fun v => v.extend hs :=
      (Vec.extendAppend b.headers [h] hs).symm
    rw [headers, pushHeaderExtends, both]
    cases b.headers.extend [h] with
    | none => rfl
    | some v => exact ih { b with headers := v }

theorem callExtends (b : HttpResponseBuilder) (c : Call) : call b c =
    (Outcome.ofOption .bufferOverflow (b.headers.extend (pushed c)) >>= fun hs =>
      .ok ⟨(statusSet c).getD b.status,hs,(bodySet c).or b.body⟩) := by
  cases c with
  | headers hs => exact headersExtend b hs
  | header name value => rfl
  | contentType ct => rfl
  | json body =>
    rw [call, json, pushHeaderExtends, pushed]
    cases b.headers.extend [contentTypeHeader mimeJson] <;> rfl
  | problemJson body =>
    rw [call, problemJson, pushHeaderExtends, pushed]
    cases b.headers.extend [contentTypeHeader mimeProblemJson] <;> rfl
  | status s => rw [show pushed (.status s) = [] from rfl, Vec.extendNil]; rfl
  | text body => rw [show pushed (.text body) = [] from rfl, Vec.extendNil]; rfl
  | binary body => rw [show pushed (.binary body) = [] from rfl, Vec.extendNil]; rfl
  | emptyBody => rw [show pushed .emptyBody = [] from rfl, Vec.extendNil]; rfl

theorem lastSet {α : Type} (f : Call → Option α) (c : Call) (calls : List Call) :
    ((c :: calls).filterMap f).getLast? = (calls.filterMap f).getLast?.or (f c) := by
  cases own : f c with
  | none => rw [List.filterMap_cons_none own, Option.or_none]
  | some a =>
    rw [List.filterMap_cons_some own, List.getLast?_cons]
    cases (calls.filterMap f).getLast? <;> rfl

theorem runExtends (calls : List Call) (b : HttpResponseBuilder) : run calls b =
    (Outcome.ofOption .bufferOverflow (b.headers.extend (calls.flatMap pushed)) >>= fun hs =>
      .ok ⟨(calls.filterMap statusSet).getLast?.getD b.status,hs,
        (calls.filterMap bodySet).getLast?.or b.body⟩) := by
  induction calls generalizing b with
  | nil => rw [List.flatMap_nil, Vec.extendNil]; rfl
  | cons c calls ih =>
    have both : b.headers.extend ((c :: calls).flatMap pushed) =
        (b.headers.extend (pushed c)).bind fun v => v.extend (calls.flatMap pushed) :=
      (Vec.extendAppend b.headers (pushed c) (calls.flatMap pushed)).symm
    rw [run, callExtends, both]
    cases b.headers.extend (pushed c) with
    | none => rfl
    | some v =>
      simp only [Outcome.ofOptionSome, Outcome.okBind, Option.bind_some, ih, lastSet,
        Option.getD_or, Option.or_assoc]

def lastOfName : List HttpHeader → List HttpHeader
  | [] => []
  | h :: rest =>
    if ∃ later ∈ rest, eqIgnoreAsciiCase later.name h.name =
      true then lastOfName rest else h :: lastOfName rest

def Apart (h k : HttpHeader) : Prop := eqIgnoreAsciiCase k.name h.name = false
instance : DecidableRel Apart := fun h k => by unfold Apart; infer_instance

theorem notApart {h : HttpHeader} {hs : List HttpHeader} :
    (¬ ∀ k ∈ hs, Apart h k) ↔ ∃ k ∈ hs, eqIgnoreAsciiCase k.name h.name = true := by simp [Apart]

theorem apartSplits {x y z : HttpHeader} (apart : Apart x z) : Apart x y ∨ Apart y z := by
  unfold Apart at apart ⊢
  cases same : eqIgnoreAsciiCase y.name x.name with
  | false => exact .inl rfl
  | true => rw [eqIgnoreSymm, eqIgnoreLeft same, eqIgnoreSymm, apart]; exact .inr rfl

theorem lastOfNameFilter (hs : List HttpHeader) : lastOfName hs = hs.pwFilter Apart := by
  induction hs with
  | nil => rfl
  | cons h hs ih =>
    have seen := List.forall_mem_pwFilter (R := Apart) apartSplits h hs
    by_cases apart : ∀ k ∈ hs, Apart h k
    · rw [List.pwFilter_cons_of_pos (seen.mpr apart), lastOfName,
        if_neg fun hidden => notApart.mpr hidden apart, ih]
    · rw [List.pwFilter_cons_of_neg fun clear => apart (seen.mp clear), lastOfName,
        if_pos (notApart.mp apart), ih]

theorem keepItems {acc : Vec HttpHeader maxHeaders} {h : HttpHeader}
    (room : acc.items.length < maxHeaders) :
    (keep acc h).items = if ∀ k ∈ acc.items, Apart h k then acc.items ++ [h] else acc.items := by
  have hidden : (acc.items.any fun existing => eqIgnoreAsciiCase existing.name h.name) = true ↔
      ¬ ∀ k ∈ acc.items, Apart h k := by
    rw [notApart, List.any_eq_true]
  unfold keep
  split
  · rename_i seen
    rw [if_neg (hidden.mp seen)]
  · rename_i fresh
    rw [if_pos (Decidable.not_not.mp fun clear => fresh (hidden.mpr clear))]
    cases pushed : acc.push h with
    | none =>
      have full := Vec.extendFull.mp pushed
      rw [List.length_singleton] at full
      omega
    | some v => exact Vec.extendSome.mp pushed

theorem foldKeeps {hs : List HttpHeader} (few : hs.length ≤ maxHeaders) :
    (hs.reverse.foldl keep Vec.new).items.reverse = hs.pwFilter Apart := by
  rw [List.foldl_reverse]
  induction hs with
  | nil => rfl
  | cons h hs ih =>
    have kept := ih (Nat.le_of_succ_le few)
    rw [List.foldr_cons]
    generalize List.foldr (fun x y => keep y x) Vec.new hs = acc at kept ⊢
    have size : acc.items.length ≤ hs.length := by
      rw [← List.length_reverse, kept]
      exact (List.pwFilter_sublist hs).length_le
    have clear : (∀ k ∈ acc.items, Apart h k) ↔ ∀ k ∈ hs.pwFilter Apart, Apart h k := by
      rw [← kept]
      simp only [List.mem_reverse]
    rw [keepItems (Nat.lt_of_le_of_lt size few)]
    split
    · rename_i apart
      rw [List.pwFilter_cons_of_pos (clear.mp apart), List.reverse_append, kept]
      rfl
    · rename_i hidden
      rw [List.pwFilter_cons_of_neg fun apart => hidden (clear.mpr apart), kept]

theorem buildHeaders (b : HttpResponseBuilder) :
    ∃ r, build b = .ok r ∧ r.statusCode = b.status ∧ r.headers.items = lastOfName b.headers.items ∧
    r.body = b.body.getD .empty :=
  ⟨_,rfl,rfl,by rw [lastOfNameFilter]; exact foldKeeps b.headers.fits,rfl⟩

theorem lastOfNameFind (hs : List HttpHeader) (name : Str) :
    (lastOfName hs).find? (isNamed name) = (hs.filter (isNamed name)).getLast? := by
  induction hs with
  | nil => rfl
  | cons h hs ih =>
    rw [lastOfName]
    by_cases asked : isNamed name h = true
    · rw [List.filter_cons_of_pos asked]
      split
      · rename_i hidden
        obtain ⟨later,mem,same⟩ := hidden
        have inside : later ∈ hs.filter (isNamed name) :=
          List.mem_filter.mpr ⟨mem,(eqIgnoreLeft same name).trans asked⟩
        obtain ⟨k,ks,more⟩ := List.exists_cons_of_ne_nil (List.ne_nil_of_mem inside)
        rw [ih, more, List.getLast?_cons_cons]
      · rename_i clear
        have none : hs.filter (isNamed name) = [] := by
          refine List.filter_eq_nil_iff.mpr fun later mem same => clear ⟨later,mem,?_⟩
          rw [eqIgnoreLeft same, eqIgnoreSymm]
          exact asked
        rw [List.find?_cons_of_pos asked, none]
        rfl
    · rw [List.filter_cons_of_neg asked, ← ih]
      split
      · rfl
      · rw [List.find?_cons_of_neg asked]

theorem buildAgain {b : HttpResponseBuilder} (clean : b.headers.items.Pairwise Apart) :
    ∃ r, build b = .ok r ∧ r.headers = b.headers := by
  obtain ⟨r,built,_,items,_⟩ := buildHeaders b
  refine ⟨r,built,Vec.ext ?_⟩
  rw [items, lastOfNameFilter, List.pwFilter_eq_self.mpr clean]

theorem buildLast (start : StatusCode) (calls : List Call) (b : HttpResponseBuilder)
    (ran : run calls (withStatus start) = .ok b) :
    (∃ r, build b = .ok r ∧ r.headers.items = lastOfName (calls.flatMap pushed) ∧
      (r.headers.items.Pairwise fun h k => eqIgnoreAsciiCase k.name h.name = false) ∧
      (∀ name, r.getHeader name = (((calls.flatMap pushed).filter (isNamed name)).getLast?).map
        HttpHeader.value) ∧
      r.statusCode = (calls.filterMap statusSet).getLast?.getD start ∧
      r.body = (calls.filterMap bodySet).getLast?.getD .empty ∧
      ∀ status body, ∃ again, build ⟨status,r.headers,body⟩ = .ok again ∧ again.headers = r.headers) ∧
    ∀ c, if (calls.flatMap pushed ++ pushed c).length ≤ maxHeaders then ∃ b', call b c = .ok b'
      else call b c = .err .bufferOverflow := by
  rw [runExtends] at ran
  obtain ⟨hs,extended,made⟩ := Outcome.bindOk.mp ran
  have items : hs.items = calls.flatMap pushed := Vec.extendSome.mp (Outcome.ofOptionOk.mp extended)
  cases made
  refine ⟨?_,fun c => ?_⟩
  · obtain ⟨r,built,status,kept,body⟩ :=
      buildHeaders ⟨(calls.filterMap statusSet).getLast?.getD (withStatus start).status,hs,
      (calls.filterMap bodySet).getLast?.or (withStatus start).body⟩
    rw [items] at kept
    have apart : r.headers.items.Pairwise Apart := by
      rw [kept, lastOfNameFilter]
      exact List.pairwise_pwFilter _
    refine ⟨r,built,kept,apart,fun name => ?_,status,?_,fun status body => buildAgain apart⟩
    · rw [← lastOfNameFind, ← kept]
      rfl
    · rw [body]
      simp only [withStatus, Option.or_none]
  · rw [callExtends]
    split
    · rename_i room
      cases more : hs.extend (pushed c) with
      | none =>
        have full := Vec.extendFull.mp more
        rw [items, ← List.length_append] at full
        omega
      | some v => exact ⟨_,rfl⟩
    · rename_i full
      rw [Vec.extendFull.mpr (by rw [items, ← List.length_append]; omega)]
      rfl

theorem buildLastJson :
    let calls : List Call :=
      [.header "X-A".toList "1".toList,.json "[]".toList,.header "x-a".toList "2".toList,
        .status .notFound]
    ∃ b r, run calls new = .ok b ∧ build b = .ok r ∧
      r.headers.items = [⟨contentTypeName,mimeJson⟩,⟨"x-a".toList,"2".toList⟩] ∧
      r.statusCode = .notFound ∧ r.body = .text "[]".toList := by
  intro calls
  let b : HttpResponseBuilder :=
    ⟨.notFound,⟨calls.flatMap pushed,by decide +kernel⟩,some (.text "[]".toList)⟩
  have ran : run calls (withStatus .ok) = .ok b := by decide +kernel
  obtain ⟨⟨r,built,kept,_,_,status,body,_⟩,_⟩ := buildLast .ok calls b ran
  exact ⟨b,r,ran,built,kept.trans (by decide +kernel),status.trans (by decide +kernel),
    body.trans (by decide +kernel)⟩

end Nanofish.Builder

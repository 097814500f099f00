import BladePSGI.Group.Requests
import Mathlib.Algebra.Group.Nat.Defs
import Mathlib.Data.List.Perm.Basic
import Mathlib.Data.Nat.ModEq

/-!
# What the request counter counts

`MainLoopIteration` increases the counter after every call of the callback that returns. The
callback tells a failed `Accept` (`-1`) from a request that it has finished (`1`), but
`bladepsgi_perl_callback_call` discards its result; and a callback that dies returns like the others
if its exception is false. A worker that dies between the two steps has finished a request that
nobody counts.

* `total_returns_eq`: when no living worker is between the two steps, the calls that have returned
  are those that have been counted and those whose worker has died before.
* `requestCounter_eq_iff`: the counter is the number of the requests exactly if as many calls have
  returned without a request as workers have died between the two steps, up to multiples of `2^64`.
-/

namespace BladePSGI.Group

open Function Transition

variable {cfg : Overseer.Config} {s s' : State} {a : Action} {tr es : List Event} {pid : Pid}

/-! ## Counting -/

/-- `bladepsgi_perl_callback_call` returns `0`. -/
def ChildEvent.returns : ChildEvent → Bool
  | .notAccepted | .finished | .diedUnnoticed => true
  | _ => false

/-- It does so although no request has been finished. -/
def ChildEvent.returnsUnserved : ChildEvent → Bool
  | .notAccepted | .diedUnnoticed => true
  | _ => false

/-- The events of the children that are counted. -/
def Event.counts (f : ChildEvent → Bool) : Event → Bool
  | .child _ e => f e
  | _ => false

/-- How often the children have emitted an event of the kind. -/
def total (f : ChildEvent → Bool) (tr : List Event) : ℕ := tr.countP (Event.counts f)

/-- The children that have emitted an event of the kind, once for every event. -/
def emitters (f : ChildEvent → Bool) (tr : List Event) : List Pid :=
  tr.filterMap fun e =>
    match e with
    | .child pid e => if f e then some pid else none
    | _ => none

theorem total_append (f : ChildEvent → Bool) (tr es : List Event) :
    total f (tr ++ es) = total f tr + total f es :=
  List.countP_append

theorem total_cons (f : ChildEvent → Bool) (e : Event) (tr : List Event) :
    total f (e :: tr) = total f tr + if e.counts f then 1 else 0 :=
  List.countP_cons

theorem length_emitters (f : ChildEvent → Bool) (tr : List Event) :
    (emitters f tr).length = total f tr := by
  induction tr with
  | nil => rfl
  | cons e tr ih =>
    rw [emitters, List.filterMap_cons, total_cons, ← ih]
    cases e with
    | child pid e => by_cases h : f e <;> simp [h, Event.counts, emitters]
    | _ => rfl

theorem count_emitters (f : ChildEvent → Bool) (tr : List Event) (pid : Pid) :
    (emitters f tr).count pid = (childTrace tr pid).countP f := by
  induction tr with
  | nil => rfl
  | cons e tr ih =>
    rw [emitters, childTrace, List.filterMap_cons, List.filterMap_cons, ← emitters, ← childTrace]
    cases e with
    | child q e =>
      by_cases hq : q = pid <;> by_cases hf : f e <;>
        simp [Event.ofChild, hq, hf, ih]
    | _ => exact ih

/-- The increments that a worker still owes. -/
def Phase.owed : Phase → ℕ
  | .returned => 1
  | _ => 0

/-- A worker increases the counter once for every call of the callback that has returned. -/
theorem countP_returns {es : List ChildEvent} (h : Each (fun l e => (phase l).Emits e) es) :
    es.countP ChildEvent.returns =
      es.countP (· = .increaseRequestCounter) + (phase es).owed := by
  induction es using List.reverseRecOn with
  | nil => rfl
  | append_singleton es e ih =>
    obtain ⟨hes, he⟩ := each_concat.1 h
    rw [List.countP_append, List.countP_append, ih hes, phase_append]
    clear ih h hes
    cases e <;> simp only [Phase.Emits] at he <;>
      simp [he, Phase.next, Phase.owed, ChildEvent.returns]

/-! ## The counter -/

theorem ChildStep.requestCounter_eq {p : Process} {e : Option ChildEvent}
    (h : ChildStep s pid p e s' es) :
    s'.requestCounter =
      s.requestCounter + BitVec.ofNat 64 (total (· = .increaseRequestCounter) es) := by
  cases h with
  | increaseRequestCounter => rfl
  | kill => simp [total, Event.counts]
  | note _ _ hcount => simp [total, Event.counts, hcount]
  | _ => simp [total, Event.counts, State.without]

/-- A step adds its calls of `IncreaseRequestCounter`. -/
theorem Step.requestCounter_eq (h : Step cfg s a s' es) :
    s'.requestCounter =
      s.requestCounter + BitVec.ofNat 64 (total (· = .increaseRequestCounter) es) := by
  have quiet : ∀ es : List Overseer.Event,
      total (· = .increaseRequestCounter) (es.map .overseer) = 0 := fun es => by
    simp [total, Event.counts, List.countP_eq_zero]
  cases h with
  | overseer | deliver => simp [quiet]
  | child _ _ hc => exact hc.requestCounter_eq
  | deliverChild _ _ _ hc => exact hc.requestCounter_eq
  | signal => simp [total, Event.counts]
  | _ => simp [total, Event.counts, State.without, State.parentEnds]

/-- The counter counts the calls of `IncreaseRequestCounter`. -/
theorem requestCounter_eq_total (h : Reach cfg tr s) :
    s.requestCounter = BitVec.ofNat 64 (total (· = .increaseRequestCounter) tr) := by
  refine h.invariant (fun tr s => s.requestCounter =
    BitVec.ofNat 64 (total (· = .increaseRequestCounter) tr)) rfl ?_
  rintro tr s a s' es - ih - hs
  rw [total_append, BitVec.ofNat_add, ← ih]
  exact (step_cases hs).requestCounter_eq

theorem total_returns (tr : List Event) :
    total ChildEvent.returns tr =
      total (· = .finished) tr + total ChildEvent.returnsUnserved tr := by
  induction tr with
  | nil => rfl
  | cons e tr ih =>
    rw [total_cons, total_cons, total_cons, ih]
    cases e with
    | child pid e =>
      cases e <;> simp [Event.counts, ChildEvent.returns, ChildEvent.returnsUnserved] <;> omega
    | _ => simp [Event.counts]

/-- How many workers have died between the return of the callback and `IncreaseRequestCounter`. -/
def diedUncounted (tr : List Event) : ℕ :=
  (Overseer.dead (overseerTrace tr)).countP fun pid => phase (childTrace tr pid) = .returned

/-- A child that has made a step and does not live has died, once. -/
theorem count_dead (h : Reach cfg tr s) (hp : ¬ (s.processes pid).isSome)
    (he : childTrace tr pid ≠ []) : (Overseer.dead (overseerTrace tr)).count pid = 1 := by
  have hburied := Overseer.buried_of_reach (reach_overseer h)
  obtain ⟨e, he⟩ := List.exists_mem_of_ne_nil _ he
  obtain ⟨child, hf⟩ := forked_of_child h (mem_childTrace.1 he)
  refine List.count_eq_one_of_mem hburied.nodup ((hburied.mem_iff pid).2 ⟨⟨child, ?_⟩, ?_⟩)
  · exact mem_overseerTrace.2 hf
  · rwa [← isSome_processes_iff h]

/-- **Every call that has returned has been counted**, or its worker has died. -/
theorem total_returns_eq (h : Reach cfg tr s)
    (hret : ∀ pid, (s.processes pid).isSome → phase (childTrace tr pid) ≠ .returned) :
    total ChildEvent.returns tr = total (· = .increaseRequestCounter) tr + diedUncounted tr := by
  rw [← length_emitters, ← length_emitters, diedUncounted, List.countP_eq_length_filter,
    ← List.length_append]
  refine (List.perm_iff_count.2 fun pid => ?_).length_eq
  rw [List.count_append, count_emitters, count_emitters,
    countP_returns ((phased_of_reach h).emits pid)]
  by_cases hphase : phase (childTrace tr pid) = .returned
  · have hne : childTrace tr pid ≠ [] := by
      intro hnil
      rw [hnil] at hphase
      cases hphase
    rw [List.count_filter (by simpa using hphase),
      count_dead h (fun hp => hret pid hp hphase) hne, hphase]
    rfl
  · have howed : (phase (childTrace tr pid)).owed = 0 := by
      cases h : phase (childTrace tr pid) <;> simp_all [Phase.owed]
    rw [howed, List.count_eq_zero_of_not_mem (by simp [hphase])]

/-- **The counter counts the calls of the callback**, whatever they have returned. -/
theorem requestCounter_add (h : Reach cfg tr s)
    (hret : ∀ pid, (s.processes pid).isSome → phase (childTrace tr pid) ≠ .returned) :
    s.requestCounter + BitVec.ofNat 64 (diedUncounted tr) =
      BitVec.ofNat 64 (total (· = .finished) tr + total ChildEvent.returnsUnserved tr) := by
  rw [requestCounter_eq_total h, ← BitVec.ofNat_add, ← total_returns_eq h hret, total_returns]

/-- **When the request counter counts the requests**: exactly if the number of calls of the callback
that have returned without a request and the number of workers that have died before they counted a
call are the same, up to multiples of `2^64`. -/
theorem requestCounter_eq_iff (h : Reach cfg tr s)
    (hret : ∀ pid, (s.processes pid).isSome → phase (childTrace tr pid) ≠ .returned) :
    s.requestCounter = BitVec.ofNat 64 (total (· = .finished) tr) ↔
      total ChildEvent.returnsUnserved tr ≡ diedUncounted tr [MOD 2 ^ 64] := by
  have hadd := requestCounter_add h hret
  rw [← BitVec.toNat_inj, BitVec.toNat_add, BitVec.toNat_ofNat, BitVec.toNat_ofNat] at hadd
  rw [← BitVec.toNat_inj, BitVec.toNat_ofNat, Nat.ModEq]
  have := s.requestCounter.isLt
  omega

/-- The worker comes up and serves a request. -/
def servedRequest : List Action :=
  startup ++ [.child 10 .ok, .child 10 .ok, .child 10 .ok, .child 10 .ok, .child 10 .ok,
    .child 10 .ok, .child 10 .ok, .child 10 .ok, .child 10 .ok, .child 10 .ok, .child 10 .ok,
    .child 10 .ok, .child 10 .ok]

theorem isSome_exec_servedRequest :
    ((machine Overseer.oneWorker).exec (init Overseer.oneWorker) servedRequest).isSome := by
  decide

theorem requestCounter_eq_iff_servedRequest : ∃ tr s, Reach Overseer.oneWorker tr s ∧
    (∀ pid, (s.processes pid).isSome → phase (childTrace tr pid) ≠ .returned) ∧
    total (· = .finished) tr = 1 ∧
    s.requestCounter = BitVec.ofNat 64 (total (· = .finished) tr) := by
  let tr : List Event := [.overseer (.fork 10 (.worker 0)), .overseer (.fork 11 .monitoring),
    .overseer (.log .startupComplete), .child 10 .setDeathSignal, .child 10 .unblockSignals,
    .child 10 (.setWorkerStatus 0 '_'), .child 10 .callBegin, .child 10 .accepted,
    .child 10 .finished, .child 10 .increaseRequestCounter]
  have h : Reach Overseer.oneWorker tr _ := Machine.reach_exec isSome_exec_servedRequest
  have hret : ∀ pid, phase (childTrace tr pid) ≠ .returned := by
    intro pid
    by_cases hpid : pid = 10
    · subst hpid
      decide
    · rw [childTrace_eq_nil (by simp [tr, hpid])]
      decide
  exact ⟨tr, _, h, fun pid _ => hret pid, by decide,
    (requestCounter_eq_iff h fun pid _ => hret pid).2 (by decide)⟩

/-- A `SIGTERM` from outside interrupts the worker's `Accept`. -/
def interruptedAccept : List Action :=
  startup ++ [.child 10 .ok, .child 10 .ok, .child 10 .ok, .child 10 .ok, .child 10 .ok,
    .child 10 .ok, .child 10 .ok, .child 10 .ok, .child 10 .ok, .signal 10 .sigterm,
    .deliverChild 10 .sigterm, .child 10 .ok, .child 10 .ok]

theorem isSome_exec_interruptedAccept :
    ((machine Overseer.oneWorker).exec (init Overseer.oneWorker) interruptedAccept).isSome := by
  decide

/-- The counterexample to the count: a failed `Accept` is counted like a request. -/
theorem not_requestCounter_eq : ¬ ∀ (cfg : Overseer.Config) (tr : List Event) (s : State),
    Reach cfg tr s → (∀ pid, (s.processes pid).isSome → phase (childTrace tr pid) ≠ .returned) →
      s.requestCounter = BitVec.ofNat 64 (total (· = .finished) tr) := by
  intro h
  let tr : List Event := [.overseer (.fork 10 (.worker 0)), .overseer (.fork 11 .monitoring),
    .overseer (.log .startupComplete), .child 10 .setDeathSignal, .child 10 .unblockSignals,
    .child 10 (.setWorkerStatus 0 '_'), .child 10 .callBegin, .signalled 10 .sigterm,
    .child 10 .notAccepted, .child 10 .increaseRequestCounter]
  have hreach : Reach Overseer.oneWorker tr _ := Machine.reach_exec isSome_exec_interruptedAccept
  have hcount := h Overseer.oneWorker tr _ hreach fun pid _ => by
    by_cases hpid : pid = 10
    · subst hpid
      decide
    · rw [childTrace_eq_nil (by simp [tr, hpid])]
      decide
  exact absurd hcount (by decide)

end BladePSGI.Group

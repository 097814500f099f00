import BladePSGI.Group.Child
import BladePSGI.Overseer.Step

/-!
# The process group

The overseer and its children, each with its own memory, in any interleaving. The exit flag and the
request counter are shared; everything else goes through the kernel: a `fork` gives the child its
copy of the overseer's lists, a `kill` makes a signal pending, the end of the overseer sends the
death signals, and the end of a child leaves a zombie and raises `SIGCHLD`.

The overseer's part of a step is a step of `Overseer.machine`, so that what holds in every run of
the overseer holds in every run of the group (`reach_overseer`). `step_cases` says once what a step
can do (`Step`, `ChildStep`), and `processes_foldl` what the overseer's events do to a child.
-/

namespace BladePSGI.Group

open Function Transition

/-- What a child runs. -/
inductive Program
  | worker (w : Worker)
  | auxiliary (x : Auxiliary)
  | monitoring (m : Monitoring)
  deriving DecidableEq

/-- A child that has not terminated, with what the kernel keeps for it. -/
structure Process where
  program : Program
  pending : Signal → Bool
  signalsBlocked : Bool
  /-- `SIGQUIT` will be sent when the overseer ends. -/
  deathSignal : Bool

structure State where
  overseer : Overseer.State
  processes : Pid → Option Process
  /-- The overseer was killed by `SIGKILL`. -/
  runnerKilled : Bool
  requestCounter : BitVec 64

def init (cfg : Overseer.Config) : State where
  overseer := Overseer.init cfg
  processes := fun _ => none
  runnerKilled := false
  requestCounter := 0

inductive Event
  | overseer (e : Overseer.Event)
  | child (pid : Pid) (e : ChildEvent)
  /-- A signal is sent to the overseer from outside of the group. -/
  | raised (sig : Signal)
  /-- A signal is sent to a child from outside of the group. -/
  | signalled (pid : Pid) (sig : Signal)
  /-- A child terminates by itself. -/
  | dies (pid : Pid) (status : WaitStatus)
  | runnerKilled
  deriving DecidableEq

/-- What a step leads to. -/
abbrev Result := Option (State × List Event)

namespace Process

/-- A new child. All signals are blocked, as they are in the overseer. -/
def forked (overseer : Overseer.State) (child : Overseer.Child) : Process where
  program :=
    match child with
    | .worker workerno => .worker ⟨workerno, .init .prctl, false⟩
    | .auxiliary index =>
      .auxiliary ⟨(overseer.auxiliaryProcesses[index]?.map Overseer.AuxiliaryProcess.name).getD "",
        .init .prctl⟩
    | .monitoring => .monitoring ⟨overseer.workerPids, .init .setProcessTitle⟩
  pending := fun _ => false
  signalsBlocked := true
  deathSignal := false

def raise (p : Process) (sig : Signal) : Process := { p with pending := update p.pending sig true }

/-- The overseer ends. -/
def parentEnds (p : Process) : Process := if p.deathSignal then p.raise .sigquit else p

/-- What an event of the process changes in what the kernel keeps for it. -/
def note (p : Process) : ChildEvent → Process
  | .setDeathSignal => { p with deathSignal := true }
  | .unblockSignals => { p with signalsBlocked := false }
  | _ => p

/-- The next step of the program. -/
def step (p : Process) (runnerDied shouldExit : Bool) (o : Outcome) :
    Option (Program × Option ChildEvent) :=
  match p.program with
  | .worker w => (w.step shouldExit o).map fun r => (.worker r.1, r.2)
  | .auxiliary x => (x.step o).map fun r => (.auxiliary r.1, r.2)
  | .monitoring m => (m.step runnerDied shouldExit o).map fun r => (.monitoring r.1, r.2)

/-- The arrival of a signal. -/
def handle (p : Process) (sig : Signal) : Program × Option ChildEvent :=
  match p.program with
  | .worker w => ((.worker (w.handle sig).1), (w.handle sig).2)
  | .auxiliary x => ((.auxiliary (x.handle sig).1), (x.handle sig).2)
  | .monitoring m => ((.monitoring (m.handle sig).1), (m.handle sig).2)

end Process

namespace State

/-- `RunnerDied()`, as `getppid` tells it. -/
def runnerDied (s : State) : Bool := s.overseer.terminated.isSome || s.runnerKilled

/-- `kill(pid, sig)`. -/
def signal (s : State) (pid : Pid) (sig : Signal) : State :=
  match s.processes pid with
  | none => s
  | some p => { s with processes := update s.processes pid (some (p.raise sig)) }

def parentEnds (s : State) : State :=
  { s with processes := fun pid => (s.processes pid).map Process.parentEnds }

/-! ## Steps of the overseer -/

/-- What an event of the overseer changes outside of it. -/
def noteOverseer (s : State) : Overseer.Event → State
  | .fork pid child =>
    { s with processes := update s.processes pid (some (.forked s.overseer child)) }
  | .kill pid sig => s.signal pid sig
  | .terminate _ => s.parentEnds
  | _ => s

def overseerStep (cfg : Overseer.Config) (s : State) (a : Overseer.Action) : Result :=
  match (Overseer.machine cfg).step s.overseer a with
  | none => none
  | some (overseer, es) => some (es.foldl noteOverseer { s with overseer }, es.map .overseer)

/-! ## Steps of the children -/

/-- The child is gone, and the overseer hears of it. -/
def childDies (cfg : Overseer.Config) (s : State) (pid : Pid) (status : WaitStatus) (e : Event) :
    Result :=
  match (Overseer.machine cfg).step s.overseer (.childDies pid status) with
  | none => none
  | some (overseer, es) =>
    some ({ s with overseer, processes := update s.processes pid none }, e :: es.map .overseer)

/-- The child `pid`, now `p`, has made a step with this event. -/
def childStep (cfg : Overseer.Config) (s : State) (pid : Pid) (p : Process) :
    Option ChildEvent → Result
  | none => some ({ s with processes := update s.processes pid (some p) }, [])
  | some (.terminate status) => s.childDies cfg pid status (.child pid (.terminate status))
  | some e =>
    let s' := { s with processes := update s.processes pid (some (p.note e)) }
    match e with
    | .setShouldExit _ =>
      some ({ s' with overseer := { s.overseer with shouldExitImmediately := true } },
        [.child pid e])
    | .increaseRequestCounter =>
      some ({ s' with requestCounter := s.requestCounter + 1 }, [.child pid e])
    | .kill q sig => some (s'.signal q sig, [.child pid e])
    | _ => some (s', [.child pid e])

end State

/-! ## The whole group -/

inductive Action
  /-- The overseer makes its next step. -/
  | overseer (o : Overseer.Outcome)
  /-- A pending signal interrupts the overseer. -/
  | deliver (sig : Signal)
  /-- A child makes its next step. -/
  | child (pid : Pid) (o : Outcome)
  /-- A pending signal interrupts a child. -/
  | deliverChild (pid : Pid) (sig : Signal)
  | raise (sig : Signal)
  | signal (pid : Pid) (sig : Signal)
  | dies (pid : Pid) (status : WaitStatus)
  | killRunner
  deriving DecidableEq

def step (cfg : Overseer.Config) (s : State) : Action → Result
  | .overseer o => if s.runnerKilled then none else s.overseerStep cfg (.run o)
  | .deliver sig => if s.runnerKilled then none else s.overseerStep cfg (.deliver sig)
  | .child pid o =>
    match s.processes pid with
    | none => none
    | some p =>
      match p.step s.runnerDied s.overseer.shouldExitImmediately o with
      | none => none
      | some (program, e) => s.childStep cfg pid { p with program } e
  | .deliverChild pid sig =>
    match s.processes pid with
    | none => none
    | some p =>
      if p.pending sig ∧ p.signalsBlocked = false then
        let (program, e) := p.handle sig
        s.childStep cfg pid { p with program, pending := update p.pending sig false } e
      else none
  | .raise sig =>
    some ({ s with
      overseer := { s.overseer with pending := update s.overseer.pending sig true } },
        [.raised sig])
  | .signal pid sig => some (s.signal pid sig, [.signalled pid sig])
  | .dies pid status =>
    match s.processes pid with
    | none => none
    | some _ => s.childDies cfg pid status (.dies pid status)
  | .killRunner => if s.runnerDied then none else some ({ s.parentEnds with runnerKilled := true },
      [.runnerKilled])

/-- The process group as a machine. -/
def machine (cfg : Overseer.Config) : Machine State Action Event := ⟨step cfg⟩

/-- The runs of the group from before the first `fork`. -/
abbrev Reach (cfg : Overseer.Config) : List Event → State → Prop := (machine cfg).Reach (init cfg)

/-- The startup of `Overseer.oneWorker`. -/
def startup : List Action :=
  [.overseer .ok, .overseer (.forked 10), .overseer .ok, .overseer (.forked 11), .overseer .ok,
    .overseer .ok, .overseer .ok]

/-- The children come up, and a `SIGTERM` ends them: the worker at the head of its loop, the
monitoring process at once. -/
def smartShutdown : List Action :=
  startup ++ [.child 10 .ok, .child 10 .ok, .child 10 .ok, .child 10 .ok, .child 11 .ok,
    .child 11 .ok, .child 11 .ok, .raise .sigterm, .deliver .sigterm, .overseer .ok, .overseer .ok,
    .overseer .ok, .overseer .ok, .overseer .ready, .overseer .ok, .overseer .ok, .overseer .ok,
    .overseer .ok, .overseer .ok, .overseer .ok, .overseer .ok, .overseer .ok, .overseer .ok,
    .overseer .ok, .overseer .ok, .deliverChild 10 .sigterm, .child 10 .ok, .child 10 .ok,
    .deliverChild 11 .sigterm, .overseer (.wait (.child 10)), .overseer .ok, .overseer .ok,
    .overseer .ok, .overseer (.wait (.child 11)), .overseer .ok, .overseer .ok, .overseer .ok,
    .overseer (.wait .noChild)]

theorem isSome_exec_smartShutdown :
    ((machine Overseer.oneWorker).exec (init Overseer.oneWorker) smartShutdown).isSome := by
  decide

/-- The events of the overseer. -/
def Event.overseer? : Event → Option Overseer.Event
  | .overseer e => some e
  | _ => none

/-- The trace of the overseer. -/
def overseerTrace (tr : List Event) : List Overseer.Event := tr.filterMap Event.overseer?

theorem overseerTrace_append (tr es : List Event) :
    overseerTrace (tr ++ es) = overseerTrace tr ++ overseerTrace es :=
  List.filterMap_append

@[simp] theorem overseerTrace_map (es : List Overseer.Event) :
    overseerTrace (es.map .overseer) = es := by
  rw [overseerTrace, List.filterMap_map]
  exact List.filterMap_some

@[simp] theorem mem_overseerTrace {e : Overseer.Event} {tr : List Event} :
    e ∈ overseerTrace tr ↔ .overseer e ∈ tr := by
  simp only [overseerTrace, List.mem_filterMap]
  constructor
  · rintro ⟨e', hmem, he⟩
    cases e' <;> simp_all [Event.overseer?]
  · exact fun h => ⟨_, h, rfl⟩

/-! ## What the overseer's events do to the children -/

section Note

variable {s : State} {pid q : Pid} {sig : Signal} {e : Overseer.Event} {es : List Overseer.Event}
  {p p' p'' : Process}

/-- What signals of the group can do to a process. -/
structure Touched (pid : Pid) (es : List Overseer.Event) (p p' : Process) : Prop where
  program : p'.program = p.program
  signalsBlocked : p'.signalsBlocked = p.signalsBlocked
  deathSignal : p'.deathSignal = p.deathSignal
  pending : ∀ sig, p'.pending sig = true → p.pending sig = true ∨ .kill pid sig ∈ es ∨
    sig = .sigquit ∧ p.deathSignal = true ∧ ∃ how, .terminate how ∈ es

theorem Touched.refl (p : Process) : Touched pid es p p := ⟨rfl, rfl, rfl, fun _ => Or.inl⟩

theorem Touched.trans (h : Touched pid [e] p p') (h' : Touched pid es p' p'') :
    Touched pid (e :: es) p p'' := by
  refine ⟨h'.program.trans h.program, h'.signalsBlocked.trans h.signalsBlocked,
    h'.deathSignal.trans h.deathSignal, fun sig hp => ?_⟩
  rcases h'.pending sig hp with hp | hk | ⟨hsig, hd, how, ht⟩
  · rcases h.pending sig hp with hp | hk | ⟨hsig, hd, how, ht⟩
    · exact Or.inl hp
    · exact Or.inr (Or.inl (by simp_all))
    · exact Or.inr (Or.inr ⟨hsig, hd, how, by simp_all⟩)
  · exact Or.inr (Or.inl (List.mem_cons_of_mem _ hk))
  · exact Or.inr (Or.inr ⟨hsig, h.deathSignal ▸ hd, how, List.mem_cons_of_mem _ ht⟩)

theorem Touched.cons (h : Touched pid es p p') : Touched pid (e :: es) p p' :=
  (Touched.refl p).trans h

@[simp] theorem overseer_signal : (s.signal pid sig).overseer = s.overseer := by
  unfold State.signal
  split <;> rfl

@[simp] theorem runnerKilled_signal : (s.signal pid sig).runnerKilled = s.runnerKilled := by
  unfold State.signal
  split <;> rfl

@[simp] theorem requestCounter_signal :
    (s.signal pid sig).requestCounter = s.requestCounter := by
  unfold State.signal
  split <;> rfl

theorem isSome_processes_signal :
    ((s.signal q sig).processes pid).isSome = (s.processes pid).isSome := by
  unfold State.signal
  split
  · rfl
  · rename_i p hp
    by_cases h : pid = q
    · simp [h, hp]
    · simp [h]

theorem processes_signal (h : (s.signal q sig).processes pid = some p') :
    ∃ p, s.processes pid = some p ∧ Touched pid [.kill q sig] p p' := by
  unfold State.signal at h
  split at h
  · exact ⟨p', h, .refl p'⟩
  · rename_i p hp
    dsimp only at h
    by_cases hq : pid = q
    · subst hq
      rw [update_self, Option.some.injEq] at h
      subst h
      refine ⟨p, hp, rfl, rfl, rfl, fun sig' hs => ?_⟩
      by_cases hsig : sig' = sig
      · exact Or.inr (Or.inl (by simp [hsig]))
      · exact Or.inl (by simpa [Process.raise, hsig] using hs)
    · rw [update_of_ne hq] at h
      exact ⟨p', h, .refl p'⟩

theorem processes_parentEnds (h : s.parentEnds.processes pid = some p') :
    ∃ p, s.processes pid = some p ∧ p' = p.parentEnds := by
  obtain ⟨p, hp, h⟩ := Option.map_eq_some_iff.1 h
  exact ⟨p, hp, h.symm⟩

theorem touched_parentEnds {how : Termination} (hes : .terminate how ∈ es) :
    Touched pid es p p.parentEnds := by
  unfold Process.parentEnds
  split
  · rename_i hd
    refine ⟨rfl, rfl, rfl, fun sig hs => ?_⟩
    by_cases hsig : sig = .sigquit
    · exact Or.inr (Or.inr ⟨hsig, hd, how, hes⟩)
    · exact Or.inl (by simpa [Process.raise, hsig] using hs)
  · exact .refl p

@[simp] theorem overseer_noteOverseer : (s.noteOverseer e).overseer = s.overseer := by
  cases e <;> first | rfl | exact overseer_signal

@[simp] theorem overseer_foldl : (es.foldl State.noteOverseer s).overseer = s.overseer := by
  induction es generalizing s with
  | nil => rfl
  | cons e es ih => rw [List.foldl_cons, ih, overseer_noteOverseer]

@[simp] theorem requestCounter_foldl :
    (es.foldl State.noteOverseer s).requestCounter = s.requestCounter := by
  induction es generalizing s with
  | nil => rfl
  | cons e es ih =>
    rw [List.foldl_cons, ih]
    cases e <;> first | rfl | exact requestCounter_signal

@[simp] theorem runnerKilled_foldl :
    (es.foldl State.noteOverseer s).runnerKilled = s.runnerKilled := by
  induction es generalizing s with
  | nil => rfl
  | cons e es ih =>
    rw [List.foldl_cons, ih]
    cases e <;> first | rfl | exact runnerKilled_signal

theorem processes_noteOverseer (h : (s.noteOverseer e).processes pid = some p') :
    (∃ child, e = .fork pid child ∧ p' = .forked s.overseer child) ∨
      ∃ p, s.processes pid = some p ∧ Touched pid [e] p p' := by
  cases e with
  | fork q child =>
    by_cases hq : pid = q
    · subst hq
      simp only [State.noteOverseer, update_self, Option.some.injEq] at h
      exact Or.inl ⟨child, rfl, h.symm⟩
    · simp only [State.noteOverseer, update_of_ne hq] at h
      exact Or.inr ⟨p', h, .refl p'⟩
  | kill q sig => exact Or.inr (processes_signal h)
  | terminate how =>
    obtain ⟨p, hp, rfl⟩ := processes_parentEnds h
    exact Or.inr ⟨p, hp, touched_parentEnds List.mem_cons_self⟩
  | _ => exact Or.inr ⟨p', h, .refl p'⟩

/-- **What the overseer's events do to a child.** -/
theorem processes_foldl (h : (es.foldl State.noteOverseer s).processes pid = some p') :
    (∃ child, .fork pid child ∈ es ∧ Touched pid es (.forked s.overseer child) p') ∨
      ∃ p, s.processes pid = some p ∧ Touched pid es p p' := by
  induction es generalizing s with
  | nil => exact Or.inr ⟨p', h, .refl p'⟩
  | cons e es ih =>
    rcases ih h with ⟨child, hf, ht⟩ | ⟨p, hp, ht⟩
    · rw [overseer_noteOverseer] at ht
      exact Or.inl ⟨child, List.mem_cons_of_mem _ hf, ht.cons⟩
    · rcases processes_noteOverseer hp with ⟨child, rfl, rfl⟩ | ⟨p₀, hp₀, ht₀⟩
      · exact Or.inl ⟨child, List.mem_cons_self, ht.cons⟩
      · exact Or.inr ⟨p₀, hp₀, ht₀.trans ht⟩

theorem isSome_processes_foldl :
    ((es.foldl State.noteOverseer s).processes pid).isSome ↔
      (s.processes pid).isSome ∨ ∃ child, .fork pid child ∈ es := by
  induction es generalizing s with
  | nil => simp
  | cons e es ih =>
    rw [List.foldl_cons, ih]
    have he : ((s.noteOverseer e).processes pid).isSome ↔
        (s.processes pid).isSome ∨ ∃ child, e = .fork pid child := by
      cases e with
      | fork q child =>
        by_cases hq : pid = q
        · simp [State.noteOverseer, hq]
        · simp [State.noteOverseer, hq, Ne.symm hq]
      | kill q sig => simp [State.noteOverseer, isSome_processes_signal]
      | terminate how => simp [State.noteOverseer, State.parentEnds]
      | _ => simp [State.noteOverseer]
    rw [he]
    simp only [List.mem_cons, exists_or, or_assoc, eq_comm (b := e)]

end Note

/-! ## What a step can do -/

namespace Process

/-- The steps of the program of a process. -/
inductive Step (p : Process) (runnerDied shouldExit : Bool) (o : Outcome) :
    Program → Option ChildEvent → Prop
  | worker {w w' e} (hp : p.program = .worker w) (h : Worker.Step w shouldExit o w' e) :
      Step p runnerDied shouldExit o (.worker w') e
  | auxiliary {x x' e} (hp : p.program = .auxiliary x) (h : Auxiliary.Step x o x' e) :
      Step p runnerDied shouldExit o (.auxiliary x') e
  | monitoring {m m' e} (hp : p.program = .monitoring m)
      (h : Monitoring.Step m runnerDied shouldExit o m' e) :
      Step p runnerDied shouldExit o (.monitoring m') e

theorem step_cases {p : Process} {runnerDied shouldExit : Bool} {o : Outcome} {program : Program}
    {e : Option ChildEvent} (h : p.step runnerDied shouldExit o = some (program, e)) :
    p.Step runnerDied shouldExit o program e := by
  unfold step at h
  split at h <;> rename_i hp <;> obtain ⟨⟨t, e⟩, hstep, heq⟩ := Option.map_eq_some_iff.1 h <;>
    obtain ⟨rfl, rfl⟩ := Prod.mk.inj heq
  · exact .worker hp (Worker.step_cases hstep)
  · exact .auxiliary hp (Auxiliary.step_cases hstep)
  · exact .monitoring hp (Monitoring.step_cases hstep)

/-- All that a signal handler does is to end the process. -/
theorem terminate_of_handle {p : Process} {sig : Signal} {e : ChildEvent}
    (h : (p.handle sig).2 = some e) : ∃ status, e = .terminate status := by
  obtain ⟨program, _, _, _⟩ := p
  cases program <;> cases sig <;> cases h <;> exact ⟨_, rfl⟩

end Process

/-- The state after the end of a child. -/
def State.without (s : State) (pid : Pid) (status : WaitStatus) : State :=
  { s with
    overseer := { s.overseer with
      children := s.overseer.children.exit pid status
      pending := update s.overseer.pending .sigchld true }
    processes := update s.processes pid none }

/-- What the step of a child does outside of its program, by its event. -/
inductive ChildStep (s : State) (pid : Pid) (p : Process) :
    Option ChildEvent → State → List Event → Prop
  | quiet : ChildStep s pid p none { s with processes := update s.processes pid (some p) } []
  | terminate {status} (h : pid ∈ s.overseer.children.alive) :
      ChildStep s pid p (some (.terminate status)) (s.without pid status)
        [.child pid (.terminate status), .overseer (.died pid)]
  | setShouldExit {changed} : ChildStep s pid p (some (.setShouldExit changed))
      { s with
        overseer := { s.overseer with shouldExitImmediately := true }
        processes := update s.processes pid (some p) } [.child pid (.setShouldExit changed)]
  | increaseRequestCounter : ChildStep s pid p (some .increaseRequestCounter)
      { s with
        processes := update s.processes pid (some p)
        requestCounter := s.requestCounter + 1 } [.child pid .increaseRequestCounter]
  | kill {q sig} : ChildStep s pid p (some (.kill q sig))
      ({ s with processes := update s.processes pid (some p) }.signal q sig)
        [.child pid (.kill q sig)]
  | note {e} (hterminate : ∀ status, e ≠ .terminate status)
      (hflag : ∀ changed, e ≠ .setShouldExit changed) (hcount : e ≠ .increaseRequestCounter)
      (hkill : ∀ q sig, e ≠ .kill q sig) :
      ChildStep s pid p (some e)
        { s with processes := update s.processes pid (some (p.note e)) } [.child pid e]

inductive Step (cfg : Overseer.Config) (s : State) : Action → State → List Event → Prop
  | overseer {o overseer es} (hk : s.runnerKilled = false)
      (h : (Overseer.machine cfg).step s.overseer (.run o) = some (overseer, es)) :
      Step cfg s (.overseer o) (es.foldl State.noteOverseer { s with overseer }) (es.map .overseer)
  | deliver {sig overseer es} (hk : s.runnerKilled = false)
      (h : (Overseer.machine cfg).step s.overseer (.deliver sig) = some (overseer, es)) :
      Step cfg s (.deliver sig) (es.foldl State.noteOverseer { s with overseer }) (es.map .overseer)
  | child {pid o p program e s' es} (hp : s.processes pid = some p)
      (h : p.step s.runnerDied s.overseer.shouldExitImmediately o = some (program, e))
      (hc : ChildStep s pid { p with program } e s' es) : Step cfg s (.child pid o) s' es
  | deliverChild {pid sig p s' es} (hp : s.processes pid = some p) (hpend : p.pending sig = true)
      (hb : p.signalsBlocked = false)
      (hc : ChildStep s pid
        { p with program := (p.handle sig).1, pending := update p.pending sig false }
        (p.handle sig).2 s' es) : Step cfg s (.deliverChild pid sig) s' es
  | raise {sig} : Step cfg s (.raise sig)
      { s with overseer := { s.overseer with pending := update s.overseer.pending sig true } }
      [.raised sig]
  | signal {pid sig} : Step cfg s (.signal pid sig) (s.signal pid sig) [.signalled pid sig]
  | dies {pid status p} (hp : s.processes pid = some p) (h : pid ∈ s.overseer.children.alive) :
      Step cfg s (.dies pid status) (s.without pid status)
        [.dies pid status, .overseer (.died pid)]
  | killRunner (h : s.runnerDied = false) :
      Step cfg s .killRunner { s.parentEnds with runnerKilled := true } [.runnerKilled]

variable {cfg : Overseer.Config} {s s' : State} {a : Action} {tr es : List Event}

theorem childDies_cases {pid : Pid} {status : WaitStatus} {e : Event}
    (h : s.childDies cfg pid status e = some (s', es)) :
    pid ∈ s.overseer.children.alive ∧ s' = s.without pid status ∧
      es = [e, .overseer (.died pid)] := by
  unfold State.childDies at h
  split at h
  · cases h
  · rename_i overseer es' hstep
    cases Overseer.step_cases hstep with
    | childDies halive =>
      obtain ⟨rfl, rfl⟩ := Prod.mk.inj (Option.some.inj h)
      exact ⟨halive, rfl, rfl⟩

theorem childStep_cases {pid : Pid} {p : Process} {e : Option ChildEvent}
    (h : s.childStep cfg pid p e = some (s', es)) : ChildStep s pid p e s' es := by
  unfold State.childStep at h
  split at h
  case h_1 =>
    obtain ⟨rfl, rfl⟩ := Prod.mk.inj (Option.some.inj h)
    exact .quiet
  case h_2 =>
    obtain ⟨halive, rfl, rfl⟩ := childDies_cases h
    exact .terminate halive
  case h_3 e hterminate =>
    dsimp only at h
    split at h <;> obtain ⟨rfl, rfl⟩ := Prod.mk.inj (Option.some.inj h)
    · exact .setShouldExit
    · exact .increaseRequestCounter
    · exact .kill
    · rename_i hflag hcount hkill
      exact .note hterminate hflag hcount hkill

/-- **What one action can do to the group.** -/
theorem step_cases (h : (machine cfg).step s a = some (s', es)) : Step cfg s a s' es := by
  change step cfg s a = _ at h
  cases a <;> simp only [step, State.overseerStep] at h
  case overseer | deliver =>
    split at h
    · cases h
    · rename_i hk
      rw [Bool.not_eq_true] at hk
      split at h
      · cases h
      · obtain ⟨rfl, rfl⟩ := Prod.mk.inj (Option.some.inj h)
        constructor <;> assumption
  case child =>
    split at h
    · cases h
    · split at h
      · cases h
      · exact .child ‹_› ‹_› (childStep_cases h)
  case deliverChild =>
    split at h
    · cases h
    · split at h
      · rename_i hc
        exact .deliverChild ‹_› hc.1 hc.2 (childStep_cases h)
      · cases h
  case raise | signal =>
    obtain ⟨rfl, rfl⟩ := Prod.mk.inj (Option.some.inj h)
    constructor
  case dies =>
    split at h
    · cases h
    · obtain ⟨halive, rfl, rfl⟩ := childDies_cases h
      exact .dies ‹_› halive
  case killRunner =>
    split at h
    · cases h
    · rename_i hk
      obtain ⟨rfl, rfl⟩ := Prod.mk.inj (Option.some.inj h)
      exact .killRunner (Bool.eq_false_of_not_eq_true hk)

theorem note_program (p : Process) (e : ChildEvent) : (p.note e).program = p.program := by
  cases e <;> rfl

theorem note_pending (p : Process) (e : ChildEvent) : (p.note e).pending = p.pending := by
  cases e <;> rfl

theorem note_deathSignal (p : Process) (e : ChildEvent) :
    (p.note e).deathSignal = true ↔ p.deathSignal = true ∨ e = .setDeathSignal := by
  cases e <;> simp [Process.note]

theorem update_process {f : Pid → Option Process} {pid q : Pid} {t p' : Process}
    (h : update f pid (some t) q = some p') :
    q = pid ∧ p' = t ∨ q ≠ pid ∧ f q = some p' := by
  by_cases hq : q = pid
  · subst hq
    rw [update_self, Option.some.injEq] at h
    exact Or.inl ⟨rfl, h.symm⟩
  · rw [update_of_ne hq] at h
    exact Or.inr ⟨hq, h⟩

theorem pending_signal {pid q : Pid} {sig : Signal} {p' : Process}
    (h : (s.signal q sig).processes pid = some p') :
    ∃ p, s.processes pid = some p ∧ p'.program = p.program ∧ p'.deathSignal = p.deathSignal ∧
      ∀ sig', p'.pending sig' = true ↔ p.pending sig' = true ∨ pid = q ∧ sig' = sig := by
  obtain ⟨p, hp, ht⟩ := processes_signal h
  refine ⟨p, hp, ht.program, ht.deathSignal, fun sig' => ⟨fun hs => ?_, fun hs => ?_⟩⟩
  · exact (ht.pending sig' hs).imp_right fun h => by simpa using h
  · unfold State.signal at h
    split at h
    · rename_i hnone
      rcases hs with hs | ⟨rfl, -⟩
      · rwa [← Option.some.inj (hp.symm.trans h)]
      · rw [hp] at hnone
        cases hnone
    · rename_i p₁ hp₁
      rcases update_process h with ⟨rfl, rfl⟩ | ⟨hne, h⟩
      · obtain rfl := Option.some.inj (hp.symm.trans hp₁)
        by_cases hsig : sig' = sig
        · simp [Process.raise, hsig]
        · simpa [Process.raise, hsig] using hs
      · rw [← Option.some.inj (hp.symm.trans h)]
        exact hs.resolve_right fun hq => hne hq.1

/-- A step of a child changes no program but its own, and signals only by `kill`. -/
theorem ChildStep.processes {pid q : Pid} {p p' : Process} {e : Option ChildEvent}
    (h : ChildStep s pid p e s' es) (hq : s'.processes q = some p') :
    ∃ p₀, (q = pid ∧ p₀ = p ∨ q ≠ pid ∧ s.processes q = some p₀) ∧ p'.program = p₀.program ∧
      (p'.deathSignal = true ↔ p₀.deathSignal = true ∨ q = pid ∧ e = some .setDeathSignal) ∧
      ∀ sig, p'.pending sig = true ↔ p₀.pending sig = true ∨ e = some (.kill q sig) := by
  cases h with
  | terminate =>
    by_cases h : q = pid
    · simp [State.without, h] at hq
    · simp only [State.without, update_of_ne h] at hq
      exact ⟨p', Or.inr ⟨h, hq⟩, rfl, by simp, by simp⟩
  | kill =>
    obtain ⟨p₁, hp₁, hprogram, hdeath, hpending⟩ := pending_signal hq
    refine ⟨p₁, ?_, hprogram, by simp [hdeath], fun sig => ?_⟩
    · exact (update_process hp₁).imp_left fun h => ⟨h.1, h.2⟩
    · rw [hpending, Option.some.injEq, ChildEvent.kill.injEq, @eq_comm _ q, @eq_comm _ sig]
  | @note e _ _ _ hkill =>
    rcases update_process hq with ⟨rfl, rfl⟩ | ⟨hne, hq⟩
    · refine ⟨p, Or.inl ⟨rfl, rfl⟩, note_program p e, by simp [note_deathSignal], fun sig => ?_⟩
      rw [note_pending]
      simp [hkill]
    · exact ⟨p', Or.inr ⟨hne, hq⟩, rfl, by simp [hne], by simp [hkill]⟩
  | _ => exact ⟨p', (update_process hq).imp_left fun h => ⟨h.1, h.2⟩, rfl, by simp, by simp⟩

/-- Where the program of a child comes from. -/
inductive Comes (s : State) (a : Action) (es : List Event) (pid : Pid) : Program → Prop
  | forked {overseer child} (h : .overseer (.fork pid child) ∈ es) :
      Comes s a es pid (Process.forked overseer child).program
  | kept {p} (hp : s.processes pid = some p) : Comes s a es pid p.program
  | stepped {o p program e} (ha : a = .child pid o) (hp : s.processes pid = some p)
      (h : p.step s.runnerDied s.overseer.shouldExitImmediately o = some (program, e)) :
      Comes s a es pid program
  | handled {sig p} (ha : a = .deliverChild pid sig) (hp : s.processes pid = some p) :
      Comes s a es pid (p.handle sig).1

/-- **What a step can do to the program of a child.** -/
theorem Step.comes {pid : Pid} {p : Process} (h : Step cfg s a s' es)
    (hp : s'.processes pid = some p) : Comes s a es pid p.program := by
  cases h with
  | overseer _ h | deliver _ h =>
    rcases processes_foldl hp with ⟨child, hf, ht⟩ | ⟨p₀, hp₀, ht⟩
    · exact ht.program ▸ .forked (List.mem_map_of_mem hf)
    · exact ht.program ▸ .kept hp₀
  | child hp₁ h hc =>
    rcases hc.processes hp with ⟨p₀, ⟨rfl, rfl⟩ | ⟨-, hp₀⟩, hprogram, -⟩
    · exact hprogram ▸ .stepped rfl hp₁ h
    · exact hprogram ▸ .kept hp₀
  | deliverChild hp₁ _ _ hc =>
    rcases hc.processes hp with ⟨p₀, ⟨rfl, rfl⟩ | ⟨-, hp₀⟩, hprogram, -⟩
    · exact hprogram ▸ .handled rfl hp₁
    · exact hprogram ▸ .kept hp₀
  | raise => exact .kept hp
  | signal =>
    obtain ⟨p₀, hp₀, ht⟩ := processes_signal hp
    exact ht.program ▸ .kept hp₀
  | @dies q =>
    by_cases hq : pid = q
    · simp [State.without, hq] at hp
    · simp only [State.without, update_of_ne hq] at hp
      exact .kept hp
  | killRunner =>
    obtain ⟨p₀, hp₀, rfl⟩ := processes_parentEnds hp
    have hprogram : p₀.parentEnds.program = p₀.program := by
      unfold Process.parentEnds
      split <;> rfl
    exact hprogram ▸ .kept hp₀

/-- The steps of the others leave the program of a child alone. -/
theorem Step.comes_of_others {pid : Pid} {p : Process} (h : Step cfg s a s' es)
    (hp : s'.processes pid = some p) (hc : ∀ o, a ≠ .child pid o)
    (hd : ∀ sig, a ≠ .deliverChild pid sig) :
    (∃ overseer child, .overseer (.fork pid child) ∈ es ∧
        p.program = (Process.forked overseer child).program) ∨
      ∃ p₀, s.processes pid = some p₀ ∧ p.program = p₀.program := by
  generalize hprogram : p.program = program
  cases hprogram ▸ h.comes hp with
  | forked hf => exact Or.inl ⟨_, _, hf, rfl⟩
  | kept hp₀ => exact Or.inr ⟨_, hp₀, rfl⟩
  | stepped ha => exact absurd ha (hc _)
  | handled ha => exact absurd ha (hd _)

/-! ## The overseer in the group -/

/-- The overseer's part of an action. -/
inductive Lifts (es : List Event) : Action → Overseer.Action → Prop
  | run {o} : Lifts es (.overseer o) (.run o)
  | deliver {sig} : Lifts es (.deliver sig) (.deliver sig)
  | raise {sig} : Lifts es (.raise sig) (.raise sig)
  | dies {pid status} : Lifts es (.dies pid status) (.childDies pid status)
  | terminate {a pid status} (h : .child pid (.terminate status) ∈ es) :
      Lifts es a (.childDies pid status)
  | setShouldExit {a pid changed} (h : .child pid (.setShouldExit changed) ∈ es) :
      Lifts es a .setShouldExit

theorem childDies_step {pid : Pid} (h : pid ∈ s.overseer.children.alive) (status : WaitStatus) :
    (Overseer.machine cfg).step s.overseer (.childDies pid status) =
      some ((s.without pid status).overseer, [.died pid]) :=
  if_pos h

/-- A step of the group is, for the overseer, a step of its own or nothing. -/
theorem Step.overseer_step (h : Step cfg s a s' es) :
    (s'.overseer = s.overseer ∧ overseerTrace es = []) ∨
      ∃ b, Lifts es a b ∧
        (Overseer.machine cfg).step s.overseer b = some (s'.overseer, overseerTrace es) := by
  have child : ∀ {pid p e}, ChildStep s pid p e s' es →
      (s'.overseer = s.overseer ∧ overseerTrace es = []) ∨ ∃ b, Lifts es a b ∧
        (Overseer.machine cfg).step s.overseer b = some (s'.overseer, overseerTrace es) := by
    intro pid p e h
    cases h with
    | @terminate status halive =>
      exact Or.inr ⟨.childDies pid status, .terminate List.mem_cons_self,
        childDies_step halive status⟩
    | setShouldExit => exact Or.inr ⟨_, .setShouldExit List.mem_cons_self, rfl⟩
    | kill => exact Or.inl ⟨overseer_signal, rfl⟩
    | _ => exact Or.inl ⟨rfl, rfl⟩
  cases h with
  | overseer _ h => exact Or.inr ⟨_, .run, by rw [overseer_foldl, overseerTrace_map]; exact h⟩
  | deliver _ h => exact Or.inr ⟨_, .deliver, by rw [overseer_foldl, overseerTrace_map]; exact h⟩
  | child _ _ hc => exact child hc
  | deliverChild _ _ _ hc => exact child hc
  | raise => exact Or.inr ⟨_, .raise, rfl⟩
  | signal => exact Or.inl ⟨overseer_signal, rfl⟩
  | @dies pid status _ _ halive => exact Or.inr ⟨_, .dies, childDies_step halive status⟩
  | killRunner => exact Or.inl ⟨rfl, rfl⟩

/-- **The overseer of the group is the overseer.** -/
theorem reach_overseer (h : Reach cfg tr s) : Overseer.Reach cfg (overseerTrace tr) s.overseer := by
  refine Machine.Run.project State.overseer Event.overseer? ?_ h
  intro s a s' es hs
  rcases (step_cases hs).overseer_step with h | ⟨b, -, hb⟩
  · exact Or.inl h
  · exact Or.inr ⟨b, hb⟩

/-! ## The living children -/

theorem isSome_update {f : Pid → Option Process} {pid q : Pid} {p : Process}
    (h : f pid = some p) (p' : Process) : (update f pid (some p') q).isSome = (f q).isSome := by
  by_cases hq : q = pid
  · simp [hq, h]
  · simp [hq]

theorem ChildStep.isSome_iff {pid q : Pid} {p p' : Process} {e : Option ChildEvent}
    (hp : s.processes pid = some p) (h : ChildStep s pid p' e s' es)
    (ih : ∀ q, (s.processes q).isSome ↔ q ∈ s.overseer.children.alive) :
    (s'.processes q).isSome ↔ q ∈ s'.overseer.children.alive := by
  cases h with
  | terminate =>
    by_cases hq : q = pid
    · simp [State.without, hq]
    · simp [State.without, hq, ih]
  | kill =>
    rw [isSome_processes_signal, overseer_signal]
    dsimp only
    rw [isSome_update hp]
    exact ih q
  | _ =>
    dsimp only
    rw [isSome_update hp]
    exact ih q

/-- **The processes of the group are the living children of the overseer.** -/
theorem isSome_processes_iff (h : Reach cfg tr s) (pid : Pid) :
    (s.processes pid).isSome ↔ pid ∈ s.overseer.children.alive := by
  refine h.invariant (fun _ s => ∀ pid, (s.processes pid).isSome ↔ pid ∈ s.overseer.children.alive)
    (by simp [init, Overseer.init, ProcessTable.empty]) ?_ pid
  rintro tr s a s' es - ih - hs q
  cases step_cases hs with
  | overseer _ h =>
    rw [overseer_foldl, isSome_processes_foldl, ih, Overseer.alive_run (Overseer.step_cases h)]
  | deliver _ h =>
    rw [overseer_foldl, isSome_processes_foldl]
    cases Overseer.step_cases h with
    | deliver => simp [ih]
  | child hp _ hc => exact hc.isSome_iff hp ih
  | deliverChild hp _ _ hc => exact hc.isSome_iff hp ih
  | raise => exact ih q
  | signal => rw [isSome_processes_signal, overseer_signal, ih]
  | @dies pid =>
    by_cases hq : q = pid
    · simp [State.without, hq]
    · simp [State.without, hq, ih]
  | killRunner => simp [State.parentEnds, ih]

end BladePSGI.Group

import BladePSGI.Group.Step
import BladePSGI.Overseer.Bookkeeping

/-!
# The requests of the workers

What the trace of a child tells about its calls of the callback: `phase` is read off the events of
the child, and `phase_of_reach` says that the program of a living child stands where the trace has
left it.
-/

namespace BladePSGI.Group

open Function Transition

variable {cfg : Overseer.Config} {s s' : State} {a : Action} {tr es : List Event} {pid : Pid}

/-! ## The trace of a child -/

/-- The event of the child. -/
def Event.ofChild (pid : Pid) : Event → Option ChildEvent
  | .child q e => if q = pid then some e else none
  | _ => none

/-- The events of the child, in order. -/
def childTrace (tr : List Event) (pid : Pid) : List ChildEvent := tr.filterMap (Event.ofChild pid)

theorem childTrace_append (tr es : List Event) (pid : Pid) :
    childTrace (tr ++ es) pid = childTrace tr pid ++ childTrace es pid :=
  List.filterMap_append

@[simp] theorem mem_childTrace {e : ChildEvent} : e ∈ childTrace tr pid ↔ .child pid e ∈ tr := by
  simp only [childTrace, List.mem_filterMap]
  constructor
  · rintro ⟨e', hmem, he⟩
    cases e' with
    | child q e' =>
      simp only [Event.ofChild] at he
      split_ifs at he with hq
      · obtain rfl := Option.some.inj he
        exact hq ▸ hmem
    | _ => cases he
  · exact fun h => ⟨_, h, if_pos rfl⟩

theorem childTrace_eq_nil (h : ∀ e, .child pid e ∉ es) : childTrace es pid = [] := by
  rw [List.eq_nil_iff_forall_not_mem]
  exact fun e he => h e (mem_childTrace.1 he)

/-- Where a worker is in its loop. -/
inductive Phase
  /-- Before the call of the callback. -/
  | idle
  /-- The callback has been called. -/
  | called
  /-- It has returned, and the request counter has not been increased yet. -/
  | returned
  deriving DecidableEq

def Phase.next : Phase → ChildEvent → Phase
  | _, .callBegin => .called
  | _, .notAccepted => .returned
  | _, .finished => .returned
  | _, .diedUnnoticed => .returned
  | _, .increaseRequestCounter => .idle
  | phase, _ => phase

/-- Where the events leave a worker. -/
def phase (es : List ChildEvent) : Phase := es.foldl Phase.next .idle

theorem phase_append (es es' : List ChildEvent) :
    phase (es ++ es') = es'.foldl Phase.next (phase es) :=
  List.foldl_append

/-! ## The program of a child -/

/-- The phases in which a worker can be at the place. -/
def Worker.Pc.At : Worker.Pc → Phase → Prop
  | .init _, phase | .testShouldExit, phase | .testTerminated, phase | .setWorkerStatus, phase
  | .call, phase => phase = .idle
  | .increaseRequestCounter, phase => phase = .returned
  | .unwinding, phase => phase ≠ .returned
  | _, phase => phase = .called

/-- The phases that fit a program. -/
def Program.At : Program → Phase → Prop
  | .worker w, phase => w.pc.At phase
  | _, phase => phase = .idle

/-- The phase in which a child emits the event. -/
def Phase.Emits (phase : Phase) : ChildEvent → Prop
  | .callBegin => phase = .idle
  | .notAccepted | .finished | .diedUnnoticed => phase = .called
  | .increaseRequestCounter => phase = .returned
  | _ => True

theorem InitStep.phase {pc : InitPc} {o : Outcome} {next : InitNext} {e : Option ChildEvent}
    (h : InitStep pc o next e) :
    (e.toList.foldl Phase.next .idle = .idle) ∧ ∀ e' ∈ e, Phase.idle.Emits e' := by
  cases h <;> simp [Phase.next, Phase.Emits]

theorem Worker.Step.phase {w w' : Worker} {shouldExit : Bool} {o : Outcome} {e : Option ChildEvent}
    {phase : Phase} (h : Worker.Step w shouldExit o w' e) (hat : w.pc.At phase) :
    w'.pc.At (e.toList.foldl Phase.next phase) ∧ ∀ e' ∈ e, phase.Emits e' := by
  cases h with
  | init hpc h | initDone hpc h =>
    rw [hpc] at hat
    obtain rfl : phase = .idle := hat
    exact h.phase
  | initThrows hpc h =>
    rw [hpc] at hat
    obtain rfl : phase = .idle := hat
    exact ⟨by rw [h.phase.1]; simp [Worker.Pc.At], h.phase.2⟩
  | notAccepted hpc =>
    rcases hpc with hpc | hpc <;> rw [hpc] at hat <;> obtain rfl : phase = .called := hat <;>
      simp [Worker.Pc.At, Phase.next, Phase.Emits]
  | perlException hpc | diedUnnoticed hpc | fails hpc | exception hpc =>
    rcases hpc with hpc | hpc <;> rw [hpc] at hat <;> obtain rfl : phase = .called := hat <;>
      simp [Worker.Pc.At, Phase.next, Phase.Emits, hpc]
  | exit hpc => exact ⟨hat, by simp [Phase.Emits]⟩
  | shouldExit | terminated => exact ⟨hat, by simp [Phase.Emits]⟩
  | _ hpc =>
    rw [hpc] at hat
    simp_all [Worker.Pc.At, Phase.next, Phase.Emits]

theorem Auxiliary.Step.phase {x x' : Auxiliary} {o : Outcome} {e : Option ChildEvent}
    (h : Auxiliary.Step x o x' e) :
    (e.toList.foldl Phase.next .idle = .idle) ∧ ∀ e' ∈ e, Phase.idle.Emits e' := by
  cases h with
  | init _ h | initDone _ h | initThrows _ h => exact h.phase
  | _ => simp [Phase.next, Phase.Emits]

theorem Monitoring.Step.phase {m m' : Monitoring} {runnerDied shouldExit : Bool} {o : Outcome}
    {e : Option ChildEvent} (h : Monitoring.Step m runnerDied shouldExit o m' e) :
    (e.toList.foldl Phase.next .idle = .idle) ∧ ∀ e' ∈ e, Phase.idle.Emits e' := by
  cases h with
  | init _ h | initDone _ h | initThrows _ h => exact h.phase
  | _ => simp [Phase.next, Phase.Emits]

/-- What a step of a child does to its phase. -/
theorem Process.phase_step {p : Process} {runnerDied shouldExit : Bool} {o : Outcome}
    {program : Program} {e : Option ChildEvent} {phase : Phase}
    (h : p.step runnerDied shouldExit o = some (program, e)) (hat : p.program.At phase) :
    program.At (e.toList.foldl Phase.next phase) ∧ ∀ e' ∈ e, phase.Emits e' := by
  cases Process.step_cases h with
  | worker hp h =>
    rw [hp] at hat
    exact h.phase hat
  | auxiliary hp h =>
    rw [hp] at hat
    obtain rfl : phase = .idle := hat
    exact h.phase
  | monitoring hp h =>
    rw [hp] at hat
    obtain rfl : phase = .idle := hat
    exact h.phase

/-- A signal does not change it. -/
theorem Process.phase_handle {p : Process} (sig : Signal) {phase : Phase}
    (hat : p.program.At phase) :
    (p.handle sig).1.At phase ∧ ∀ e ∈ (p.handle sig).2, ∃ status, e = .terminate status := by
  refine ⟨?_, fun e he => terminate_of_handle he⟩
  obtain ⟨program, _, _, _⟩ := p
  cases program with
  | worker w =>
    cases sig with
    | sigterm =>
      change (if w.pc = .accepting then Worker.Pc.acceptInterrupted else w.pc).At phase
      change w.pc.At phase at hat
      split_ifs with hpc
      · rwa [hpc] at hat
      · exact hat
    | _ => exact hat
  | auxiliary | monitoring => cases sig <;> exact hat

/-! ## Runs -/

theorem ChildStep.childTrace_eq {p : Process} {e : Option ChildEvent}
    (h : ChildStep s pid p e s' es) (q : Pid) :
    childTrace es q = if q = pid then e.toList else [] := by
  rcases eq_or_ne q pid with rfl | hq
  · cases h <;> simp [childTrace, Event.ofChild]
  · cases h <;> simp [childTrace, Event.ofChild, hq, hq.symm]

/-- How a child comes to do something. -/
inductive Emits (s : State) (a : Action) (pid : Pid) (e : ChildEvent) : Prop
  | stepped {o p program} (ha : a = .child pid o) (hp : s.processes pid = some p)
      (h : p.step s.runnerDied s.overseer.shouldExitImmediately o = some (program, some e))
  | handled {sig p} (ha : a = .deliverChild pid sig) (hp : s.processes pid = some p)
      (h : (p.handle sig).2 = some e)

/-- **Only a child's own steps are its events.** -/
theorem Step.emits (h : Step cfg s a s' es) {e : ChildEvent} (he : .child pid e ∈ es) :
    Emits s a pid e := by
  have own : ∀ {q p ev}, ChildStep s q p ev s' es → q = pid ∧ ev = some e := by
    intro q p ev hc
    have hmem := mem_childTrace.2 he
    rw [hc.childTrace_eq] at hmem
    split_ifs at hmem with hpid
    · exact ⟨hpid.symm, Option.mem_toList.1 hmem⟩
    · cases hmem
  cases h with
  | child hp h hc =>
    obtain ⟨rfl, rfl⟩ := own hc
    exact .stepped rfl hp h
  | deliverChild hp _ _ hc =>
    obtain ⟨rfl, hev⟩ := own hc
    exact .handled rfl hp hev
  | _ => simp at he

/-- Only a child that exists makes a step. -/
theorem Step.child_isSome (h : Step cfg s a s' es) {e : ChildEvent} (he : .child pid e ∈ es) :
    (s.processes pid).isSome := by
  cases h.emits he with
  | stepped _ hp | handled _ hp => exact Option.isSome_of_mem hp

theorem forked_of_isSome (h : Reach cfg tr s) (hp : (s.processes pid).isSome) :
    ∃ child, .overseer (.fork pid child) ∈ tr := by
  have halive := (isSome_processes_iff h pid).1 hp
  obtain ⟨child, hf⟩ := (((Overseer.recorded_of_reach (reach_overseer h)).unreaped pid).1
    (ProcessTable.mem_unreaped.2 (Or.inl halive))).1
  exact ⟨child, mem_overseerTrace.1 hf⟩

/-- A child does nothing before its fork. -/
theorem forked_of_child (h : Reach cfg tr s) {e : ChildEvent} (he : .child pid e ∈ tr) :
    ∃ child, .overseer (.fork pid child) ∈ tr := by
  refine h.invariant
    (fun tr _ => ∀ e, .child pid e ∈ tr → ∃ child, .overseer (.fork pid child) ∈ tr)
    (by simp) ?_ e he
  rintro tr s a s' es hrun ih - hs e he
  rcases List.mem_append.1 he with he | he
  · obtain ⟨child, hf⟩ := ih e he
    exact ⟨child, List.mem_append_left es hf⟩
  · obtain ⟨child, hf⟩ := forked_of_isSome hrun ((step_cases hs).child_isSome he)
    exact ⟨child, List.mem_append_left es hf⟩

/-- No pid is handed out twice. -/
theorem Step.fork_new (hreach : Reach cfg tr s) (h : Step cfg s a s' es) {child : Overseer.Child}
    (hf : .overseer (.fork pid child) ∈ es) (child' : Overseer.Child) :
    .overseer (.fork pid child') ∉ tr := by
  rw [← mem_overseerTrace] at hf ⊢
  rcases h.overseer_step with ⟨-, hnil⟩ | ⟨b, -, hb⟩
  · rw [hnil] at hf
    cases hf
  · exact (Overseer.recorded_of_reach (reach_overseer hreach)).fork_notMem (Overseer.step_cases hb)
      hf
      child'

/-- A pid that is handed out has no past. -/
theorem Step.childTrace_of_fork (hreach : Reach cfg tr s) (h : Step cfg s a s' es)
    {child : Overseer.Child} (hf : .overseer (.fork pid child) ∈ es) : childTrace tr pid = [] := by
  refine childTrace_eq_nil fun e he => ?_
  obtain ⟨child', hold⟩ := forked_of_child hreach he
  exact h.fork_new hreach hf child' hold

/-- **The invariant of the children's traces.** -/
structure Phased (tr : List Event) (s : State) : Prop where
  at_phase : ∀ pid p, s.processes pid = some p → p.program.At (phase (childTrace tr pid))
  emits : ∀ pid, Each (fun l e => (phase l).Emits e) (childTrace tr pid)

namespace Phased

theorem init (cfg : Overseer.Config) : Phased [] (init cfg) :=
  ⟨fun _ _ h => (nomatch h), fun _ => each_nil _⟩

theorem at_forked (overseer : Overseer.State) (child : Overseer.Child) :
    (Process.forked overseer child).program.At .idle := by
  cases child <;> rfl

/-- A step in which no child makes a step. -/
theorem congr (hph : Phased tr s) (hreach : Reach cfg tr s) (h : Step cfg s a s' es)
    (hes : ∀ pid, childTrace es pid = []) (hc : ∀ pid o, a ≠ .child pid o)
    (hd : ∀ pid sig, a ≠ .deliverChild pid sig) : Phased (tr ++ es) s' := by
  refine ⟨fun pid p' hp' => ?_, fun pid => ?_⟩
  · rw [childTrace_append, hes, List.append_nil]
    rcases h.comes_of_others hp' (hc pid) (hd pid) with ⟨_, child, hf, hprogram⟩ | ⟨p, hp, hprogram⟩
    · rw [hprogram, h.childTrace_of_fork hreach hf]
      exact at_forked _ child
    · exact hprogram ▸ hph.at_phase pid p hp
  · rw [childTrace_append, hes, List.append_nil]
    exact hph.emits pid

theorem childStep (hph : Phased tr s) {p : Process} {e : Option ChildEvent}
    (hc : ChildStep s pid p e s' es)
    (hat : p.program.At (e.toList.foldl Phase.next (phase (childTrace tr pid))))
    (hemits : ∀ e' ∈ e, (phase (childTrace tr pid)).Emits e') : Phased (tr ++ es) s' := by
  refine ⟨fun q p' hq => ?_, fun q => ?_⟩
  · rw [childTrace_append, hc.childTrace_eq, phase_append]
    rcases hc.processes hq with ⟨p₀, ⟨rfl, rfl⟩ | ⟨hne, hp₀⟩, hprogram, -⟩
    · rw [hprogram, if_pos rfl]
      exact hat
    · rw [hprogram, if_neg hne]
      exact hph.at_phase q p₀ hp₀
  · rw [childTrace_append, hc.childTrace_eq]
    split_ifs with hq
    · subst hq
      cases e with
      | none => simpa using hph.emits q
      | some e => exact (hph.emits q).concat (hemits e rfl)
    · rw [List.append_nil]
      exact hph.emits q

theorem step (hph : Phased tr s) (hreach : Reach cfg tr s) (h : Step cfg s a s' es) :
    Phased (tr ++ es) s' := by
  have quiet := hph.congr hreach h
  cases h with
  | child hp h hc =>
    obtain ⟨hat, hemits⟩ := Process.phase_step h (hph.at_phase _ _ hp)
    exact hph.childStep hc hat hemits
  | @deliverChild pid sig p _ _ hp _ _ hc =>
    obtain ⟨hat, hevents⟩ := Process.phase_handle sig (hph.at_phase _ _ hp)
    generalize (p.handle sig).2 = e at hc hevents
    refine hph.childStep hc ?_ fun e' he' => ?_
    · cases e with
      | none => exact hat
      | some e =>
        obtain ⟨status, rfl⟩ := hevents e rfl
        exact hat
    · obtain ⟨status, rfl⟩ := hevents e' he'
      trivial
  | _ => exact quiet (fun _ => childTrace_eq_nil (by simp)) (by simp) (by simp)

end Phased

/-- **Every child is where its trace has left it.** -/
theorem phased_of_reach (h : Reach cfg tr s) : Phased tr s := by
  refine h.invariant Phased (.init cfg) ?_
  rintro tr s a s' es hrun hph - hs
  exact hph.step hrun (step_cases hs)

end BladePSGI.Group

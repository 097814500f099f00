import BladePSGI.Group.Requests
import BladePSGI.Overseer.ExitFlag

/-!
# Who says why the group ends

Besides the overseer, the monitoring process calls `SetShouldExitImmediately`, in three places, and
logs the reason if its call has changed the flag.

* `judged_of_reach`: the history of the flag is the history of a right that is taken once and used
  once, the flag tells whether it is taken, and whoever is about to log a reason has it.
-/

namespace BladePSGI.Group

open Function Transition

variable {cfg : Overseer.Config} {s s' : State} {a : Action} {tr es : List Event} {pid : Pid}
  {α : Type*}

/-- A process of the group. -/
inductive Actor
  | overseer
  | child (pid : Pid)
  deriving DecidableEq

/-- A call of `SetShouldExitImmediately` that changes the flag takes the right to say why, and a
line that is logged as `FATAL` or `PANIC` uses it. -/
def ChildEvent.claim (a : α) : ChildEvent → Option (Claim α)
  | .setShouldExit true => some (.take a)
  | .log line => if line.isFatal then some (.use a) else none
  | _ => none

def Event.claim : Event → Option (Claim Actor)
  | .overseer e => e.claim .overseer
  | .child pid e => e.claim (.child pid)
  | _ => none

/-- The history of the exit flag. -/
def claims (tr : List Event) : List (Claim Actor) := tr.filterMap Event.claim

/-- The process is about to log why it ends the group. -/
def Program.Judging : Program → Prop
  | .monitoring m => match m.pc with
    | .logRunnerDied | .logCrashed _ | .logSyscall .. => True
    | _ => False
  | _ => False

def State.Judging (s : State) : Actor → Prop
  | .overseer => s.overseer.pc.Judging
  | .child pid => ∃ p, s.processes pid = some p ∧ p.program.Judging

/-- The exit flag after a step of a child. -/
def flagAfter (shouldExit : Bool) : Option ChildEvent → Bool
  | some (.setShouldExit _) => true
  | _ => shouldExit

/-! ## The programs of the children -/

theorem InitStep.move {pc : InitPc} {o : Outcome} {next : InitNext} {e : Option ChildEvent}
    {shouldExit : Bool} {ready ready' : Prop} (h : InitStep pc o next e) (hr : ready' → ready)
    (a : α) : Move shouldExit ready ready' a (flagAfter shouldExit e)
      (e.toList.filterMap (ChildEvent.claim a)) := by
  cases h <;> exact .quiet hr

theorem Worker.Step.move {w w' : Worker} {shouldExit : Bool} {o : Outcome} {e : Option ChildEvent}
    (h : Worker.Step w shouldExit o w' e) (a : α) : Move shouldExit (Program.worker w).Judging
      (Program.worker w').Judging a (flagAfter shouldExit e)
      (e.toList.filterMap (ChildEvent.claim a)) := by
  cases h with
  | init _ h | initDone _ h | initThrows _ h => exact h.move id a
  | _ => exact .quiet id

theorem Auxiliary.Step.move {x x' : Auxiliary} {shouldExit : Bool} {o : Outcome}
    {e : Option ChildEvent} (h : Auxiliary.Step x o x' e) (a : α) :
    Move shouldExit (Program.auxiliary x).Judging (Program.auxiliary x').Judging a
      (flagAfter shouldExit e) (e.toList.filterMap (ChildEvent.claim a)) := by
  cases h with
  | init _ h | initDone _ h | initThrows _ h => exact h.move id a
  | _ => exact .quiet id

theorem Monitoring.Step.move {m m' : Monitoring} {runnerDied shouldExit : Bool} {o : Outcome}
    {e : Option ChildEvent} (h : Monitoring.Step m runnerDied shouldExit o m' e) (a : α) :
    Move shouldExit (Program.monitoring m).Judging (Program.monitoring m').Judging a
      (flagAfter shouldExit e) (e.toList.filterMap (ChildEvent.claim a)) := by
  cases h with
  | init _ h | initDone _ h | initThrows _ h => exact h.move (by simp [Program.Judging]) a
  | @setShouldExit yes no hpc =>
    cases shouldExit with
    | false => exact .take rfl
    | true =>
      refine .quiet fun h => ?_
      obtain ⟨workerPids, pc⟩ := m
      cases hpc <;> exact h.elim
  | logRunnerDied hpc | logCrashed hpc | logSyscall hpc =>
    exact .use (by simp [Program.Judging, hpc]) (by simp [Program.Judging])
  | throws _ h =>
    refine .quiet fun hj => ?_
    rcases h with ⟨_, _, -, rfl⟩ | ⟨_, -, rfl⟩ <;> exact hj.elim
  | _ => exact .quiet (by simp [Program.Judging])

/-- What a step of a child does to the exit flag. -/
theorem Process.move_step {p : Process} {runnerDied shouldExit : Bool} {o : Outcome}
    {program : Program} {e : Option ChildEvent}
    (h : p.step runnerDied shouldExit o = some (program, e)) (a : α) :
    Move shouldExit p.program.Judging program.Judging a (flagAfter shouldExit e)
      (e.toList.filterMap (ChildEvent.claim a)) := by
  cases Process.step_cases h with
  | worker hp h | auxiliary hp h | monitoring hp h =>
    rw [hp]
    exact h.move a

theorem Process.move_handle (p : Process) (sig : Signal) (shouldExit : Bool) (a : α) :
    Move shouldExit p.program.Judging (p.handle sig).1.Judging a
      (flagAfter shouldExit (p.handle sig).2)
      ((p.handle sig).2.toList.filterMap (ChildEvent.claim a)) := by
  obtain ⟨program, _, _, _⟩ := p
  cases program <;> cases sig <;> exact .quiet id

/-! ## The group -/

/-- **The invariant.** -/
structure Judged (tr : List Event) (s : State) (o : Once Actor) : Prop where
  claims : claims tr = o.events
  flag : s.overseer.shouldExitImmediately = o.isTaken
  judging : ∀ actor, s.Judging actor → o = .taken actor

namespace Judged

variable {o : Once Actor}

/-- A step of one process. -/
theorem move (hj : Judged tr s o) (actor : Actor) {cs : List (Claim Actor)}
    (h : Move s.overseer.shouldExitImmediately (s.Judging actor) (s'.Judging actor) actor
      s'.overseer.shouldExitImmediately cs)
    (hes : Group.claims es = cs) (hothers : ∀ b, b ≠ actor → s'.Judging b → s.Judging b) :
    ∃ o', Judged (tr ++ es) s' o' := by
  obtain ⟨o', hevents, hflag, hready⟩ := Once.move hj.judging hothers (hj.flag ▸ h)
  refine ⟨o', ?_, hflag, hready⟩
  rw [Group.claims, List.filterMap_append, ← hevents, ← hes, ← hj.claims]
  rfl

/-- A step that is nobody's. -/
theorem congr (hj : Judged tr s o) (hes : Group.claims es = [])
    (hflag : s'.overseer.shouldExitImmediately = s.overseer.shouldExitImmediately)
    (h : ∀ actor, s'.Judging actor → s.Judging actor) : ∃ o', Judged (tr ++ es) s' o' := by
  refine ⟨o, ?_, hflag.trans hj.flag, fun actor ha => hj.judging actor (h actor ha)⟩
  rw [Group.claims, List.filterMap_append]
  exact (congrArg _ hes).trans ((List.append_nil _).trans hj.claims)

end Judged

theorem ChildStep.overseer_pc {p : Process} {e : Option ChildEvent}
    (h : ChildStep s pid p e s' es) : s'.overseer.pc = s.overseer.pc := by
  cases h with
  | kill => rw [overseer_signal]
  | _ => rfl

theorem ChildStep.flag_eq {p : Process} {e : Option ChildEvent} (h : ChildStep s pid p e s' es) :
    s'.overseer.shouldExitImmediately = flagAfter s.overseer.shouldExitImmediately e := by
  cases h with
  | kill => rw [overseer_signal]; rfl
  | @note e _ hflag =>
    cases e with
    | setShouldExit changed => exact absurd rfl (hflag changed)
    | _ => rfl
  | _ => rfl

theorem ChildStep.claims_eq {p : Process} {e : Option ChildEvent} (h : ChildStep s pid p e s' es) :
    claims es = e.toList.filterMap (ChildEvent.claim (.child pid)) := by
  cases h <;> rfl

/-- A step of a child. -/
theorem Judged.childStep {o : Once Actor} (hj : Judged tr s o) {p₀ p : Process}
    {e : Option ChildEvent} (hp₀ : s.processes pid = some p₀) (hc : ChildStep s pid p e s' es)
    (hm : Move s.overseer.shouldExitImmediately p₀.program.Judging p.program.Judging
      (Actor.child pid) (flagAfter s.overseer.shouldExitImmediately e)
      (e.toList.filterMap (ChildEvent.claim (.child pid)))) : ∃ o', Judged (tr ++ es) s' o' := by
  have own : s'.Judging (.child pid) → p.program.Judging := by
    rintro ⟨p', hp', hjudging⟩
    rcases hc.processes hp' with ⟨p₁, ⟨-, rfl⟩ | ⟨hne, -⟩, hprogram, -⟩
    · exact hprogram ▸ hjudging
    · exact absurd rfl hne
  refine hj.move (.child pid) ?_ hc.claims_eq ?_
  · rw [hc.flag_eq]
    exact hm.imp (fun h => ⟨p₀, hp₀, h⟩) own
  · intro b hb hjudging
    cases b with
    | overseer =>
      change s'.overseer.pc.Judging at hjudging
      rwa [hc.overseer_pc] at hjudging
    | child q =>
      obtain ⟨p', hp', hjudging⟩ := hjudging
      rcases hc.processes hp' with ⟨p₁, ⟨rfl, -⟩ | ⟨-, hp₁⟩, hprogram, -⟩
      · exact absurd rfl hb
      · exact ⟨p₁, hp₁, hprogram ▸ hjudging⟩

theorem not_judging_forked (overseer : Overseer.State) (child : Overseer.Child) :
    ¬ (Process.forked overseer child).program.Judging := by
  cases child <;> exact id

/-- The steps of the others make no child judge. -/
theorem Step.judging_of_others (h : Step cfg s a s' es) (hc : ∀ o, a ≠ .child pid o)
    (hd : ∀ sig, a ≠ .deliverChild pid sig) (hj : s'.Judging (.child pid)) :
    s.Judging (.child pid) := by
  obtain ⟨p', hp', hjudging⟩ := hj
  rcases h.comes_of_others hp' hc hd with ⟨_, child, -, hprogram⟩ | ⟨p, hp, hprogram⟩
  · exact absurd (hprogram ▸ hjudging) (not_judging_forked _ child)
  · exact ⟨p, hp, hprogram ▸ hjudging⟩

theorem claims_map (es : List Overseer.Event) :
    claims (es.map .overseer) = es.filterMap (Overseer.Event.claim .overseer) := by
  rw [claims, List.filterMap_map]
  rfl

theorem Judged.step {o : Once Actor} (hj : Judged tr s o) (hb : Overseer.Books s.overseer)
    (h : Step cfg s a s' es) : ∃ o', Judged (tr ++ es) s' o' := by
  have others : ∀ pid, (∀ o, a ≠ .child pid o) → (∀ sig, a ≠ .deliverChild pid sig) →
      s'.Judging (.child pid) → s.Judging (.child pid) := fun _ => h.judging_of_others
  -- a step that neither the overseer's main program nor a child makes
  have quiet : (∀ pid o, a ≠ .child pid o) → (∀ pid sig, a ≠ .deliverChild pid sig) →
      Group.claims es = [] → s'.overseer.shouldExitImmediately = s.overseer.shouldExitImmediately →
      s'.overseer.pc = s.overseer.pc → ∃ o', Judged (tr ++ es) s' o' := by
    intro hc hd hes hflag hpc
    refine hj.congr hes hflag fun actor ha => ?_
    cases actor with
    | overseer =>
      change s'.overseer.pc.Judging at ha
      rwa [hpc] at ha
    | child pid => exact others pid (hc pid) (hd pid) ha
  cases h with
  | @overseer o overseer es _ h =>
    refine hj.move .overseer ?_ (claims_map es) ?_
    · rw [overseer_foldl]
      exact ((Overseer.step_cases h).move_run hb Actor.overseer).imp id (by
        change (State.overseer _).pc.Judging → _
        rw [overseer_foldl]
        exact id)
    · intro b hb hjudging
      cases b with
      | overseer => exact absurd rfl hb
      | child pid => exact others pid (by simp) (by simp) hjudging
  | deliver _ h =>
    cases Overseer.step_cases h with
    | deliver => exact quiet (by simp) (by simp) rfl rfl rfl
  | child hp h hc => exact hj.childStep hp hc (Process.move_step h _)
  | @deliverChild _ sig p _ _ hp _ _ hc => exact hj.childStep hp hc (p.move_handle sig _ _)
  | signal =>
      exact quiet (by simp) (by simp) rfl (by rw [overseer_signal]) (by rw [overseer_signal])
  | raise | dies | killRunner => exact quiet (by simp) (by simp) rfl rfl rfl

/-- **The exit flag is a right that is taken once and used once.** -/
theorem judged_of_reach (h : Reach cfg tr s) : ∃ o, Judged tr s o := by
  refine h.invariant (fun tr s => ∃ o, Judged tr s o) ⟨.free, rfl, rfl, ?_⟩ ?_
  · rintro (_ | pid) ha
    · exact ha.elim
    · obtain ⟨_, hp, -⟩ := ha
      cases hp
  · rintro tr s a s' es hreach ⟨o, hj⟩ - hs
    exact hj.step (Overseer.books_of_reach (reach_overseer hreach)).1 (step_cases hs)

/-! ## Who sets the flag -/

/-- A call of `SetShouldExitImmediately`. -/
def Event.setsFlag : Event → Bool
  | .overseer e => e.setsFlag
  | .child _ (.setShouldExit _) => true
  | _ => false

theorem any_setsFlag_map (es : List Overseer.Event) :
    (es.map .overseer).any Event.setsFlag = es.any Overseer.Event.setsFlag := by
  rw [List.any_map]
  rfl

theorem ChildStep.any_setsFlag {p : Process} {e : Option ChildEvent}
    (h : ChildStep s pid p e s' es) (shouldExit : Bool) :
    flagAfter shouldExit e = (shouldExit || es.any Event.setsFlag) := by
  cases h with
  | setShouldExit => exact (Bool.or_true _).symm
  | @note e _ hflag =>
    cases e with
    | setShouldExit changed => exact absurd rfl (hflag changed)
    | _ => exact (Bool.or_false _).symm
  | _ => exact (Bool.or_false _).symm

/-- The group changes the exit flag only by `SetShouldExitImmediately`. -/
theorem Step.flag_eq (h : Step cfg s a s' es) :
    s'.overseer.shouldExitImmediately =
      (s.overseer.shouldExitImmediately || es.any Event.setsFlag) := by
  cases h with
  | overseer _ h =>
    rw [overseer_foldl, any_setsFlag_map]
    exact (Overseer.step_cases h).flag_eq_run
  | deliver _ h =>
    rw [overseer_foldl, any_setsFlag_map]
    cases Overseer.step_cases h with
    | deliver => exact (Bool.or_false _).symm
  | child _ _ hc | deliverChild _ _ _ hc => rw [hc.flag_eq, hc.any_setsFlag]
  | signal =>
    rw [overseer_signal]
    exact (Bool.or_false _).symm
  | raise | dies | killRunner => exact (Bool.or_false _).symm

end BladePSGI.Group

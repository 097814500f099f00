import BladePSGI.Foundations.Once
import BladePSGI.Overseer.Bookkeeping

/-!
# The overseer and the exit flag

`HandleUnexpectedChildProcessDeath` and the catch clause of `main` call `SetShouldExitImmediately`
and log the reason only if the call has changed the flag. The branch for an unknown child logs
without looking at the result; it is never reached (`Books.known`).

* `Step.move`: what a step of the overseer does to the flag, and what it logs about it.
-/

namespace BladePSGI.Overseer

open Function Transition

variable {cfg : Config} {s s' : State} {a : Action} {tr es : List Event} {α : Type*}

/-- A call of `SetShouldExitImmediately` that changes the flag takes the right to say why, and a
line that is logged as `FATAL` or `PANIC` uses it. -/
def Event.claim (a : α) : Event → Option (Claim α)
  | .setShouldExit true => some (.take a)
  | .log line => if line.isFatal then some (.use a) else none
  | _ => none

/-- The overseer is about to log why it ends the group. -/
def Pc.Judging : Pc → Prop
  | .logUnexpectedDeath .. | .logUnknownChild .. | .logSyscall .. => True
  | _ => False

theorem afterKill_not_judging (caller : KillCaller) : ¬ (afterKill caller).Judging := by
  cases caller <;> exact id

theorem afterClearSmart_not_judging (caller : KillCaller) : ¬ (afterClearSmart caller).Judging := by
  cases caller <;> exact id

theorem handleChildProcessDeath_not_judging (s : State) (pid : Pid) (status : WaitStatus) :
    ¬ (handleChildProcessDeath s pid status).Judging := by
  unfold handleChildProcessDeath
  split_ifs <;> exact id

theorem MainStep.move (h : MainStep cfg s s' es) (hb : Books s) (a : α) :
    Move s.shouldExitImmediately s.pc.Judging s'.pc.Judging a s'.shouldExitImmediately
      (es.filterMap (Event.claim a)) := by
  cases h with
  | setShouldExit hpc =>
    cases hflag : s.shouldExitImmediately with
    | false => exact .take rfl
    | true =>
      refine .quiet fun h => ?_
      rcases hpc with ⟨_, _, _, -, -, rfl⟩ | ⟨pid, status, hpc, -⟩ | ⟨_, _, -, -, rfl⟩
      · exact h.elim
      · exact absurd hpc (hb.known pid status).1
      · exact h.elim
  | @logUnexpectedDeath _ _ status hpc =>
    cases status <;> exact .use (by simp [hpc, Pc.Judging]) id
  | logSyscall hpc => exact .use (by simp [hpc, Pc.Judging]) id
  | logUnknownChild hpc => exact absurd hpc (hb.known _ _).2
  | killpgReturn => exact .quiet fun h => absurd h (afterKill_not_judging _)
  | clearSmartShutdown => exact .quiet fun h => absurd h (afterClearSmart_not_judging _)
  | handleDeath => exact .quiet fun h => absurd h (handleChildProcessDeath_not_judging _ _ _)
  | @erase found => cases found <;> exact .quiet fun h => absurd h id
  | _ => exact .quiet (by simp [Pc.Judging])

theorem HandlerStep.move {f : Frame} {rest : List Frame} (h : HandlerStep cfg s rest f s' es)
    (a : α) : Move s.shouldExitImmediately s.pc.Judging s'.pc.Judging a s'.shouldExitImmediately
      (es.filterMap (Event.claim a)) := by
  cases h <;> exact .quiet id

/-- **What a step of the overseer's own does to the exit flag.** -/
theorem Step.move_run {o : Outcome} (h : Step cfg s (.run o) s' es) (hb : Books s) (a : α) :
    Move s.shouldExitImmediately s.pc.Judging s'.pc.Judging a s'.shouldExitImmediately
      (es.filterMap (Event.claim a)) := by
  cases h with
  | main _ _ h => exact h.move hb a
  | handler _ _ h => exact h.move a

/-! ## Who sets the flag -/

/-- A call of `SetShouldExitImmediately`. -/
def Event.setsFlag : Event → Bool
  | .setShouldExit _ => true
  | _ => false

/-- The overseer changes the exit flag only by `SetShouldExitImmediately`. -/
theorem Step.flag_eq_run {o : Outcome} (h : Step cfg s (.run o) s' es) :
    s'.shouldExitImmediately = (s.shouldExitImmediately || es.any Event.setsFlag) := by
  cases h with
  | main _ _ h =>
    cases h with
    | setShouldExit => exact (Bool.or_true _).symm
    | @erase found => cases found <;> exact (Bool.or_false _).symm
    | _ => exact (Bool.or_false _).symm
  | handler _ _ h => cases h <;> exact (Bool.or_false _).symm

end BladePSGI.Overseer

import BladePSGI.Overseer.Bookkeeping

/-!
# Where signal handlers run

Which steps of `HandleParentSignal` belong to which signal, and when no handler can run at all.
The runs in progress are for different signals, since a signal is blocked in its own handler, so
there is at most one run for `SIGQUIT`; it never returns. `Pc.Final` are the places of the main
program from which it only goes on to end the process.
-/

namespace BladePSGI.Overseer

open Function Transition ProcessTable

variable {cfg : Config} {s s' : State} {tr es : List Event} {a : Action}

/-- The steps that a run of the handler can be at, by signal. -/
def Frame.Valid (f : Frame) : Prop :=
  match f.pc with
  | .entry => True
  | .setShutdown => f.sig = .sigterm ∨ f.sig = .sigint
  | .writeSelfPipe | .return => f.sig ≠ .sigquit
  | .killProcessGroup | .kill _ | .exit => f.sig = .sigquit

/-- What the main program leaves to the handlers. -/
theorem frame_mainStep (h : MainStep cfg s s' es) :
    s'.shutdown = s.shutdown ∧ s'.handlers = s.handlers ∧ s'.pending = s.pending := by
  cases h with
  | @erase found => cases found <;> exact ⟨rfl, rfl, rfl⟩
  | _ => exact ⟨rfl, rfl, rfl⟩

/-- How the main program comes to a place in the loop of `KillProcessGroup`. -/
theorem kill_of_mainStep {sig : Signal} {todo : List Pid} {caller : KillCaller}
    (h : MainStep cfg s s' es) (hpc : s'.pc = .kill sig todo caller) :
    killTargets s' = killTargets s ∧
      ((s.pc = .killProcessGroup sig caller ∧ todo = killTargets s ∧ es = [.killpg sig]) ∨
        ∃ pid, s.pc = .kill sig (pid :: todo) caller ∧ es = [.kill pid sig]) := by
  cases h with
  | killpg h | kill h =>
    cases hpc
    simp [h, killTargets]
  | @erase found => cases found <;> cases hpc
  | setShouldExit h =>
    rcases h with ⟨_, _, _, -, rfl, rfl⟩ | ⟨_, _, -, rfl, rfl⟩ | ⟨_, _, -, rfl, rfl⟩ <;>
      dsimp only at hpc <;> split_ifs at hpc
  | @killpgReturn _ caller => cases caller <;> cases hpc
  | @clearSmartShutdown caller => cases caller <;> cases hpc
  | handleDeath =>
    dsimp only [handleChildProcessDeath] at hpc
    split_ifs at hpc
  | _ => simp_all

/-- **The handler invariant.** -/
structure Control (s : State) : Prop where
  valid : ∀ f ∈ s.handlers, f.Valid
  nodup : (s.handlers.map Frame.sig).Nodup
  blocked : s.signalsBlocked = true → s.handlers = []
  starting : s.pc.Starting → s.signalsBlocked = true

namespace Control

theorem init (cfg : Config) : Control (init cfg) := by
  constructor <;> simp [Overseer.init]

/-- A run of the handler below the innermost one is for another signal. -/
theorem sig_ne (hc : Control s) {f g : Frame} {rest : List Frame} (hh : s.handlers = f :: rest)
    (hg : g ∈ rest) : g.sig ≠ f.sig := by
  have h := hc.nodup
  rw [hh, List.map_cons, List.nodup_cons] at h
  exact fun he => h.1 (he ▸ List.mem_map_of_mem hg)

theorem mainStep (hc : Control s) (hh : s.handlers = []) (h : MainStep cfg s s' es) :
    Control s' := by
  obtain ⟨-, hh', -⟩ := frame_mainStep h
  rw [hh] at hh'
  refine ⟨by simp [hh'], by simp [hh'], fun _ => hh', fun hpc => ?_⟩
  obtain ⟨hstarting, -, hblocked, -⟩ := mainStep_starting h hpc
  exact hblocked.trans (hc.starting hstarting)

theorem handlerStep (hc : Control s) {f : Frame} {rest : List Frame} (hh : s.handlers = f :: rest)
    (h : HandlerStep cfg s rest f s' es) : Control s' := by
  have hv := hc.valid
  have hn := hc.nodup
  have hb := hc.blocked
  rw [hh] at hv hn hb
  have hblock : s.signalsBlocked ≠ true := fun h => absurd (hb h) (by simp)
  have hpc : ¬ s.pc.Starting := fun h => hblock (hc.starting h)
  have hf := hv f List.mem_cons_self
  have hrest : ∀ g ∈ rest, g.Valid := fun g hg => hv g (List.mem_cons_of_mem f hg)
  cases h
  case «return» =>
    exact ⟨hrest, (List.nodup_cons.1 hn).2, fun h => absurd h hblock, fun h => absurd h hpc⟩
  case writeFails | exit => exact ⟨hc.valid, hc.nodup, hc.blocked, hc.starting⟩
  all_goals
    refine ⟨List.forall_mem_cons.2 ⟨?_, hrest⟩, hn, fun h => absurd h hblock, fun h => absurd h hpc⟩
  case setShutdown => rcases hf with hf | hf <;> simp only at hf <;> simp [Frame.Valid, hf]
  case sigquit | sigterm | sigint | sigchld => simp [Frame.Valid]
  all_goals simpa [Frame.Valid] using hf

theorem step (hc : Control s) (h : Step cfg s a s' es) : Control s' := by
  cases h with
  | main _ hh h => exact hc.mainStep hh h
  | handler _ hh h => exact hc.handlerStep hh h
  | deliver h =>
    obtain ⟨-, hb, -, hsig⟩ := h
    refine ⟨List.forall_mem_cons.2 ⟨trivial, hc.valid⟩, List.nodup_cons.2 ⟨hsig, hc.nodup⟩,
      fun h => absurd h (by simp [hb]), hc.starting⟩
  | _ => exact ⟨hc.valid, hc.nodup, hc.blocked, hc.starting⟩

end Control

theorem control_of_reach (h : Reach cfg tr s) : Control s := by
  refine h.invariant (fun _ s => Control s) (.init cfg) ?_
  rintro _ s a s' es - hc - hs
  exact hc.step (step_cases hs)

/-! ## The end of the main program -/

/-- The caller ends the process after the call. -/
def KillCaller.Final : KillCaller → Prop
  | .unexpectedDeath _ | .main => True
  | _ => False

/-- The main program is past its last `select`. -/
def Pc.Final : Pc → Prop
  | .handleUnexpectedDeath .. | .logUnexpectedDeath .. | .unknownChild .. | .logUnknownChild ..
  | .catchSyscall .. | .logSyscall .. | .exit _ => True
  | .killProcessGroup _ caller | .kill _ _ caller => caller.Final
  | _ => False

theorem final_mainStep (h : MainStep cfg s s' es) (hf : s.pc.Final) : s'.pc.Final := by
  cases h with
  | throws => trivial
  | @killpgReturn sig caller hpc =>
    rw [hpc] at hf
    cases caller <;> first | exact hf.elim | trivial
  | setShouldExit hpc =>
    rcases hpc with ⟨_, _, _, -, rfl, rfl⟩ | ⟨_, _, -, rfl, rfl⟩ | ⟨_, _, -, rfl, rfl⟩ <;>
      dsimp only <;> split_ifs <;> trivial
  | _ => simp_all [Pc.Final, KillCaller.Final]

end BladePSGI.Overseer

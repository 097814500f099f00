import BladePSGI.Overseer.Control

/-!
# Signals to children that were waited for

`KillProcessGroup` goes through the pid lists, and these still contain the pid that `waitpid` has
just returned until `HandleChildProcessDeath` erases it. `spares` is the guard of the runs in which
no call begins in between: no unexpected death of a worker or of the monitoring process, and no
`SIGQUIT` handler run while such a pid is still listed.

* `not_follows_reap_kill`: in these runs the overseer never signals a pid that it has waited for.
-/

namespace BladePSGI.Overseer

open Function Transition ProcessTable

variable {cfg : Config} {s s' : State} {tr es : List Event} {a : Action} {pid : Pid} {sig : Signal}

/-- No call of `KillProcessGroup` begins while its targets include the pid in limbo. -/
def spares (s : State) : Action → Bool
  | .run _ =>
    match s.handlers, s.pc with
    | [], .testShutdown .worker .. | [], .testShutdown .monitoring .. => s.shutdown
    | _, _ => true
  | .deliver .sigquit =>
    match s.pc.limbo with
    | none => true
    | some pid => !(killTargets s).contains pid
  | _ => true

theorem spares_run {o : Outcome} (hg : spares s (.run o)) (hh : s.handlers = []) {found : Found}
    {status : WaitStatus} (hpc : s.pc = .testShutdown found pid status) (h : s.shutdown = false) :
    found = .auxiliary := by
  cases found <;> simp_all [spares]

theorem spares_deliver (hg : spares s (.deliver .sigquit)) (hl : s.pc.limbo = some pid) :
    pid ∉ killTargets s := by
  simpa [spares, hl] using hg

/-- `HandleChildProcessDeath` has not yet called `HandleUnexpectedChildProcessDeath`. -/
def Pc.Deciding : Pc → Prop
  | .handleChildProcessDeath .. | .testShutdown .. | .erase .. => True
  | _ => False

/-- `SetShouldExitImmediately` is called on behalf of the pid in limbo. -/
theorem limbo_setShouldExit {yes no : Pc}
    (hpc : (∃ process pid status, s.pc = .handleUnexpectedDeath process pid status ∧
          yes = .logUnexpectedDeath process pid status ∧
          no = .killProcessGroup .sigquit (.unexpectedDeath pid)) ∨
        (∃ pid status, s.pc = .unknownChild pid status ∧ yes = .logUnknownChild pid status ∧
          no = .logUnknownChild pid status) ∨
        ∃ syscall e, s.pc = .catchSyscall syscall e ∧ yes = .logSyscall syscall e ∧
          no = .killProcessGroup .sigquit .main) :
    yes.limbo = s.pc.limbo ∧ no.limbo = s.pc.limbo := by
  rcases hpc with ⟨_, _, _, hpc, rfl, rfl⟩ | ⟨_, _, hpc, rfl, rfl⟩ | ⟨_, _, hpc, rfl, rfl⟩ <;>
    rw [hpc] <;> exact ⟨rfl, rfl⟩

/-- **The invariant of the runs that spare the reaped children.** -/
structure Spared (tr : List Event) (s : State) : Prop where
  limbo : ∀ pid, s.pc.limbo = some pid → s.pc.Deciding ∨ pid ∈ s.auxiliaryPids
  main : ∀ sig todo caller, s.pc = .kill sig todo caller → ∀ pid ∈ todo, .reap pid ∉ tr
  quit : ∀ f ∈ s.handlers, f.sig = .sigquit → ∀ pid, s.pc.limbo = some pid → pid ∉ killTargets s
  handler : ∀ f ∈ s.handlers, ∀ todo, f.pc = .kill todo → ∀ pid ∈ todo, .reap pid ∉ tr

/-- The targets of a call are unreaped if the pid in limbo is not one of them. -/
theorem killTargets_unreaped (h : Reach cfg tr s)
    (hl : ∀ pid, s.pc.limbo = some pid → pid ∉ killTargets s) :
    ∀ pid ∈ killTargets s, .reap pid ∉ tr := by
  intro pid hpid
  have hlisted : Listed s pid := by
    simp only [killTargets, List.mem_append, Option.mem_toList] at hpid
    exact hpid.imp_right Or.inr
  rcases ((books_of_reach h).1.listed pid).1 hlisted with hu | hlimbo
  · exact (((recorded_of_reach h).unreaped pid).1 hu).2
  · exact absurd hpid (hl pid hlimbo)

/-- No auxiliary process is a target. -/
theorem Books.auxiliary_notMem_killTargets (hb : Books s) (h : pid ∈ s.auxiliaryPids) :
    pid ∉ killTargets s := by
  simp only [killTargets, List.mem_append, Option.mem_toList, not_or]
  exact ⟨fun hw => hb.disjoint pid hw h, fun hm => (hb.monitoring pid hm).2 h⟩

namespace Spared

theorem init (cfg : Config) : Spared [] (init cfg) := by
  constructor <;> simp [Overseer.init, Pc.limbo]

/-- A step of anything but the main program. -/
theorem congr (hs : Spared tr s) (hpc : s'.pc = s.pc) (ha : s'.auxiliaryPids = s.auxiliaryPids)
    (ht : killTargets s' = killTargets s) (hr : ∀ pid, .reap pid ∉ es)
    (hquit : ∀ f ∈ s'.handlers, f.sig = .sigquit →
      ∀ pid, s.pc.limbo = some pid → pid ∉ killTargets s)
    (hhandler : ∀ f ∈ s'.handlers, ∀ todo, f.pc = .kill todo → ∀ pid ∈ todo, .reap pid ∉ tr) :
    Spared (tr ++ es) s' where
  limbo := by rw [hpc, ha]; exact hs.limbo
  main sig todo caller h pid hp := by
    have := hs.main sig todo caller (hpc ▸ h) pid hp
    simp [this, hr]
  quit := by rw [hpc, ht]; exact hquit
  handler f hf todo h pid hp := by
    have := hhandler f hf todo h pid hp
    simp [this, hr]

/-- The pid in limbo after a step of the main program. -/
theorem limbo_mainStep (hs : Spared tr s) (hb : Books s) {o : Outcome} (hg : spares s (.run o))
    (hh : s.handlers = []) (h : MainStep cfg s s' es) (hl : s'.pc.limbo = some pid) :
    s'.pc.Deciding ∨ pid ∈ s'.auxiliaryPids := by
  -- a pid that stays in limbo and is not being decided on
  have stays : ∀ {pc : Pc}, s.pc = pc → pc.limbo = some pid → ¬ pc.Deciding →
      pid ∈ s.auxiliaryPids := fun hpc hl hd =>
    (hs.limbo pid (by rw [hpc]; exact hl)).resolve_left (hpc ▸ hd)
  cases h with
  | killpg hpc | kill hpc | logUnexpectedDeath hpc => exact Or.inr (stays hpc hl id)
  | killpgReturn hpc =>
    rw [limbo_afterKill] at hl
    exact Or.inr (stays hpc hl id)
  | @unexpectedDeath found _ _ _ hpc hshutdown =>
    obtain rfl := spares_run hg hh hpc hshutdown
    obtain rfl := Option.some.inj hl
    exact Or.inr (hb.found _ _ _ hpc)
  | @erase found => cases found <;> cases hl
  | setShouldExit hpc =>
    obtain ⟨hyes, hno⟩ := limbo_setShouldExit hpc
    have hl' : s.pc.limbo = some pid := by
      dsimp only at hl
      split_ifs at hl
      · exact hno ▸ hl
      · exact hyes ▸ hl
    refine Or.inr (stays rfl hl' ?_)
    rcases hpc with ⟨_, _, _, hpc, -⟩ | ⟨_, _, hpc, -⟩ | ⟨_, _, hpc, -⟩ <;> rw [hpc] <;> exact id
  | clearSmartShutdown => simp at hl
  | @handleDeath q status hpc =>
    have hknown := (hb.handleDeath hpc).known q status
    dsimp only [Overseer.handleChildProcessDeath] at hknown ⊢
    split_ifs at hknown ⊢
    · exact Or.inl trivial
    · exact Or.inl trivial
    · exact Or.inl trivial
    · exact absurd rfl hknown.1
  | reap | expectedDeath => exact Or.inl trivial
  | setPIDThrows hpc | forkAuxiliaryFails hpc | forkWorkerFails hpc | read hpc | noChildren hpc
  | noAuxiliaryProcess hpc | logUnknownChild hpc | exit hpc => exact hs.limbo pid hl
  | _ => cases hl

theorem mainStep (hs : Spared tr s) (hreach : Reach cfg tr s) {o : Outcome}
    (hg : spares s (.run o)) (hh : s.handlers = []) (h : MainStep cfg s s' es) :
    Spared (tr ++ es) s' := by
  have hb := (books_of_reach hreach).1
  obtain ⟨-, hh', -⟩ := frame_mainStep h
  refine ⟨fun pid hl => hs.limbo_mainStep hb hg hh h hl, ?_, by simp [hh', hh], by simp [hh', hh]⟩
  intro sig todo caller hpc pid hp
  rcases kill_of_mainStep h hpc with ⟨-, ⟨hpc', rfl, rfl⟩ | ⟨q, hpc', rfl⟩⟩
  · have hlive := killTargets_unreaped hreach (fun q hq => hb.auxiliary_notMem_killTargets
      ((hs.limbo q hq).resolve_left (by simp [hpc', Pc.Deciding]))) pid hp
    simpa using hlive
  · simpa using hs.main _ _ _ hpc' pid (List.mem_cons_of_mem q hp)

theorem handlerStep (hs : Spared tr s) (hreach : Reach cfg tr s) {f : Frame} {rest : List Frame}
    (hh : s.handlers = f :: rest) (h : HandlerStep cfg s rest f s' es) : Spared (tr ++ es) s' := by
  have hvalid := (control_of_reach hreach).valid f (hh ▸ List.mem_cons_self)
  have hquit := hs.quit
  have hhandler := hs.handler
  rw [hh] at hquit hhandler
  -- the innermost run goes on
  have inner : ∀ {t : State} {es : List Event} {pc : HandlerPc}, t.pc = s.pc →
      t.auxiliaryPids = s.auxiliaryPids → killTargets t = killTargets s →
      t.handlers = ⟨f.sig, pc⟩ :: rest → (∀ pid, .reap pid ∉ es) →
      (∀ todo, pc = .kill todo → ∀ pid ∈ todo, .reap pid ∉ tr) → Spared (tr ++ es) t := by
    intro t es pc hpc ha ht hhandlers hr htodo
    refine hs.congr hpc ha ht hr (fun g hg => ?_) fun g hg => ?_ <;>
      rw [hhandlers, List.mem_cons] at hg
    · rcases hg with rfl | hg
      · exact hquit f List.mem_cons_self
      · exact hquit g (List.mem_cons_of_mem f hg)
    · rcases hg with rfl | hg
      · exact htodo
      · exact hhandler g (List.mem_cons_of_mem f hg)
  cases h with
  | killpg =>
    have hlive := killTargets_unreaped hreach (hquit _ List.mem_cons_self hvalid)
    exact inner rfl rfl rfl rfl (by simp) (by rintro _ ⟨⟩; exact hlive)
  | @kill _ q todo =>
    refine inner rfl rfl rfl rfl (by simp) ?_
    rintro _ ⟨⟩ pid hp
    exact hhandler _ List.mem_cons_self _ rfl pid (List.mem_cons_of_mem q hp)
  | «return» =>
    exact hs.congr rfl rfl rfl (by simp) (fun g hg => hquit g (List.mem_cons_of_mem _ hg))
      fun g hg => hhandler g (List.mem_cons_of_mem _ hg)
  | writeFails | exit =>
    exact hs.congr rfl rfl rfl (by simp) (by rw [hh]; exact hquit) (by rw [hh]; exact hhandler)
  | _ => exact inner rfl rfl rfl rfl (by simp) (by simp)

theorem step (hs : Spared tr s) (hreach : Reach cfg tr s) (hg : spares s a)
    (h : Step cfg s a s' es) : Spared (tr ++ es) s' := by
  have hquit := hs.quit
  have hhandler := hs.handler
  cases h with
  | main _ hh h => exact hs.mainStep hreach hg hh h
  | handler _ hh h => exact hs.handlerStep hreach hh h
  | @deliver sig h =>
    refine hs.congr rfl rfl rfl (by simp) ?_ (by simpa using hhandler)
    intro f hf hsig pid hl
    rcases List.mem_cons.1 hf with rfl | hf
    · obtain rfl : sig = .sigquit := hsig
      exact spares_deliver hg hl
    · exact hquit f hf hsig pid hl
  | _ => exact hs.congr rfl rfl rfl (by simp) hquit hhandler

/-- What a step signals. -/
theorem kill_step (hs : Spared tr s) (h : Step cfg s a s' es) (hk : .kill pid sig ∈ es) :
    es = [.kill pid sig] ∧ .reap pid ∉ tr := by
  cases h with
  | main _ _ h =>
    cases h with
    | kill hpc =>
      obtain ⟨rfl, rfl⟩ : pid = _ ∧ sig = _ := by simpa using hk
      exact ⟨rfl, hs.main _ _ _ hpc pid List.mem_cons_self⟩
    | _ => simp at hk
  | handler _ hh h =>
    cases h with
    | kill =>
      obtain ⟨rfl, rfl⟩ : pid = _ ∧ sig = _ := by simpa using hk
      exact ⟨rfl, hs.handler _ (hh ▸ List.mem_cons_self) _ rfl pid List.mem_cons_self⟩
    | _ => simp at hk
  | _ => simp at hk

end Spared

/-- The outcome by which `waitpid` returns a pid. -/
theorem outcome_of_reap {o : Outcome} (h : (machine cfg).step s (.run o) = some (s', es))
    (hr : .reap pid ∈ es) : o = .wait (.child pid) := by
  cases step_cases h with
  | handler _ _ h => cases h <;> simp at hr
  | main hrun hh hm =>
    cases hm with
    | reap hpc =>
      change step cfg s (.run o) = _ at h
      rw [step_run_main hrun hh] at h
      cases o with
      | wait report =>
        simp only [mainStep, hpc, waitpid] at h
        split at h
        · cases report <;> simp_all [goto]
        · cases h
      | _ => simp [mainStep, hpc, waitpid, goto] at h
    | _ => simp at hr

/-- The runs that spare the reaped children. -/
abbrev SparingRun (cfg : Config) : List Event → State → Prop :=
  (machine cfg).Run (fun _ s a => spares s a) (init cfg)

theorem spared_of_run (h : SparingRun cfg tr s) : Spared tr s := by
  refine h.invariant Spared (.init cfg) ?_
  rintro tr s a s' es hrun hs hg hstep
  exact hs.step hrun.reach hg (step_cases hstep)

/-- **The overseer signals no pid that it has waited for.** -/
theorem not_follows_reap_kill (h : SparingRun cfg tr s) (pid : Pid) (sig : Signal) :
    ¬ Follows (.reap pid) (.kill pid sig) tr := by
  refine h.invariant (fun tr _ => ¬ Follows (.reap pid) (.kill pid sig) tr) (by simp) ?_
  rintro tr s a s' es hrun ih - hstep hf
  rcases follows_append.1 hf with hf | ⟨hr, hk⟩ | hf
  · exact ih hf
  · exact ((spared_of_run hrun).kill_step (step_cases hstep) hk).2 hr
  · obtain ⟨rfl, -⟩ := (spared_of_run hrun).kill_step (step_cases hstep) hf.mem_right
    simp at hf

end BladePSGI.Overseer

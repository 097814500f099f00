import BladePSGI.Group.ExitFlag
import BladePSGI.Main.Step

/-!
# One reason for the end of the world

Before shared memory exists `SetShouldExitImmediately` returns true without doing anything; there is
only one process then, and it calls once. Later the call changes the flag for one process only.

* `one_reason`: at most one line is logged as `FATAL` or `PANIC`, by a process to which
  `SetShouldExitImmediately` has returned true.
-/

namespace BladePSGI.Main

open Function Transition

variable {cl : CommandLine} {s s' : State} {a : Action} {tr es : List Event}

/-! ## Claims -/

/-- A call of `SetShouldExitImmediately` that returns true takes the right to say why, and a line
that is logged as `FATAL` or `PANIC` uses it. -/
def Startup.Event.claim : Startup.Event → Option (Claim Group.Actor)
  | .setShouldExit none | .setShouldExit (some true) => some (.take .overseer)
  | .log line => if line.isFatal then some (.use .overseer) else none
  | _ => none

def Event.claim : Event → Option (Claim Group.Actor)
  | .startup e => e.claim
  | .group e => e.claim
  | .requestAuxiliaryProcess .. => none

/-- The history of the exit flag. -/
def claims (tr : List Event) : List (Claim Group.Actor) := tr.filterMap Event.claim

/-- There is shared memory. -/
def State.sharedMemory : State → Bool
  | .startup s => s.sharedMemory
  | .running _ => true

/-- The exit flag in shared memory. -/
def State.shouldExitImmediately : State → Bool
  | .startup s => s.shouldExitImmediately
  | .running r => r.group.overseer.shouldExitImmediately

theorem claims_append (tr es : List Event) : claims (tr ++ es) = claims tr ++ claims es :=
  List.filterMap_append

theorem claims_map_startup (es : List Startup.Event) :
    claims (es.map .startup) = es.filterMap Startup.Event.claim := by
  rw [claims, List.filterMap_map]
  rfl

theorem claims_map_group (es : List Group.Event) : claims (es.map .group) = Group.claims es := by
  rw [claims, List.filterMap_map]
  rfl

/-! ## Before the first `fork` -/

/-- **The invariant before the first `fork`.** -/
structure Startup.Judged (s : Startup) (o : Once Group.Actor) : Prop where
  entered : ¬ s.pc.Leaving → o = .free
  judging : ∀ ex, s.pc = .logException ex → o = .taken .overseer
  flag : s.sharedMemory = true → s.shouldExitImmediately = o.isTaken
  noFlag : s.sharedMemory = false → s.shouldExitImmediately = false

theorem Exception.isFatal_line (ex : Exception) : ex.line.isFatal = true := by
  cases ex <;> rfl

theorem Startup.Pc.Plain.ne_logException {pc : Startup.Pc} (h : pc.Plain) (ex : Exception) :
    pc ≠ .logException ex := by
  rintro rfl
  exact h

theorem Startup.Step.judged {s s' : Startup} {es : List Startup.Event} {o : Once Group.Actor}
    (h : Startup.Step s s' es) (hj : s.Judged o) :
    ∃ o', o.events ++ es.filterMap Startup.Event.claim = o'.events ∧ s'.Judged o' := by
  cases h with
  | goto h hleaving =>
    refine ⟨o, List.append_nil _, fun hpc => hj.entered fun hl => hpc (hleaving hl), ?_, hj.flag,
      hj.noFlag⟩
    exact fun ex hpc => absurd hpc (h.ne_logException ex)
  | log hline h hleaving =>
    refine ⟨o, ?_, fun hpc => hj.entered fun hl => hpc (hleaving hl), ?_, hj.flag, hj.noFlag⟩
    · simp [Startup.Event.claim, hline]
    · exact fun ex hpc => absurd hpc (h.ne_logException ex)
  | initializeSharedMemory hpc =>
    obtain rfl := hj.entered (by simp [hpc, Startup.Pc.Leaving])
    refine ⟨.free, rfl, fun _ => rfl, by simp, fun _ => ?_, by simp⟩
    cases hshm : s.sharedMemory with
    | false => exact hj.noFlag hshm
    | true => exact hj.flag hshm
  | requestAuxiliaryProcess =>
    exact ⟨o, List.append_nil _, hj.entered, hj.judging, hj.flag, hj.noFlag⟩
  | setShouldExit hpc h =>
    obtain rfl := hj.entered (by simp [hpc, Startup.Pc.Leaving])
    have hflag : s.shouldExitImmediately = false := hj.flag h
    refine ⟨.taken .overseer, ?_, ?_, fun _ _ => rfl, fun _ => rfl, by simp [h]⟩
    · simp [hflag, Startup.Event.claim, Once.events]
    · simp [hflag, Startup.Pc.Leaving]
  | noSharedMemory hpc h =>
    obtain rfl := hj.entered (by simp [hpc, Startup.Pc.Leaving])
    exact ⟨.taken .overseer, rfl, fun hl => absurd trivial hl, fun _ _ => rfl, by simp [h],
      hj.noFlag⟩
  | @logException ex hpc =>
    obtain rfl := hj.judging ex hpc
    refine ⟨.used .overseer, ?_, fun hl => absurd trivial hl, by simp, hj.flag, hj.noFlag⟩
    simp [Startup.Event.claim, ex.isFatal_line, Once.events]
  | terminate => exact ⟨o, List.append_nil _, hj.entered, hj.judging, hj.flag, hj.noFlag⟩

/-! ## The whole program -/

/-- What holds of the history before and after the first `fork`. -/
def JudgedSoFar (tr : List Event) : State → Prop
  | .startup s => ∃ o, claims tr = o.events ∧ s.Judged o
  | .running _ => claims tr = Group.claims (groupTrace tr)

theorem judgedSoFar_of_reach (h : Reach cl tr s) : JudgedSoFar tr s := by
  refine h.invariant JudgedSoFar ⟨.free, rfl, fun _ => rfl, fun _ h => (nomatch h),
    fun h => (nomatch h), fun _ => rfl⟩ ?_
  rintro tr s a s' es hreach ih - hs
  cases step_cases hs with
  | startup _ h =>
    obtain ⟨o, hclaims, hj⟩ := ih
    obtain ⟨o', hevents, hj'⟩ := h.judged hj
    refine ⟨o', ?_, hj'⟩
    rw [claims_append, claims_map_startup, hclaims, hevents]
  | run _ hpc =>
    obtain ⟨o, hclaims, hj⟩ := ih
    obtain rfl := hj.entered (by simp [hpc, Startup.Pc.Leaving])
    change claims (tr ++ []) = Group.claims (groupTrace (tr ++ []))
    rw [List.append_nil, hclaims, show groupTrace tr = [] from reach_group hreach]
    rfl
  | group =>
    change claims (tr ++ _) = Group.claims (groupTrace (tr ++ _))
    rw [claims_append, claims_map_group, groupTrace_append, groupTrace_map_group,
      show claims tr = _ from ih, Group.claims, Group.claims, Group.claims, List.filterMap_append]
  | requestAuxiliaryProcess =>
    change claims (tr ++ _) = Group.claims (groupTrace (tr ++ _))
    rw [claims_append, groupTrace_append, show claims [_] = [] from rfl,
      show groupTrace [_] = [] from rfl, List.append_nil, List.append_nil]
    exact ih

/-- **The invariant.** -/
structure Judged (tr : List Event) (s : State) (o : Once Group.Actor) : Prop where
  claims : claims tr = o.events
  flag : s.sharedMemory = true → s.shouldExitImmediately = o.isTaken
  noFlag : s.sharedMemory = false → s.shouldExitImmediately = false

/-- **The history of the program is that of a right that is taken once and used once.** -/
theorem judged_of_reach (h : Reach cl tr s) : ∃ o, Judged tr s o := by
  have hj := judgedSoFar_of_reach h
  cases s with
  | startup s =>
    obtain ⟨o, hclaims, hj⟩ := hj
    exact ⟨o, hclaims, hj.flag, hj.noFlag⟩
  | running r =>
    obtain ⟨o, hg⟩ := Group.judged_of_reach (show Group.Reach _ _ _ from reach_group h)
    exact ⟨o, hj.trans hg.claims, fun _ => hg.flag, fun h => nomatch h⟩

/-! ## The flag -/

theorem Startup.Step.sharedMemory_mono {s s' : Startup} {es : List Startup.Event}
    (h : Startup.Step s s' es) (hs : s.sharedMemory = true) : s'.sharedMemory = true := by
  cases h <;> first | exact hs | rfl

theorem Step.sharedMemory_mono (h : Step cl s s' es) (hs : s.sharedMemory = true) :
    s'.sharedMemory = true := by
  cases h with
  | startup _ h => exact h.sharedMemory_mono hs
  | _ => rfl

/-- **The exit flag never goes back.** -/
theorem Step.flag_mono (hreach : Reach cl tr s) (hs : (machine cl).step s a = some (s', es))
    (hflag : s.shouldExitImmediately = true) : s'.shouldExitImmediately = true := by
  obtain ⟨o, hj⟩ := judged_of_reach hreach
  obtain ⟨o', hj'⟩ := judged_of_reach (hreach.snoc trivial hs)
  have hshm : s.sharedMemory = true := by
    by_contra hno
    rw [hj.noFlag (Bool.eq_false_iff.2 hno)] at hflag
    cases hflag
  rw [hj'.flag ((step_cases hs).sharedMemory_mono hshm)]
  have hevents : o.events ++ claims es = o'.events := by
    rw [← hj'.claims, claims_append, hj.claims]
  exact Once.isTaken_of_append hevents (hj.flag hshm ▸ hflag)

/-- A call that returns true has changed the flag, unless there is no shared memory. -/
theorem Step.flag_changed (hreach : Reach cl tr s) (hs : (machine cl).step s a = some (s', es))
    {e : Event} {p : Group.Actor} (he : e ∈ es) (hclaim : e.claim = some (.take p)) :
    s.sharedMemory = false ∨ s.shouldExitImmediately = false ∧ s'.shouldExitImmediately = true := by
  obtain ⟨o, hj⟩ := judged_of_reach hreach
  obtain ⟨o', hj'⟩ := judged_of_reach (hreach.snoc trivial hs)
  have hevents : o.events ++ claims es = o'.events := by
    rw [← hj'.claims, claims_append, hj.claims]
  have htake := Once.of_take_mem hevents (List.mem_filterMap.2 ⟨e, he, hclaim⟩)
  cases hshm : s.sharedMemory with
  | false => exact Or.inl rfl
  | true =>
    rw [hj.flag hshm, hj'.flag ((step_cases hs).sharedMemory_mono hshm)]
    exact Or.inr htake

theorem flag_mono_of_run {tr' : List Event} {t : State} (hreach : Reach cl tr s)
    (h : (machine cl).Reach s tr' t) (hflag : s.shouldExitImmediately = true) :
    t.shouldExitImmediately = true := by
  refine h.invariant (fun _ t => t.shouldExitImmediately = true) hflag ?_
  intro _ _ _ _ _ hrun ih _ hs
  exact Step.flag_mono (hreach.trans hrun) hs ih

/-- **One reason for the end of the world.** At most one line is logged as `FATAL` or `PANIC`; the
process that logs it has called `SetShouldExitImmediately` before, which returned true; a call that
returns true has changed the flag, unless there is no shared memory; the flag never goes back. -/
theorem one_reason (h : Reach cl tr s) :
    (claims tr).countP Claim.isUse ≤ 1 ∧
      (∀ l e l' p, tr = l ++ e :: l' → e.claim = some (.use p) →
        ∃ e' ∈ l, e'.claim = some (.take p)) ∧
      (∀ a s' es e p, (machine cl).step s a = some (s', es) → e ∈ es → e.claim = some (.take p) →
        s.sharedMemory = false ∨
          s.shouldExitImmediately = false ∧ s'.shouldExitImmediately = true) ∧
      ∀ tr' t, (machine cl).Reach s tr' t → s.shouldExitImmediately = true →
        t.shouldExitImmediately = true := by
  obtain ⟨o, hj⟩ := judged_of_reach h
  refine ⟨hj.claims ▸ o.countP_use_le, ?_, fun _ _ _ _ _ hs => Step.flag_changed h hs,
    fun _ _ => flag_mono_of_run h⟩
  rintro l e l' p rfl hclaim
  have heach := o.each_use (claims l) (.use p) (claims l')
    (by rw [← hj.claims, claims_append, claims, claims, claims, List.filterMap_cons_some hclaim])
  obtain ⟨e', he', htake⟩ := List.mem_filterMap.1 (heach p rfl)
  exact ⟨e', he', htake⟩

/-- The worker dies, and the overseer says so. -/
def crashedWorker : List Action :=
  startup ++ [.group (.dies 10 (.exited 1)), .group (.overseer .timeout), .group (.overseer .ok),
    .group (.overseer .ok), .group (.overseer (.wait (.child 10))), .group (.overseer .ok),
    .group (.overseer .ok), .group (.overseer .ok), .group (.overseer .ok)]

theorem isSome_exec_crashedWorker :
    ((machine oneWorker).exec (.startup Startup.init) crashedWorker).isSome := by
  decide

theorem one_reason_crashedWorker : ∃ tr s, Reach oneWorker tr s ∧
    .group (.overseer (.log (.childDied "worker process" 10 (.exited 1)))) ∈ tr ∧
    (claims tr).countP Claim.isUse ≤ 1 := by
  have h : Reach oneWorker _ _ := Machine.reach_exec isSome_exec_crashedWorker
  exact ⟨_, _, h, by decide, (one_reason h).1⟩

end BladePSGI.Main

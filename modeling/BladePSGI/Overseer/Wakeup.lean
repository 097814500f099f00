import BladePSGI.Overseer.Control

/-!
# The self-pipe

A handler run sets its flag and then writes a byte to the self-pipe; the main loop drains the pipe
and then tests the flags. A request for `sig` is `Attended` from the begin of its handler run until
the main program has returned from `KillProcessGroup`: its flag is still to be set, or it is set
and the loop is certain to come to the test, or the loop is already serving it.

* `Attended.step`: it stays attended until a call of `KillProcessGroup` returns.
* `Attended.not_aboutToBlock`: the loop never blocks on an attended request.
* `no_lost_wakeup`: what has been done when the loop is about to block.
* `second_sigterm_escalates`: a second `SIGTERM` has led to `KillProcessGroup(SIGQUIT)` by then,
  unless it came before the first one's flag was cleared.
-/

namespace BladePSGI.Overseer

open Function Transition ProcessTable

variable {cfg : Config} {s s' : State} {tr es : List Event} {a : Action} {sig : Signal}

/-- The main loop is about to block in `select`: no handler is in progress and the self-pipe is
empty. -/
def AboutToBlock (s : State) : Prop :=
  s.terminated = none ∧ s.handlers = [] ∧ s.pc = .select ∧ s.selfPipe = 0

/-! ## Requests -/

/-- The flag by which the handler tells the main loop about a signal; there is none for
`SIGCHLD`. -/
def State.flag (s : State) : Signal → Bool
  | .sigint => s.fastShutdown
  | .sigterm => s.smartShutdown
  | _ => true

/-- A handler run for the signal will yet write to the self-pipe, or the pipe is not empty. -/
def Signalled (s : State) (sig : Signal) : Prop :=
  ⟨sig, .setShutdown⟩ ∈ s.handlers ∨ ⟨sig, .writeSelfPipe⟩ ∈ s.handlers ∨ 0 < s.selfPipe

/-- The main loop is on its way from `select` to the test of the flag. -/
def Pc.Checks : Pc → Signal → Prop
  | .drainSelfPipe, _ | .testFastShutdown, _ | .testSmartShutdown, .sigterm => True
  | _, _ => False

/-- What `KillProcessGroup` is called with. -/
def KillCaller.signal : KillCaller → Signal
  | .smartShutdown => .sigterm
  | _ => .sigquit

/-- The calls of `KillProcessGroup` that serve a request. A fast shutdown serves both. -/
def KillCaller.Serves : KillCaller → Signal → Prop
  | .fastShutdown, _ | .secondSmartShutdown, .sigterm | .smartShutdown, .sigterm => True
  | _, _ => False

/-- The main loop has found the flag set and has not returned from `KillProcessGroup`. -/
def Pc.Serves : Pc → Signal → Prop
  | .testForceFastShutdown, .sigterm => True
  | .killProcessGroup sig' caller, sig | .kill sig' _ caller, sig =>
    caller.Serves sig ∧ sig' = caller.signal
  | _, _ => False

/-- **A request that the main program has not forgotten.** -/
def Attended (s : State) (sig : Signal) : Prop :=
  ⟨sig, .entry⟩ ∈ s.handlers ∨ (s.flag sig = true ∧ (Signalled s sig ∨ s.pc.Checks sig)) ∨
    s.pc.Serves sig ∨ s.pc.Final

/-- The main program is about to clear the flag. -/
def Pc.Clears : Pc → Signal → Prop
  | .clearFastShutdown, .sigint | .clearSmartShutdown _, .sigterm => True
  | _, _ => False

namespace Attended

/-- A set flag and a byte in the self-pipe are enough. -/
theorem of_selfPipe (hf : s.flag sig = true) (hp : 0 < s.selfPipe) : Attended s sig :=
  Or.inr (Or.inl ⟨hf, Or.inl (Or.inr (Or.inr hp))⟩)

theorem of_final (h : s.pc.Final) : Attended s sig := Or.inr (Or.inr (Or.inr h))

theorem mainStep (hsig : sig = .sigint ∨ sig = .sigterm) (ha : Attended s sig)
    (hh : s.handlers = []) (hc : ¬ s.pc.Clears sig) (h : MainStep cfg s s' es) :
    Attended s' sig ∨
      ∃ caller : KillCaller, caller.Serves sig ∧ .killpgReturn caller.signal ∈ es := by
  by_cases hfinal : s.pc.Final
  · exact Or.inl (of_final (final_mainStep h hfinal))
  simp only [Attended, Signalled, hh, List.not_mem_nil, false_or, hfinal, or_false] at ha
  cases h with
  | throws => exact Or.inl (of_final trivial)
  | killpgReturn hpc =>
    rcases ha with ⟨hf, hp | hp⟩ | hp
    · exact Or.inl (of_selfPipe hf hp)
    · simp [hpc, Pc.Checks] at hp
    · simp only [hpc, Pc.Serves] at hp
      obtain ⟨hserves, rfl⟩ := hp
      exact Or.inr ⟨_, hserves, List.mem_singleton.2 rfl⟩
  | @erase found _ hpc =>
    obtain ⟨hf, hp⟩ : s.flag sig = true ∧ 0 < s.selfPipe := by
      simpa [hpc, Pc.Checks, Pc.Serves] using ha
    refine Or.inl (of_selfPipe ?_ ?_) <;> cases found <;> assumption
  | setShouldExit hpc =>
    refine absurd ?_ hfinal
    rcases hpc with ⟨_, _, _, hpc, -⟩ | ⟨_, _, hpc, -⟩ | ⟨_, _, hpc, -⟩ <;> simp [hpc, Pc.Final]
  | _ =>
    left
    rcases hsig with rfl | rfl <;>
      simp_all [Attended, Signalled, State.flag, Pc.Checks, Pc.Serves, Pc.Final, Pc.Clears,
        KillCaller.Serves, KillCaller.signal, KillCaller.Final]

/-- A handler run finishes what it has begun. -/
theorem handlerStep (hsig : sig = .sigint ∨ sig = .sigterm) (ha : Attended s sig) {f : Frame}
    {rest : List Frame} (hh : s.handlers = f :: rest) (h : HandlerStep cfg s rest f s' es) :
    Attended s' sig := by
  rcases hsig with rfl | rfl <;> cases h <;> simp_all [Attended, Signalled, State.flag] <;> tauto

/-- **An attended request stays attended** until `KillProcessGroup` returns. -/
theorem step (hsig : sig = .sigint ∨ sig = .sigterm) (ha : Attended s sig)
    (hc : ¬ s.pc.Clears sig) (h : Step cfg s a s' es) :
    Attended s' sig ∨
      ∃ caller : KillCaller, caller.Serves sig ∧ .killpgReturn caller.signal ∈ es := by
  cases h with
  | main _ hh h => exact ha.mainStep hsig hh hc h
  | handler _ hh h => exact Or.inl (ha.handlerStep hsig hh h)
  | deliver =>
    left
    rcases hsig with rfl | rfl <;> simp_all [Attended, Signalled, State.flag] <;> tauto
  | _ => exact Or.inl (by rcases hsig with rfl | rfl <;> exact ha)

/-- A request is attended from the begin of its handler run. -/
theorem of_deliver (h : Step cfg s (.deliver sig) s' es) : Attended s' sig := by
  cases h
  exact Or.inl List.mem_cons_self

/-- **The loop does not block on an attended request.** -/
theorem not_aboutToBlock (ha : Attended s sig) : ¬ AboutToBlock s := by
  rintro ⟨-, hh, hpc, hp⟩
  simp [Attended, Signalled, hh, hpc, hp, Pc.Checks, Pc.Serves, Pc.Final] at ha

end Attended

/-! ## Deaths -/

/-- What `SIGCHLD` has been handled for will be waited for before the loop blocks. -/
def Awake (s : State) : Prop :=
  ⟨.sigchld, .entry⟩ ∈ s.handlers ∨ Signalled s .sigchld ∨
    ¬ (s.pc.Starting ∨ s.pc = .setProcessTitle ∨ s.pc = .select)

/-- Where a zombie is after a step. -/
theorem zombies_step (h : Step cfg s a s' es) (pid : Pid) :
    (pid ∈ s.children.zombies → pid ∈ s'.children.zombies ∨ .reap pid ∈ es) ∧
      (.died pid ∈ es → pid ∈ s'.children.zombies) := by
  cases h with
  | main _ _ h =>
    cases h with
    | @reap q =>
      refine ⟨fun hz => ?_, by simp⟩
      by_cases hq : pid = q
      · exact Or.inr (by simp [hq])
      · exact Or.inl (by simp [hq, hz])
    | @erase found => cases found <;> exact ⟨Or.inl, by simp⟩
    | _ => exact ⟨Or.inl, by simp⟩
  | handler _ _ h => cases h <;> exact ⟨Or.inl, by simp⟩
  | childDies => exact ⟨fun hz => Or.inl (by simp [hz]), by simp +contextual⟩
  | _ => exact ⟨Or.inl, by simp⟩

theorem died_of_reach (h : Reach cfg tr s) {pid : Pid} (hd : .died pid ∈ tr) :
    pid ∈ s.children.zombies ∨ .reap pid ∈ tr := by
  refine h.invariant (fun tr s => .died pid ∈ tr → pid ∈ s.children.zombies ∨ .reap pid ∈ tr)
    (by simp) ?_ hd
  rintro tr s a s' es - ih - hs hd
  obtain ⟨hz, hd'⟩ := zombies_step (step_cases hs) pid
  rw [List.mem_append] at hd ⊢
  rcases hd with hd | hd
  · rcases ih hd with h | h
    · exact (hz h).imp_right Or.inr
    · exact Or.inr (Or.inl h)
  · exact Or.inl (hd' hd)

/-- Only a look at the children that finds no zombie lets the loop go to sleep. -/
theorem awake_step (ha : Awake s) (h : Step cfg s a s' es) :
    Awake s' ∨ s'.children.zombies = ∅ := by
  cases h with
  | main _ hh h =>
    simp only [Awake, Signalled, hh, List.not_mem_nil, false_or] at ha
    cases h with
    | nothingToReap _ _ hz => exact Or.inr hz
    | @erase found =>
        exact Or.inl (Or.inr (Or.inr (by cases found <;> simp [erase, Pc.Starting, Pc.Spawning])))
    | setShouldExit hpc =>
      refine Or.inl (Or.inr (Or.inr ?_))
      rcases hpc with ⟨_, _, _, -, rfl, rfl⟩ | ⟨_, _, -, rfl, rfl⟩ | ⟨_, _, -, rfl, rfl⟩ <;>
        dsimp only <;> split_ifs <;> simp [Pc.Starting, Pc.Spawning]
    | @killpgReturn _ caller =>
      exact Or.inl (Or.inr (Or.inr (by
        cases caller <;> simp [afterKill, Pc.Starting, Pc.Spawning])))
    | @clearSmartShutdown caller =>
      exact Or.inl (Or.inr (Or.inr (by
        cases caller <;> simp [afterClearSmart, Pc.Starting, Pc.Spawning])))
    | handleDeath =>
      refine Or.inl (Or.inr (Or.inr ?_))
      dsimp only [handleChildProcessDeath]
      split_ifs <;> simp [Pc.Starting, Pc.Spawning]
    | _ => exact Or.inl (by simp_all [Awake, Signalled, Pc.Starting, Pc.Spawning])
  | handler _ hh h =>
    left
    cases h <;> simp_all [Awake, Signalled]
    tauto
  | deliver => exact Or.inl (by simp_all [Awake, Signalled]; tauto)
  | _ => exact Or.inl ha

/-- A handler run begins when its signal is delivered. -/
theorem handlerBegin_step (h : Step cfg s a s' es) (hb : .handlerBegin sig ∈ es) :
    a = .deliver sig := by
  cases h with
  | deliver =>
    obtain rfl : sig = _ := by simpa using hb
    rfl
  | main _ _ h => cases h <;> simp at hb
  | handler _ _ h => cases h <;> simp at hb
  | _ => simp at hb

theorem awake_of_reach (h : Reach cfg tr s) {pid : Pid}
    (hf : Follows (.died pid) (.handlerBegin .sigchld) tr) : Awake s ∨ .reap pid ∈ tr := by
  refine h.invariant (fun tr s => Follows (.died pid) (.handlerBegin .sigchld) tr →
    Awake s ∨ .reap pid ∈ tr) (by simp) ?_ hf
  rintro tr s a s' es hreach ih - hs hf
  have hstep := step_cases hs
  by_cases hnew : .handlerBegin .sigchld ∈ es
  case pos =>
    obtain rfl := handlerBegin_step hstep hnew
    cases hstep
    exact Or.inl (Or.inl List.mem_cons_self)
  case neg =>
    have hold : Follows (.died pid) (.handlerBegin .sigchld) tr := by
      rcases follows_append.1 hf with h | ⟨-, h⟩ | h
      · exact h
      · exact absurd h hnew
      · exact absurd h.mem_right hnew
    rcases ih hold with ha | hr
    · rcases awake_step ha hstep with ha | hz
      · exact Or.inl ha
      · have := died_of_reach (hreach.snoc trivial hs) (List.mem_append_left es hold.mem_left)
        exact Or.inr (by simpa [hz] using this)
    · exact Or.inr (List.mem_append_left es hr)

theorem Awake.not_aboutToBlock (ha : Awake s) : ¬ AboutToBlock s := by
  rintro ⟨-, hh, hpc, hp⟩
  simp [Awake, Signalled, hh, hpc, hp] at ha

/-! ## The two shutdown requests -/

/-- The call of `KillProcessGroup` that the main program is in or comes from. -/
def Pc.caller : Pc → Option KillCaller
  | .killProcessGroup _ caller | .kill _ _ caller | .clearSmartShutdown caller => some caller
  | .clearFastShutdown => some .fastShutdown
  | _ => none

/-- The main program has begun `KillProcessGroup(SIGTERM)` and not yet armed the escalation. -/
def Pc.Arming : Pc → Prop
  | .kill _ _ .smartShutdown | .clearSmartShutdown .smartShutdown | .setForceFastShutdown => True
  | _ => False

/-- The call is not made for a `SIGTERM`. -/
def KillCaller.Aside : KillCaller → Prop
  | .smartShutdown | .secondSmartShutdown => False
  | _ => True

/-- The place has nothing to do with a `SIGTERM` or with the end of a fast shutdown. -/
def Pc.Aside : Pc → Prop
  | .killProcessGroup sig caller | .kill sig _ caller => sig = .sigquit ∧ caller.Aside
  | .clearFastShutdown | .clearSmartShutdown _ | .setForceFastShutdown => False
  | _ => True

theorem KillCaller.Aside.signal_eq {caller : KillCaller} (h : caller.Aside) :
    caller.signal = .sigquit := by
  cases caller <;> first | rfl | exact h.elim

theorem Pc.Aside.caller {pc : Pc} {caller : KillCaller} (h : pc.Aside)
    (hc : pc.caller = some caller) : caller.Aside := by
  cases pc with
  | killProcessGroup | kill =>
    obtain rfl := Option.some.inj hc
    exact h.2
  | clearFastShutdown | clearSmartShutdown => exact h.elim
  | _ => cases hc

theorem Pc.Aside.not_arming {pc : Pc} (h : pc.Aside) : ¬ pc.Arming := by
  cases pc with
  | kill _ _ caller => cases caller <;> first | exact id | exact h.2.elim
  | clearSmartShutdown | setForceFastShutdown => exact h.elim
  | _ => exact id

/-- **The escalation invariant.** `_mainapp_force_fast_shutdown` remembers the one call of
`KillProcessGroup(SIGTERM)`. -/
structure Escalation (tr : List Event) (s : State) : Prop where
  signal : ∀ sig caller, s.pc = .killProcessGroup sig caller ∨
    (∃ todo, s.pc = .kill sig todo caller) →
    sig = caller.signal
  first : s.pc.caller = some .smartShutdown → s.forceFastShutdown = false
  second : s.pc.caller = some .secondSmartShutdown → s.forceFastShutdown = true
  begun : .killpg .sigterm ∈ tr ↔ s.forceFastShutdown = true ∨ s.pc.Arming
  fast : s.pc = .clearFastShutdown → .killpgReturn .sigquit ∈ tr
  smart : ∀ caller, s.pc = .clearSmartShutdown caller →
    (caller = .smartShutdown ∨ caller = .secondSmartShutdown) ∧ .killpgReturn caller.signal ∈ tr
  escalated : s.pc = .clearSmartShutdown .secondSmartShutdown →
    Follows (.killpg .sigterm) (.killpgReturn .sigquit) tr

namespace Escalation

theorem init (cfg : Config) : Escalation [] (init cfg) := by
  constructor <;> simp [Overseer.init, Pc.caller, Pc.Arming]

/-- A step of anything but the main program. -/
theorem congr (he : Escalation tr s) (hpc : s'.pc = s.pc)
    (hforce : s'.forceFastShutdown = s.forceFastShutdown) (hes : .killpg .sigterm ∉ es) :
    Escalation (tr ++ es) s' where
  signal := by rw [hpc]; exact he.signal
  first := by rw [hpc, hforce]; exact he.first
  second := by rw [hpc, hforce]; exact he.second
  begun := by rw [hpc, hforce, ← he.begun]; simp [hes]
  fast h := List.mem_append_left _ (he.fast (hpc ▸ h))
  smart caller h := (he.smart caller (hpc ▸ h)).imp_right (List.mem_append_left _)
  escalated h := follows_append.2 (Or.inl (he.escalated (hpc ▸ h)))

/-- A step of the main program to a place away from the two shutdown requests. -/
theorem away (he : Escalation tr s) (hforce : s'.forceFastShutdown = s.forceFastShutdown)
    (hpc : ¬ s.pc.Arming) (haside : s'.pc.Aside) (hes : .killpg .sigterm ∉ es) :
    Escalation (tr ++ es) s' where
  signal sig caller h := by
    rcases h with h | ⟨_, h⟩ <;> rw [h] at haside <;> exact haside.1.trans haside.2.signal_eq.symm
  first h := (haside.caller h).elim
  second h := (haside.caller h).elim
  begun := by simp [hes, he.begun, hforce, hpc, haside.not_arming]
  fast h := by rw [h] at haside; exact haside.elim
  smart caller h := by rw [h] at haside; exact haside.elim
  escalated h := by rw [h] at haside; exact haside.elim

theorem mainStep (he : Escalation tr s) (h : MainStep cfg s s' es) : Escalation (tr ++ es) s' := by
  have ⟨hsignal, hfirst, hsecond, hbegun, hfast, hsmart, hescalated⟩ := he
  cases h with
  | throws hpc =>
    refine he.away rfl ?_ trivial (by simp)
    rcases hpc with hpc | hpc | hpc | hpc | hpc | hpc <;> simp [hpc, Pc.Arming]
  | @erase found _ hpc =>
    cases found <;> exact he.away rfl (by simp [hpc, Pc.Arming]) trivial (by simp)
  | setShouldExit hpc =>
    rcases hpc with ⟨_, _, _, hpc, rfl, rfl⟩ | ⟨_, _, hpc, rfl, rfl⟩ | ⟨_, _, hpc, rfl, rfl⟩ <;>
      refine he.away rfl (by simp [hpc, Pc.Arming]) ?_ (by simp) <;>
      dsimp only <;> split_ifs <;> simp [Pc.Aside, KillCaller.Aside]
  | handleDeath hpc =>
    refine he.away rfl (by simp [hpc, Pc.Arming]) ?_ (by simp)
    dsimp only [handleChildProcessDeath]
    split_ifs <;> trivial
  | firstSmart hpc | secondSmart hpc | setForceFastShutdown hpc =>
    constructor <;> simp_all [Pc.caller, Pc.Arming, KillCaller.signal]
  | @killpg _ caller hpc =>
    obtain rfl := hsignal _ _ (Or.inl hpc)
    cases caller with
    | smartShutdown | secondSmartShutdown =>
      constructor <;> simp_all [Pc.caller, Pc.Arming, KillCaller.signal]
    | _ => exact he.away rfl (by simp [hpc, Pc.Arming]) ⟨rfl, trivial⟩ (by simp [KillCaller.signal])
  | @kill _ _ _ caller hpc =>
    obtain rfl := hsignal _ _ (Or.inr ⟨_, hpc⟩)
    cases caller with
    | smartShutdown | secondSmartShutdown =>
      constructor <;> simp_all [Pc.caller, Pc.Arming, KillCaller.signal]
    | _ => exact he.away rfl (by simp [hpc, Pc.Arming]) ⟨rfl, trivial⟩ (by simp)
  | @killpgReturn _ caller hpc =>
    obtain rfl := hsignal _ _ (Or.inr ⟨_, hpc⟩)
    cases caller with
    | fastShutdown | smartShutdown | secondSmartShutdown =>
      constructor <;> simp_all [afterKill, Pc.caller, Pc.Arming, KillCaller.signal, follows_append]
    | _ => exact he.away rfl (by simp [hpc, Pc.Arming]) trivial (by simp)
  | clearSmartShutdown hpc =>
    rcases hsmart _ hpc with ⟨rfl | rfl, -⟩ <;> constructor <;>
      simp_all [afterClearSmart, Pc.caller, Pc.Arming, KillCaller.signal]
  | _ hpc =>
    exact he.away rfl (by simp [hpc, Pc.Arming]) (by simp [hpc, Pc.Aside, KillCaller.Aside])
      (by simp)

theorem step (he : Escalation tr s) (h : Step cfg s a s' es) : Escalation (tr ++ es) s' := by
  cases h with
  | main _ _ h => exact he.mainStep h
  | handler _ _ h => cases h <;> exact he.congr rfl rfl (by simp)
  | _ => exact he.congr rfl rfl (by simp)

end Escalation

theorem escalation_of_reach (h : Reach cfg tr s) : Escalation tr s := by
  refine h.invariant Escalation (.init cfg) ?_
  rintro tr s a s' es - he - hs
  exact he.step (step_cases hs)

/-- A call of `KillProcessGroup` that serves the request has returned. -/
def Served (tr : List Event) (sig : Signal) : Prop :=
  ∃ caller : KillCaller, caller.Serves sig ∧ .killpgReturn caller.signal ∈ tr

/-- The flag of a request is cleared after it was served. -/
theorem Escalation.served (he : Escalation tr s) (hc : s.pc.Clears sig) : Served tr sig := by
  unfold Pc.Clears at hc
  split at hc
  · rename_i hpc
    exact ⟨.fastShutdown, trivial, he.fast hpc⟩
  · rename_i caller hpc
    obtain ⟨hc, hret⟩ := he.smart caller hpc
    exact ⟨caller, by rcases hc with rfl | rfl <;> trivial, hret⟩
  · exact hc.elim

theorem attended_of_reach (h : Reach cfg tr s) (hsig : sig = .sigint ∨ sig = .sigterm)
    (hb : .handlerBegin sig ∈ tr) : Attended s sig ∨ Served tr sig := by
  refine h.invariant (fun tr s => .handlerBegin sig ∈ tr → Attended s sig ∨ Served tr sig)
    (by simp) ?_ hb
  rintro tr s a s' es hreach ih - hs hb
  have hstep := step_cases hs
  have served : Served tr sig → Served (tr ++ es) sig := fun ⟨caller, hc, hm⟩ =>
    ⟨caller, hc, List.mem_append_left es hm⟩
  rcases List.mem_append.1 hb with hb | hb
  case inr =>
    obtain rfl := handlerBegin_step hstep hb
    exact Or.inl (.of_deliver hstep)
  case inl =>
    rcases ih hb with ha | hd
    case inr => exact Or.inr (served hd)
    case inl =>
      by_cases hc : s.pc.Clears sig
      · exact Or.inr (served ((escalation_of_reach hreach).served hc))
      · rcases ha.step hsig hc hstep with ha | ⟨caller, hc, hm⟩
        · exact Or.inl ha
        · exact Or.inr ⟨caller, hc, List.mem_append_right tr hm⟩

/-! ## What has been done when the loop blocks -/

/-- **No wakeup is lost.** When the main loop is about to block, every `SIGINT` and every `SIGTERM`
that was handled has led to its call of `KillProcessGroup`, and every child whose `SIGCHLD` was
handled has been waited for. -/
theorem no_lost_wakeup (h : Reach cfg tr s) (hb : AboutToBlock s) :
    (.handlerBegin .sigint ∈ tr → .killpgReturn .sigquit ∈ tr) ∧
    (.handlerBegin .sigterm ∈ tr → .killpgReturn .sigterm ∈ tr ∨ .killpgReturn .sigquit ∈ tr) ∧
    ∀ pid, Follows (.died pid) (.handlerBegin .sigchld) tr → .reap pid ∈ tr := by
  refine ⟨fun hi => ?_, fun ht => ?_, fun pid hf => ?_⟩
  · rcases attended_of_reach h (Or.inl rfl) hi with ha | ⟨caller, hc, hm⟩
    · exact absurd hb ha.not_aboutToBlock
    · cases caller <;> first | exact hm | exact hc.elim
  · rcases attended_of_reach h (Or.inr rfl) ht with ha | ⟨caller, hc, hm⟩
    · exact absurd hb ha.not_aboutToBlock
    · cases caller <;> first | exact Or.inl hm | exact Or.inr hm
  · exact (awake_of_reach h hf).resolve_left fun ha => ha.not_aboutToBlock hb

/-- A second `SIGTERM` when the first one has been served, which leads to
`KillProcessGroup(SIGQUIT)`. -/
def twoSigterms : List Action :=
  firstSigterm ++ [.run .ok, .run .ok, .run .ok, .run .ok, .run .ok, .run (.wait .none),
    .raise .sigterm, .deliver .sigterm, .run .ok, .run .ok, .run .ok, .run .ok,
    .run .ready, .run .ok, .run .ok, .run .ok, .run .ok, .run .ok, .run .ok,
    .run .ok, .run .ok, .run .ok, .run .ok, .run (.wait .none)]

theorem isSome_exec_twoSigterms :
    ((machine oneWorker).exec (init oneWorker) twoSigterms).isSome := by
  decide

theorem no_lost_wakeup_oneWorker : ∃ tr s, Reach oneWorker tr s ∧ AboutToBlock s ∧
    .handlerBegin .sigterm ∈ tr ∧ (.killpgReturn .sigterm ∈ tr ∨ .killpgReturn .sigquit ∈ tr) := by
  have h := no_lost_wakeup (Machine.reach_exec isSome_exec_twoSigterms)
    ⟨by decide, by decide, by decide, by decide⟩
  exact ⟨_, _, Machine.reach_exec isSome_exec_twoSigterms,
    ⟨by decide, by decide, by decide, by decide⟩, by decide, h.2.1 (by decide)⟩

/-! ## The second `SIGTERM` -/

/-- The main program is in the call of `KillProcessGroup(SIGTERM)`, or it has returned and not yet
cleared `_mainapp_smart_shutdown`. -/
def Pc.forgets : Pc → Bool
  | .kill _ _ .smartShutdown | .clearSmartShutdown .smartShutdown => true
  | _ => false

/-- The next smart shutdown request will find the escalation armed. -/
def Armed (s : State) : Prop := s.forceFastShutdown = true ∨ s.pc = .setForceFastShutdown

theorem armed_step (ha : Armed s) (h : Step cfg s a s' es) : Armed s' := by
  cases h with
  | main _ _ h =>
    cases h with
    | setForceFastShutdown => exact Or.inl rfl
    | @erase found hpc =>
      refine Or.inl (ha.elim (fun h => ?_) fun h => ?_)
      · cases found <;> exact h
      · simp_all
    | setShouldExit hpc =>
      refine Or.inl (ha.elim id fun h => ?_)
      rcases hpc with ⟨_, _, _, hpc, -⟩ | ⟨_, _, hpc, -⟩ | ⟨_, _, hpc, -⟩ <;> simp [h] at hpc
    | throws hpc => exact Or.inl (ha.elim id fun h => by simp [h] at hpc)
    | _ => exact Or.inl (ha.elim id fun h => by simp_all)
  | handler _ _ h => cases h <;> exact ha
  | _ => exact ha

/-- The call of `KillProcessGroup(SIGTERM)` is made and left unarmed. -/
theorem Escalation.not_armed (he : Escalation tr s) (hc : s.pc.caller = some .smartShutdown) :
    ¬ Armed s := by
  rintro (h | h)
  · simp [he.first hc] at h
  · simp [h, Pc.caller] at hc

theorem KillCaller.eq_smart {caller : KillCaller} (h : .sigterm = caller.signal) :
    caller = .smartShutdown := by
  cases caller <;> first | rfl | cases h

/-- Only the first smart shutdown request makes a call with `SIGTERM`. -/
theorem Escalation.caller_of_return (he : Escalation tr s) (h : Step cfg s a s' es)
    (hret : .killpgReturn .sigterm ∈ es) : s.pc.caller = some .smartShutdown := by
  cases h with
  | main _ _ h =>
    cases h with
    | @killpgReturn _ caller hpc =>
      obtain rfl : Signal.sigterm = _ := by simpa using hret
      rw [hpc, KillCaller.eq_smart (he.signal _ caller (Or.inr ⟨_, hpc⟩))]
      rfl
    | _ => simp at hret
  | handler _ _ h => cases h <;> simp at hret
  | _ => simp at hret

/-- `KillProcessGroup(SIGTERM)` is called at most once. -/
theorem count_killpg_sigterm (h : Reach cfg tr s) : tr.count (.killpg .sigterm) ≤ 1 := by
  refine h.invariant (fun tr _ => tr.count (.killpg .sigterm) ≤ 1) (by simp) ?_
  rintro tr s a s' es hreach ih - hs
  have he := escalation_of_reach hreach
  rw [List.count_append]
  by_cases hnew : .killpg .sigterm ∈ es
  case neg => simpa [List.count_eq_zero.2 hnew] using ih
  case pos =>
    have hfirst : .killpg .sigterm ∉ tr ∧ es = [.killpg .sigterm] := by
      cases step_cases hs with
      | main _ _ h =>
        cases h with
        | @killpg _ caller hpc =>
          obtain rfl : Signal.sigterm = _ := by simpa using hnew
          have hsignal := he.signal _ _ (Or.inl hpc)
          obtain rfl := KillCaller.eq_smart hsignal
          have hforce := he.first (by rw [hpc]; rfl)
          exact ⟨by rw [he.begun, hpc, hforce]; simp [Pc.Arming], rfl⟩
        | _ => simp at hnew
      | handler _ _ h => cases h <;> simp at hnew
      | _ => simp at hnew
    obtain ⟨hn, rfl⟩ := hfirst
    simp [List.count_eq_zero.2 hn]

/-- The guard of the runs in which no `SIGTERM` is delivered while the main program would forget
it. -/
def remembers (s : State) (a : Action) : Bool := a != .deliver .sigterm || !s.pc.forgets

theorem escalates_of_run (h : (machine cfg).Run (fun _ s a => remembers s a) (init cfg) tr s)
    (hf : Follows (.killpg .sigterm) (.handlerBegin .sigterm) tr) :
    (Attended s .sigterm ∧ Armed s) ∨ Follows (.killpg .sigterm) (.killpgReturn .sigquit) tr := by
  refine h.invariant (fun tr s => Follows (.killpg .sigterm) (.handlerBegin .sigterm) tr →
    (Attended s .sigterm ∧ Armed s) ∨ Follows (.killpg .sigterm) (.killpgReturn .sigquit) tr)
    (by simp) ?_ hf
  rintro tr s a s' es hrun ih hg hs hf
  have he := escalation_of_reach hrun.reach
  have hstep := step_cases hs
  by_cases hnew : .handlerBegin .sigterm ∈ es
  case pos =>
    left
    obtain rfl := handlerBegin_step hstep hnew
    have hbegun : .killpg .sigterm ∈ tr := by
      cases hstep
      rcases follows_append.1 hf with h | ⟨h, -⟩ | h
      · exact h.mem_left
      · exact h
      · exact absurd h (by simp)
    refine ⟨.of_deliver hstep, armed_step ?_ hstep⟩
    rcases he.begun.1 hbegun with h | h
    · exact Or.inl h
    · right
      have hg' : s.pc.forgets = false := by simpa [remembers] using hg
      unfold Pc.Arming at h
      split at h <;> simp_all [Pc.forgets]
  case neg =>
    have hold : Follows (.killpg .sigterm) (.handlerBegin .sigterm) tr := by
      rcases follows_append.1 hf with h | ⟨-, h⟩ | h
      · exact h
      · exact absurd h hnew
      · exact absurd h.mem_right hnew
    rcases ih hold with ⟨ha, harm⟩ | hd
    case inr => exact Or.inr (follows_append.2 (Or.inl hd))
    case inl =>
      by_cases hc : s.pc.Clears .sigterm
      case pos =>
        unfold Pc.Clears at hc
        split at hc
        case h_1 hsig => cases hsig
        case h_3 => exact hc.elim
        case h_2 caller hpc _ =>
          rcases he.smart caller hpc with ⟨rfl | rfl, -⟩
          · exact absurd harm (he.not_armed (by rw [hpc]; rfl))
          · exact Or.inr (follows_append.2 (Or.inl (he.escalated hpc)))
      case neg =>
        rcases ha.step (Or.inr rfl) hc hstep with ha | ⟨caller, hserves, hm⟩
        · exact Or.inl ⟨ha, armed_step harm hstep⟩
        · refine Or.inr (follows_append.2 (Or.inr (Or.inl ⟨hold.mem_left, ?_⟩)))
          cases caller with
          | smartShutdown => exact absurd harm (he.not_armed (he.caller_of_return hstep hm))
          | _ => exact hm

/-- **Two smart shutdowns mean a fast shutdown**, in the runs in which no `SIGTERM` is delivered
between the call of `KillProcessGroup(SIGTERM)` and the clearing of the flag. -/
theorem second_sigterm_escalates {l₁ l₂ : List Event}
    (h : (machine cfg).Run (fun _ s a => remembers s a) (init cfg) tr s) (hb : AboutToBlock s)
    (htr : tr = l₁ ++ .killpg .sigterm :: l₂) (hterm : .handlerBegin .sigterm ∈ l₂) :
    .killpgReturn .sigquit ∈ l₂ := by
  rcases escalates_of_run h ⟨l₁, l₂, htr, hterm⟩ with ⟨ha, -⟩ | ⟨m₁, m₂, hm, hquit⟩
  · exact absurd hb ha.not_aboutToBlock
  · have once := count_killpg_sigterm h.reach
    have last : ∀ k₁ k₂, tr = k₁ ++ .killpg .sigterm :: k₂ → .killpg .sigterm ∉ k₂ := by
      rintro k₁ k₂ rfl
      rw [List.count_append, List.count_cons_self] at once
      exact List.count_eq_zero.1 (by omega)
    obtain ⟨-, rfl⟩ := append_cons_inj_last (last l₁ l₂ htr) (last m₁ m₂ hm) (htr.symm.trans hm)
    exact hquit

/-- A second `SIGTERM` right after, whose flag is cleared with the first one's. -/
def forgottenSigterm : List Action :=
  firstSigterm ++ [.raise .sigterm, .deliver .sigterm, .run .ok, .run .ok, .run .ok, .run .ok,
    .run .ok, .run .ok, .run .ok, .run .ok, .run .ok, .run (.wait .none),
    .run .ready, .run .ok, .run .ok, .run .ok, .run .ok, .run (.wait .none)]

theorem isSome_exec_forgotten :
    ((machine oneWorker).exec (init oneWorker) forgottenSigterm).isSome := by
  decide

/-- The counterexample to the escalation: the second request is gone, and no `SIGQUIT` was sent. -/
theorem not_second_sigterm_escalates : ¬ ∀ (cfg : Config) (tr : List Event) (s : State)
    (l₁ l₂ : List Event), Reach cfg tr s → AboutToBlock s → tr = l₁ ++ .killpg .sigterm :: l₂ →
    .handlerBegin .sigterm ∈ l₂ → .killpgReturn .sigquit ∈ l₂ := by
  intro h
  have hq := h oneWorker _ _
    [.fork 10 (.worker 0), .fork 11 .monitoring, .log .startupComplete, .handlerBegin .sigterm,
      .handlerReturn .sigterm, .log .smartShutdown]
    [.handlerBegin .sigterm, .handlerReturn .sigterm, .kill 10 .sigterm, .kill 11 .sigterm,
      .killpgReturn .sigterm]
    (Machine.reach_exec isSome_exec_forgotten) ⟨by decide, by decide, by decide, by decide⟩
    (by decide) (by simp)
  simp at hq

theorem second_sigterm_escalates_oneWorker : ∃ tr s l₁ l₂,
    (machine oneWorker).Run (fun _ s a => remembers s a) (init oneWorker) tr s ∧ AboutToBlock s ∧
    tr = l₁ ++ .killpg .sigterm :: l₂ ∧ .handlerBegin .sigterm ∈ l₂ ∧
      .killpgReturn .sigquit ∈ l₂ := by
  have h := Machine.Run.exec (g := fun _ => remembers) .nil
    (Option.some_get isSome_exec_twoSigterms).symm
    (by decide)
  let l₁ : List Event := [.fork 10 (.worker 0), .fork 11 .monitoring, .log .startupComplete,
    .handlerBegin .sigterm, .handlerReturn .sigterm, .log .smartShutdown]
  let l₂ : List Event := [.kill 10 .sigterm, .kill 11 .sigterm, .killpgReturn .sigterm,
    .handlerBegin .sigterm, .handlerReturn .sigterm, .log .secondSmartShutdown, .killpg .sigquit,
    .kill 10 .sigquit, .kill 11 .sigquit, .killpgReturn .sigquit]
  exact ⟨_, _, l₁, l₂, h, ⟨by decide, by decide, by decide, by decide⟩, by decide, by decide,
    second_sigterm_escalates h ⟨by decide, by decide, by decide, by decide⟩
      (show _ = l₁ ++ .killpg .sigterm :: l₂ by decide) (by decide)⟩

end BladePSGI.Overseer

import BladePSGI.Main.AuxiliaryProcesses
import BladePSGI.Perl.Loader

/-!
# The callbacks of the auxiliary processes

The program with the loader that it runs and with the Perl scalars. The loader runs inside
`CallAndReceiveCallback`; a `fork` copies the memory that it has left, and an auxiliary process
calls the callback of `auxiliary_processes_` that it was forked for.

* `reach_main`: seen without the scalars, the runs are those of the program.
* `asRequested_iff`: an auxiliary process calls what it was requested with only if the loader keeps
  the variables of its requests.
* `not_asRequested_reassigned`: a loader that uses its variable again.
-/

namespace BladePSGI.Main.Callbacks

open Function Transition Perl

variable {Value : Type}

/-- What an auxiliary process starts with: the place of its request in `auxiliary_processes_`, and a
copy of the memory. The copy changes only when the callback runs. -/
structure Image (Value : Type) where
  index : ℕ
  interpreter : Interpreter Value

structure State (Value : Type) where
  main : Main.State
  /-- What the loader has still to do. -/
  rest : Loader Value
  interpreter : Interpreter Value
  images : Pid → Option (Image Value)

inductive Event (Value : Type)
  | main (e : Main.Event)
  /-- The process forked for `auxiliary_processes_[index]` calls its callback, and `perl_call_sv`
  finds this value. -/
  | call (index : ℕ) (subr : Option Value)

inductive Action
  /-- The loader goes on. -/
  | loader
  | main (a : Main.Action)

/-- What a step leads to. -/
abbrev Result (Value : Type) := Option (State Value × List (Event Value))

def init [Inhabited Value] (loader : Loader Value) : State Value where
  main := .startup Startup.init
  rest := loader
  interpreter := .init
  images := fun _ => none

/-- The loader runs. -/
def inLoader : Main.State → Bool
  | .startup s => s.pc = .callAndReceiveCallback ∧ s.terminated = none
  | .running _ => false

/-- The next statement of the loader. -/
def loaderStep (cl : CommandLine) (s : State Value) : Result Value :=
  match s.rest with
  | [] => none
  | .assign x v :: rest =>
    if inLoader s.main then some ({ s with rest, interpreter := s.interpreter.assign x v }, [])
    else none
  | .requestAuxiliaryProcess name subr :: rest =>
    match (Main.machine cl).step s.main (.startup (.requestAuxiliaryProcess name)) with
    | none => none
    | some (main, es) =>
      some ({ s with main, rest, interpreter := s.interpreter.request subr }, es.map .main)

/-- `CallAndReceiveCallback` returns. -/
def loaderReturns : Main.State → Main.Action → Bool
  | .startup s, .startup .ok => s.pc = .callAndReceiveCallback
  | _, _ => false

/-- A `fork` copies the memory. -/
def noteFork (interpreter : Interpreter Value) (images : Pid → Option (Image Value)) :
    Main.Event → Pid → Option (Image Value)
  | .group (.overseer (.fork pid (.auxiliary index))) =>
    update images pid (some ⟨index, interpreter⟩)
  | .group (.overseer (.fork pid _)) => update images pid none
  | _ => images

/-- `Run` of an auxiliary process is at `callback_->Call()`. -/
def atCall : Group.Program → Bool
  | .auxiliary x => x.pc = .call
  | _ => false

/-- The call of the callback. -/
def call (s : State Value) : Main.Action → List (Event Value)
  | .group (.child pid _) =>
    match s.main with
    | .startup _ => []
    | .running r =>
      if (r.group.processes pid).any fun p => atCall p.program then
        (s.images pid).toList.map fun image =>
          .call image.index (image.interpreter.callbackCall image.index)
      else []
  | _ => []

def mainStep (cl : CommandLine) (isLexical : ℕ → Bool) (s : State Value) (a : Main.Action) :
    Result Value :=
  if loaderReturns s.main a && !s.rest.isEmpty then none
  else
    match (Main.machine cl).step s.main a with
    | none => none
    | some (main, es) =>
      some ({ s with
        main
        interpreter :=
          if loaderReturns s.main a then s.interpreter.leave isLexical else s.interpreter
        images := es.foldl (noteFork s.interpreter) s.images }, call s a ++ es.map .main)

def step (cl : CommandLine) (isLexical : ℕ → Bool) (s : State Value) : Action → Result Value
  | .loader => loaderStep cl s
  -- only the loader makes requests
  | .main (.startup (.requestAuxiliaryProcess _)) => none
  | .main a => mainStep cl isLexical s a

/-- The program and its loader as a machine. -/
def machine (cl : CommandLine) (isLexical : ℕ → Bool) :
    Machine (State Value) Action (Event Value) :=
  ⟨step cl isLexical⟩

/-- The runs of the program with the loader. -/
abbrev Reach [Inhabited Value] (cl : CommandLine) (isLexical : ℕ → Bool) (loader : Loader Value) :
    List (Event Value) → State Value → Prop :=
  (machine cl isLexical).Reach (init loader)

/-! ## What a step can do -/

inductive Step (cl : CommandLine) (isLexical : ℕ → Bool) (s : State Value) :
    State Value → List (Event Value) → Prop
  | assign {x v rest} (hrest : s.rest = .assign x v :: rest) (h : inLoader s.main = true) :
      Step cl isLexical s { s with rest, interpreter := s.interpreter.assign x v } []
  | request {name subr rest main es}
      (hrest : s.rest = .requestAuxiliaryProcess name subr :: rest)
      (h : (Main.machine cl).step s.main (.startup (.requestAuxiliaryProcess name)) =
        some (main, es)) :
      Step cl isLexical s
        { s with main, rest, interpreter := s.interpreter.request subr } (es.map .main)
  | returns {a main es} (hret : loaderReturns s.main a = true) (hrest : s.rest = [])
      (h : (Main.machine cl).step s.main a = some (main, es)) :
      Step cl isLexical s { s with
        main
        interpreter := s.interpreter.leave isLexical
        images := es.foldl (noteFork s.interpreter) s.images } (call s a ++ es.map .main)
  | main {a main es} (ha : ∀ name, a ≠ .startup (.requestAuxiliaryProcess name))
      (hret : loaderReturns s.main a = false)
      (h : (Main.machine cl).step s.main a = some (main, es)) :
      Step cl isLexical s { s with
        main
        images := es.foldl (noteFork s.interpreter) s.images } (call s a ++ es.map .main)

variable {cl : CommandLine} {isLexical : ℕ → Bool} {s s' : State Value} {a : Action}
  {tr es : List (Event Value)} {loader : Loader Value}

theorem loaderStep_cases (h : loaderStep cl s = some (s', es)) : Step cl isLexical s s' es := by
  unfold loaderStep at h
  split at h
  case h_1 => cases h
  case h_2 hrest =>
    split_ifs at h with hin
    obtain ⟨rfl, rfl⟩ := Prod.mk.inj (Option.some.inj h)
    exact .assign hrest hin
  case h_3 hrest =>
    split at h
    · cases h
    · obtain ⟨rfl, rfl⟩ := Prod.mk.inj (Option.some.inj h)
      exact .request hrest ‹_›

theorem mainStep_cases {a : Main.Action} (ha : ∀ name, a ≠ .startup (.requestAuxiliaryProcess name))
    (h : mainStep cl isLexical s a = some (s', es)) : Step cl isLexical s s' es := by
  unfold mainStep at h
  split_ifs at h with hstop hret
  · split at h
    · cases h
    · obtain ⟨rfl, rfl⟩ := Prod.mk.inj (Option.some.inj h)
      exact .returns hret (by simpa [hret] using hstop) ‹_›
  · split at h
    · cases h
    · obtain ⟨rfl, rfl⟩ := Prod.mk.inj (Option.some.inj h)
      exact .main ha (Bool.eq_false_of_not_eq_true hret) ‹_›

/-- **What a step of the program and its loader can do.** -/
theorem step_cases (h : (machine cl isLexical).step s a = some (s', es)) :
    Step cl isLexical s s' es := by
  change step cl isLexical s a = _ at h
  unfold step at h
  split at h
  case h_1 => exact loaderStep_cases h
  case h_2 => cases h
  case h_3 a ha => exact mainStep_cases (fun name heq => ha name heq) h

/-! ## The program under the loader -/

/-- The event of the program. -/
def Event.main? : Event Value → Option Main.Event
  | .main e => some e
  | .call _ _ => none

/-- The trace of the program. -/
def mainTrace (tr : List (Event Value)) : List Main.Event := tr.filterMap Event.main?

theorem mainTrace_map (es : List Main.Event) :
    mainTrace (es.map (.main : Main.Event → Event Value)) = es := by
  rw [mainTrace, List.filterMap_map]
  exact List.filterMap_some

/-- A call is made on the copy that the process has. -/
theorem eq_of_mem_call {a : Main.Action} {e : Event Value} (h : e ∈ call s a) :
    ∃ pid image, s.images pid = some image ∧
      e = .call image.index (image.interpreter.callbackCall image.index) := by
  unfold call at h
  split at h
  · split at h
    · cases h
    · split_ifs at h
      · obtain ⟨image, himage, rfl⟩ := List.mem_map.1 h
        exact ⟨_, image, Option.mem_toList.1 himage, rfl⟩
      · cases h
  · cases h

theorem mainTrace_call_append (a : Main.Action) (es : List Main.Event) :
    mainTrace (call s a ++ es.map .main) = es := by
  have hcall : (call s a).filterMap Event.main? = [] := by
    refine List.filterMap_eq_nil_iff.2 fun e he => ?_
    obtain ⟨pid, image, -, rfl⟩ := eq_of_mem_call he
    rfl
  rw [mainTrace, List.filterMap_append, hcall, List.nil_append]
  exact mainTrace_map es

/-- **Seen without the scalars, a run is a run of the program.** -/
theorem reach_main [Inhabited Value] (h : Reach cl isLexical loader tr s) :
    Main.Reach cl (mainTrace tr) s.main := by
  refine Machine.Run.project State.main Event.main? ?_ h
  intro s a s' es hs
  cases step_cases hs with
  | assign => exact Or.inl ⟨rfl, rfl⟩
  | request _ h => exact Or.inr ⟨_, h.trans (by rw [← mainTrace, mainTrace_map])⟩
  | returns _ _ h | main _ _ h =>
    exact Or.inr ⟨_, h.trans (by rw [← mainTrace, mainTrace_call_append])⟩

/-! ## What the loader leaves -/

/-- The names of the requests. -/
def names (loader : Loader Value) : List String :=
  loader.filterMap fun
    | .assign _ _ => none
    | .requestAuxiliaryProcess name _ => some name

theorem length_names (loader : Loader Value) :
    (names loader).length = (Loader.subrs loader).length := by
  induction loader with
  | nil => rfl
  | cons statement loader ih =>
    cases statement with
    | assign x v => exact ih
    | requestAuxiliaryProcess name subr => exact congrArg (· + 1) ih

/-- The memory after the loader. -/
def left [Inhabited Value] (isLexical : ℕ → Bool) (loader : Loader Value) : Interpreter Value :=
  (Interpreter.init.run loader).leave isLexical

/-- The place where the loader stands. -/
def LoaderAt [Inhabited Value] (isLexical : ℕ → Bool) (loader : Loader Value) (s : State Value) :
    Prop :=
  match s.main with
  | .startup st => ∃ past, loader = past ++ s.rest ∧ st.auxiliaryNames = names past ∧
      (st.pc ≠ .lockAllocations → s.interpreter = Interpreter.init.run past) ∧
      (st.pc = .lockAllocations → s.rest = [] ∧ s.interpreter = left isLexical past)
  | .running r => r.auxiliaryNames = names loader ∧ s.interpreter = left isLexical loader

/-- The auxiliary process of the index has been forked. -/
def Forked (index : ℕ) (tr : List (Event Value)) : Prop :=
  ∃ pid, .main (.group (.overseer (.fork pid (.auxiliary index)))) ∈ tr

/-- **The invariant of the program with its loader.** -/
structure Known [Inhabited Value] (isLexical : ℕ → Bool) (loader : Loader Value)
    (tr : List (Event Value)) (s : State Value) : Prop where
  loaderAt : LoaderAt isLexical loader s
  images : ∀ pid image, s.images pid = some image →
    image.interpreter = left isLexical loader ∧ Forked image.index tr
  calls : ∀ index subr, .call index subr ∈ tr →
    subr = (left isLexical loader).callbackCall index ∧ Forked index tr

/-- What a step before the first `fork` keeps of the requests; `returns` if it can be the last. -/
def KeepsRequests (st st' : Startup) (returns : Prop) : Prop :=
  st'.auxiliaryNames = st.auxiliaryNames ∧ (st'.pc = .lockAllocations → returns)

section KeepsRequests

variable {st st' : Startup} {o : Startup.Outcome} {es : List Startup.Event} {next : Startup.Pc}

theorem keepsRequests_throws {calls : List String} (h : st.throws calls next o = some (st', es)) :
    KeepsRequests st st' (next = .lockAllocations ∧ o = .ok) := by
  cases o with
  | ok =>
    obtain ⟨rfl, rfl⟩ := Prod.mk.inj (Option.some.inj h)
    exact ⟨rfl, fun hpc => ⟨hpc, rfl⟩⟩
  | fails syscall e =>
    simp only [Startup.throws] at h
    split_ifs at h
    obtain ⟨rfl, rfl⟩ := Prod.mk.inj (Option.some.inj h)
    exact ⟨rfl, by simp⟩
  | _ => cases h

theorem keepsRequests_initializeUNIXSocket {path : String}
    (h : st.initializeUNIXSocket path next o = some (st', es)) :
    KeepsRequests st st' (next = .lockAllocations ∧ o = .ok) := by
  unfold Startup.initializeUNIXSocket at h
  split at h
  case h_3 => exact keepsRequests_throws h
  all_goals
    obtain ⟨rfl, rfl⟩ := Prod.mk.inj (Option.some.inj h)
    exact ⟨rfl, by simp⟩

theorem keepsRequests_perl {failure : PerlFailure} (h : st.perl failure next o = some (st', es)) :
    KeepsRequests st st' (next = .lockAllocations ∧ o = .ok) := by
  cases o with
  | ok =>
    obtain ⟨rfl, rfl⟩ := Prod.mk.inj (Option.some.inj h)
    exact ⟨rfl, fun hpc => ⟨hpc, rfl⟩⟩
  | perlException =>
    obtain ⟨rfl, rfl⟩ := Prod.mk.inj (Option.some.inj h)
    exact ⟨rfl, by simp⟩
  | _ => cases h

theorem KeepsRequests.imp {P : Prop} (h : KeepsRequests st st' (next = .lockAllocations ∧ o = .ok))
    (hnext : next ≠ .lockAllocations) : KeepsRequests st st' P :=
  ⟨h.1, fun hpc => absurd (h.2 hpc).1 hnext⟩

/-- The other steps before the first `fork`. -/
theorem keepsRequests_step (h : st.step cl o = some (st', es))
    (ho : ∀ name, o ≠ .requestAuxiliaryProcess name) :
    KeepsRequests st st' (st.pc = .callAndReceiveCallback ∧ o = .ok) := by
  unfold Startup.step at h
  split at h
  case h_1 | h_3 => exact (keepsRequests_throws h).imp (by decide)
  case h_6 | h_7 => exact (keepsRequests_initializeUNIXSocket h).imp (by decide)
  case h_9 | h_10 => exact (keepsRequests_perl h).imp (by decide)
  case h_13 hpc _ _ =>
    obtain ⟨hnames, hreturns⟩ := keepsRequests_perl h
    exact ⟨hnames, fun hlock => ⟨hpc, (hreturns hlock).2⟩⟩
  case h_11 name _ => exact absurd rfl (ho name)
  case h_15 =>
    unfold Startup.setShouldExitImmediately at h
    split_ifs at h <;> obtain ⟨rfl, rfl⟩ := Prod.mk.inj (Option.some.inj h) <;>
      exact ⟨rfl, by simp⟩
  case h_5 hpc | h_18 hpc =>
    obtain ⟨rfl, rfl⟩ := Prod.mk.inj (Option.some.inj h)
    exact ⟨rfl, by simp [hpc]⟩
  case h_19 => cases h
  all_goals
    obtain ⟨rfl, rfl⟩ := Prod.mk.inj (Option.some.inj h)
    exact ⟨rfl, by simp⟩

end KeepsRequests

/-- What the steps outside of the loader keep of the requests. -/
def Passes : Main.State → Main.State → Prop
  | .startup st, .startup st' => st'.auxiliaryNames = st.auxiliaryNames ∧
      (st'.pc = .lockAllocations ↔ st.pc = .lockAllocations)
  | .startup st, .running r => st.pc = .lockAllocations ∧ r.auxiliaryNames = st.auxiliaryNames
  | .running r, .running r' => r'.auxiliaryNames = r.auxiliaryNames
  | .running _, .startup _ => False

theorem passes {main main' : Main.State} {a : Main.Action} {es : List Main.Event}
    (ha : ∀ name, a ≠ .startup (.requestAuxiliaryProcess name))
    (hret : loaderReturns main a = false) (h : (Main.machine cl).step main a = some (main', es)) :
    Passes main main' := by
  cases main with
  | running r =>
    cases Main.step_cases h with
    | group | requestAuxiliaryProcess => exact rfl
  | startup st =>
    change Main.step cl (.startup st) a = _ at h
    unfold Main.step at h
    split at h
    case h_1 st o heq =>
      obtain rfl := Main.State.startup.inj heq
      unfold startupStep at h
      split_ifs at h with _ hlock
      · obtain ⟨rfl, rfl⟩ := Prod.mk.inj (Option.some.inj h)
        exact ⟨hlock.1, rfl⟩
      · obtain ⟨⟨st', es'⟩, hstep, heq⟩ := Option.map_eq_some_iff.1 h
        obtain ⟨rfl, rfl⟩ := Prod.mk.inj heq
        obtain ⟨hnames, hpc⟩ :=
          keepsRequests_step hstep fun name ho => ha name (congrArg Main.Action.startup ho)
        refine ⟨hnames, fun hlock' => ?_, fun hlock' => ?_⟩
        · obtain ⟨hcall, rfl⟩ := hpc hlock'
          simp [loaderReturns, hcall] at hret
        · simp only [Startup.step, hlock', reduceCtorEq] at hstep
    case h_2 heq =>
      obtain rfl := Main.State.startup.inj heq
      split_ifs at h
      obtain ⟨rfl, rfl⟩ := Prod.mk.inj (Option.some.inj h)
      exact ⟨rfl, Iff.rfl⟩
    case h_3 heq | h_4 heq => cases heq
    case h_5 => cases h

/-- The return of the loader. -/
theorem returns_cases {main main' : Main.State} {a : Main.Action} {es : List Main.Event}
    (hret : loaderReturns main a = true)
    (h : (Main.machine cl).step main a = some (main', es)) :
    ∃ st, main = .startup st ∧ st.pc = .callAndReceiveCallback ∧
      main' = .startup { st with pc := .lockAllocations } ∧ es = [] := by
  unfold loaderReturns at hret
  split at hret
  case h_1 st =>
    have hpc : st.pc = .callAndReceiveCallback := of_decide_eq_true hret
    change startupStep cl st .ok = _ at h
    unfold startupStep at h
    split_ifs at h with hterm hlock
    · rw [hpc] at hlock
      cases hlock.1
    · obtain ⟨⟨st', es'⟩, hstep, heq⟩ := Option.map_eq_some_iff.1 h
      obtain ⟨rfl, rfl⟩ := Prod.mk.inj heq
      simp only [Startup.step, hpc, Startup.perl, Startup.goto] at hstep
      obtain ⟨rfl, rfl⟩ := Prod.mk.inj (Option.some.inj hstep)
      exact ⟨st, rfl, hpc, rfl, rfl⟩
  case h_2 => cases hret

/-- A request of the loader. -/
theorem request_cases {main main' : Main.State} {name : String} {es : List Main.Event}
    (h : (Main.machine cl).step main (.startup (.requestAuxiliaryProcess name)) =
      some (main', es)) :
    ∃ st, main = .startup st ∧ st.pc = .callAndReceiveCallback ∧
      main' = .startup { st with auxiliaryNames := st.auxiliaryNames ++ [name] } ∧
      es = [.startup (.requestAuxiliaryProcess name)] := by
  cases main with
  | running => cases h
  | startup st =>
    change startupStep cl st (.requestAuxiliaryProcess name) = _ at h
    unfold startupStep at h
    split_ifs at h with hterm hlock
    · cases hlock.2
    · obtain ⟨⟨st', es'⟩, hstep, heq⟩ := Option.map_eq_some_iff.1 h
      obtain ⟨rfl, rfl⟩ := Prod.mk.inj heq
      cases hpc : st.pc <;>
        simp only [Startup.step, hpc, Startup.throws, Startup.initializeUNIXSocket, Startup.perl,
          reduceCtorEq] at hstep
      obtain ⟨rfl, rfl⟩ := Prod.mk.inj (Option.some.inj hstep)
      exact ⟨st, rfl, hpc, by rw [hpc], rfl⟩

/-- Nobody forks before the process group is there. -/
theorem running_of_mem {main main' : Main.State} {a : Main.Action} {es : List Main.Event}
    {e : Group.Event} (h : (Main.machine cl).step main a = some (main', es)) (he : .group e ∈ es) :
    ∃ r, main = .running r := by
  cases Main.step_cases h with
  | startup => simp at he
  | run => cases he
  | group | requestAuxiliaryProcess => exact ⟨_, rfl⟩

/-- The forks of a step copy the memory. -/
theorem images_foldl {interpreter : Interpreter Value} {images : Pid → Option (Image Value)}
    {es : List Main.Event} {pid : Pid} {image : Image Value}
    (h : es.foldl (noteFork interpreter) images pid = some image) :
    images pid = some image ∨ image.interpreter = interpreter ∧
      ∃ q, .group (.overseer (.fork q (.auxiliary image.index))) ∈ es := by
  induction es generalizing images with
  | nil => exact Or.inl h
  | cons e es ih =>
    rcases ih h with hfirst | ⟨hi, q, hq⟩
    · clear h
      unfold noteFork at hfirst
      split at hfirst
      case h_1 q index =>
        by_cases hpid : pid = q
        · subst hpid
          rw [update_self, Option.some.injEq] at hfirst
          subst hfirst
          exact Or.inr ⟨rfl, pid, List.mem_cons_self⟩
        · rw [update_of_ne hpid] at hfirst
          exact Or.inl hfirst
      case h_2 q child _ =>
        by_cases hpid : pid = q
        · simp [hpid] at hfirst
        · rw [update_of_ne hpid] at hfirst
          exact Or.inl hfirst
      case h_3 => exact Or.inl hfirst
    · exact Or.inr ⟨hi, q, List.mem_cons_of_mem _ hq⟩

theorem Forked.append {index : ℕ} (h : Forked index tr) (es : List (Event Value)) :
    Forked index (tr ++ es) := by
  obtain ⟨pid, hmem⟩ := h
  exact ⟨pid, List.mem_append_left _ hmem⟩

namespace Known

variable [Inhabited Value]

theorem init (isLexical : ℕ → Bool) (loader : Loader Value) :
    Known isLexical loader [] (init loader) := by
  refine ⟨⟨[], rfl, rfl, fun _ => rfl, nofun⟩, ?_, ?_⟩
  · intro pid image h
    cases h
  · intro index subr h
    cases h

/-- The steps that make no calls and copy no memory. -/
theorem congr (h : Known isLexical loader tr s) (hloader : LoaderAt isLexical loader s')
    (himages : s'.images = s.images) (hes : ∀ index subr, .call index subr ∉ es) :
    Known isLexical loader (tr ++ es) s' := by
  refine ⟨hloader, ?_, ?_⟩
  · intro pid image himage
    have hold := h.images pid image (himages ▸ himage)
    exact ⟨hold.1, hold.2.append es⟩
  · intro index subr hmem
    rcases List.mem_append.1 hmem with hmem | hmem
    · exact ⟨(h.calls index subr hmem).1, (h.calls index subr hmem).2.append es⟩
    · exact absurd hmem (hes index subr)

/-- A step of the program outside of the loader. -/
theorem loaderAt_of_passes {main : Main.State} {images : Pid → Option (Image Value)}
    (h : LoaderAt isLexical loader s) (hpass : Passes s.main main) :
    LoaderAt isLexical loader { s with main, images } := by
  unfold LoaderAt at h ⊢
  cases hmain : s.main with
  | startup st =>
    rw [hmain] at h hpass
    obtain ⟨past, hpast, hnames, hrun, hleft⟩ := h
    cases main with
    | startup st' =>
      refine ⟨past, hpast, hpass.1.trans hnames, ?_, ?_⟩
      · exact fun hpc => hrun fun hlock => hpc (hpass.2.2 hlock)
      · exact fun hpc => hleft (hpass.2.1 hpc)
    | running r =>
      obtain ⟨hrest, hleft⟩ := hleft hpass.1
      rw [hrest, List.append_nil] at hpast
      exact ⟨hpass.2.trans (hpast ▸ hnames), hpast ▸ hleft⟩
  | running r =>
    rw [hmain] at h hpass
    cases main with
    | startup => cases hpass
    | running r' => exact ⟨Eq.trans hpass h.1, h.2⟩

/-- A step of the program. -/
theorem extend (h : Known isLexical loader tr s) {a : Main.Action} {es : List Main.Event}
    (hloader : LoaderAt isLexical loader s')
    (himages : s'.images = es.foldl (noteFork s.interpreter) s.images)
    (hfork : ∀ e, .group e ∈ es → s.interpreter = left isLexical loader) :
    Known isLexical loader (tr ++ (call s a ++ es.map .main)) s' := by
  refine ⟨hloader, ?_, ?_⟩
  · intro pid image himage
    rw [himages] at himage
    rcases images_foldl himage with hold | ⟨hi, q, hq⟩
    · exact ⟨(h.images pid image hold).1, (h.images pid image hold).2.append _⟩
    · refine ⟨hi.trans (hfork _ hq), q, List.mem_append_right _ (List.mem_append_right _ ?_)⟩
      exact List.mem_map_of_mem hq
  · intro index subr hmem
    rcases List.mem_append.1 hmem with hmem | hmem
    · exact ⟨(h.calls index subr hmem).1, (h.calls index subr hmem).2.append _⟩
    · rcases List.mem_append.1 hmem with hmem | hmem
      · obtain ⟨pid, image, himage, heq⟩ := eq_of_mem_call hmem
        obtain ⟨rfl, rfl⟩ := Event.call.inj heq
        obtain ⟨hi, hforked⟩ := h.images pid image himage
        exact ⟨by rw [hi], hforked.append _⟩
      · obtain ⟨e, -, he⟩ := List.mem_map.1 hmem
        cases he

/-- A statement of the loader. -/
theorem loaderAt_statement {st st' : Startup} {statement : Statement Value}
    {rest : Loader Value} (h : LoaderAt isLexical loader s) (hst : s.main = .startup st)
    (hpc : st.pc ≠ .lockAllocations) (hrest : s.rest = statement :: rest)
    (hnames : st'.auxiliaryNames = st.auxiliaryNames ++ names [statement])
    (hpc' : st'.pc ≠ .lockAllocations) :
    LoaderAt isLexical loader
      { s with main := .startup st', rest, interpreter := s.interpreter.run [statement] } := by
  unfold LoaderAt at h
  rw [hst] at h
  obtain ⟨past, hpast, hpastnames, hrun, -⟩ := h
  refine ⟨past ++ [statement], ?_, ?_, fun _ => ?_, fun hlock => absurd hlock hpc'⟩
  · rw [hpast, hrest, List.append_assoc]
    rfl
  · rw [hnames, hpastnames, names, names, names, List.filterMap_append]
  · change s.interpreter.run [statement] = _
    rw [hrun hpc, Interpreter.run, Interpreter.run, Interpreter.run, List.foldl_append]

theorem step (h : Known isLexical loader tr s) (hs : Step cl isLexical s s' es) :
    Known isLexical loader (tr ++ es) s' := by
  have hloader := h.loaderAt
  unfold LoaderAt at hloader
  cases hs with
  | @assign x v rest hrest hin =>
    refine h.congr ?_ rfl (by simp)
    cases hmain : s.main with
    | running => simp [hmain, inLoader] at hin
    | startup st =>
      have hpc : st.pc ≠ .lockAllocations := by
        intro hlock
        simp [hmain, inLoader, hlock] at hin
      exact loaderAt_statement h.loaderAt hmain hpc hrest (List.append_nil _).symm hpc
  | @request name subr rest main es hrest hmain =>
    obtain ⟨st, hst, hpc, rfl, rfl⟩ := request_cases hmain
    have hpc' : st.pc ≠ .lockAllocations := by simp [hpc]
    exact h.congr (loaderAt_statement h.loaderAt hst hpc' hrest rfl hpc') rfl (by simp)
  | @returns a main es hret hrest hmain =>
    obtain ⟨st, hst, hpc, rfl, rfl⟩ := returns_cases hret hmain
    refine h.extend ?_ rfl (by simp)
    rw [hst] at hloader
    obtain ⟨past, hpast, hnames, hrun, -⟩ := hloader
    refine ⟨past, hpast, hnames, fun hlock => absurd rfl hlock, fun _ => ⟨hrest, ?_⟩⟩
    change s.interpreter.leave isLexical = _
    rw [hrun (by simp [hpc])]
    rfl
  | main ha hret hmain =>
    refine h.extend (loaderAt_of_passes h.loaderAt (passes ha hret hmain)) rfl ?_
    intro e he
    obtain ⟨r, hr⟩ := running_of_mem hmain he
    rw [hr] at hloader
    exact hloader.2

end Known

theorem known_of_reach [Inhabited Value] (h : Reach cl isLexical loader tr s) :
    Known isLexical loader tr s := by
  refine h.invariant (Known isLexical loader) (.init isLexical loader) ?_
  intro tr s a s' es _ ih _ hs
  exact ih.step (step_cases hs)

end BladePSGI.Main.Callbacks

import BladePSGI.Perl.FastCGIWrapper

/-!
# The environment of a request

For every request the wrapper makes a new hash: the variables that the client has sent, over them
what is in the hash that the application loader has returned, and over that what PSGI prescribes.
The application gets a reference to it and may assign to it, to the environments of earlier requests
if it has kept them, and to the loader's hash.

* `reach_wrapper`: seen without the hashes, the runs are those of the worker.
* `urlScheme_eq_https_iff`: when a request is taken for one over TLS.
* `environments`: what is in the environment of a request; nothing that was assigned to the
  environment of an earlier request ever is.
* `loaderHash_eq_of_noLoader`: without a loader it depends on nothing but the request.
-/

namespace BladePSGI.Perl.Environment

open Function Text Transition FastCGIWrapper

/-! ## The hash -/

/-- A key of a hash. -/
abbrev Key := List Byte

/-- The key with these letters. -/
def key (letters : List Char) : Key := letters.map byte

/-- What the wrapper puts into an environment. -/
inductive Value
  | scalar (s : Scalar)
  /-- `[1,1]`, a new array for each request. -/
  | version
  /-- `$stdin` -/
  | input
  /-- `\*STDERR` -/
  | errors
  /-- `Plack::Util::TRUE` -/
  | plackTrue
  /-- `Plack::Util::FALSE` -/
  | plackFalse
  deriving DecidableEq

abbrev Hash := Key → Option Value

/-- The variables of a request, as `FCGI` leaves them in `%env`. -/
abbrev Params := Key → Option (List Byte)

/-- `(%a, %b)`: the later one wins. -/
def merge (a b : Hash) : Hash := fun k => (b k).or (a k)

def httpsKey : Key := key ['H', 'T', 'T', 'P', 'S']

def schemeKey : Key := key
  ['p', 's', 'g', 'i', '.', 'u', 'r', 'l', '_', 's', 'c', 'h', 'e', 'm', 'e']

def http : List Byte := ['h', 't', 't', 'p'].map byte

def https : List Byte := ['h', 't', 't', 'p', 's'].map byte

/-- A letter in lower case. -/
def lower (b : Byte) : Byte := if 65 ≤ b.toNat ∧ b.toNat ≤ 90 then b + 32 else b

/-- `$v =~ /^(?:on|1)$/i`. A newline may follow. -/
def matchesOn (v : List Byte) : Bool :=
  let v := if v.getLast? = some (byte '\n') then v.dropLast else v
  v.map lower = ['o', 'n'].map byte ∨ v = [byte '1']

/-- `$v||'off'`: the empty string and `0` are false. -/
def orOff (v : Option (List Byte)) : List Byte :=
  let off := ['o', 'f', 'f'].map byte
  match v with
  | none => off
  | some v => if v = [] ∨ v = [byte '0'] then off else v

/-- `($env{HTTPS}||'off') =~ /^(?:on|1)$/i ? 'https' : 'http'`. -/
def urlScheme (params : Params) : List Byte :=
  if matchesOn (orOff (params httpsKey)) then https else http

/-- What PSGI prescribes. -/
def psgiKeys (params : Params) : List (Key × Value) :=
  [(key ['p', 's', 'g', 'i', '.', 'v', 'e', 'r', 's', 'i', 'o', 'n'], .version),
    (schemeKey, .scalar (.string (urlScheme params))),
    (key ['p', 's', 'g', 'i', '.', 'i', 'n', 'p', 'u', 't'], .input),
    (key ['p', 's', 'g', 'i', '.', 'e', 'r', 'r', 'o', 'r', 's'], .errors),
    (key ['p', 's', 'g', 'i', '.', 'm', 'u', 'l', 't', 'i', 't', 'h', 'r', 'e', 'a', 'd'],
      .plackFalse),
    (key ['p', 's', 'g', 'i', '.', 'm', 'u', 'l', 't', 'i', 'p', 'r', 'o', 'c', 'e', 's', 's'],
      .plackTrue),
    (key ['p', 's', 'g', 'i', '.', 'r', 'u', 'n', '_', 'o', 'n', 'c', 'e'], .plackFalse),
    (key ['p', 's', 'g', 'i', '.', 's', 't', 'r', 'e', 'a', 'm', 'i', 'n', 'g'], .plackTrue),
    (key ['p', 's', 'g', 'i', '.', 'n', 'o', 'n', 'b', 'l', 'o', 'c', 'k', 'i', 'n', 'g'],
      .plackFalse),
    (key ['p', 's', 'g', 'i', 'x', '.', 'h', 'a', 'r', 'a', 'k', 'i', 'r', 'i'], .plackFalse)]

/-- The hash of a request, with the loader's one as it is then. -/
def environment (psgiEnv : Hash) (params : Params) : Hash :=
  merge (merge (fun k => (params k).map fun v => .scalar (.string v)) psgiEnv)
    fun k => (psgiKeys params).lookup k

/-! ## The worker -/

/-- `$psgi_env`. -/
def psgiEnv : Ref := 0

structure State where
  worker : FastCGIWrapper.State
  hashes : Ref → Hash
  /-- The address of the next hash. -/
  next : Ref

inductive Action
  /-- `Accept` has returned a request. -/
  | accept (params : Params)
  /-- The application assigns to an element of a hash, or deletes it. -/
  | assign (r : Ref) (k : Key) (v : Option Value)
  | worker (a : FastCGIWrapper.Action)

inductive Event
  /-- The application has been called with this environment. -/
  | started (env : Ref) (params : Params) (contents : Hash)
  | assigned (r : Ref) (k : Key) (v : Option Value)
  | worker (e : FastCGIWrapper.Event)

/-- Code of the application runs. -/
def inApplication : Pc → Bool
  | .running | .streaming | .body _ => true
  | _ => false

/-- `Accept` returns a request. -/
def acceptsRequest : FastCGIWrapper.Action → Bool
  | .accept ok => ok
  | _ => false

/-- The steps of a worker with an application loader or without one, in which case nobody but the
wrapper has a reference to `$psgi_env`. -/
def step (lib : Library) (hasLoader : Bool) (s : State) : Action → Option (State × List Event)
  | .accept params =>
    if s.worker.pc = .idle then
      let contents := environment (s.hashes psgiEnv) params
      some ({ worker := { s.worker with pc := .running }
              hashes := update s.hashes s.next contents
              next := s.next + 1 }, [.started s.next params contents])
    else none
  | .assign r k v =>
    if r < s.next ∧ (hasLoader ∨ r ≠ psgiEnv) ∧ inApplication s.worker.pc then
      some ({ s with hashes := update s.hashes r (update (s.hashes r) k v) }, [.assigned r k v])
    else none
  | .worker a =>
    if acceptsRequest a then none
    else (FastCGIWrapper.step lib s.worker a).map fun r =>
      ({ s with worker := r.1 }, r.2.map .worker)

def machine (lib : Library) (hasLoader : Bool) : Machine State Action Event :=
  ⟨step lib hasLoader⟩

/-- The worker before its first request, with the arrays and the `n + 1` hashes that the loader has
left. -/
def start (heap : Heap) (hashes : Ref → Hash) (n : ℕ) : State := ⟨⟨heap, .idle⟩, hashes, n + 1⟩

/-- What the events mean for the machine without hashes. -/
def Event.wrapper : Event → Option FastCGIWrapper.Event
  | .started .. => some .accepted
  | .assigned .. => none
  | .worker e => some e

/-- The loader's hash after the assignments of a trace. -/
def loaderHash (hash : Hash) (tr : List Event) : Hash :=
  tr.foldl (fun hash e =>
    match e with
    | .assigned r k v => if r = psgiEnv then update hash k v else hash
    | _ => hash) hash

/-! ## What a step can do -/

variable {lib : Library} {hasLoader : Bool} {s s' : State} {a : Action} {tr es : List Event}
  {heap : Heap} {hashes : Ref → Hash} {n : ℕ} {hash : Hash}

inductive Step (lib : Library) (hasLoader : Bool) (s : State) : State → List Event → Prop
  | accept {params} (hpc : s.worker.pc = .idle) :
      Step lib hasLoader s
        { worker := { s.worker with pc := .running }
          hashes := update s.hashes s.next (environment (s.hashes psgiEnv) params)
          next := s.next + 1 }
        [.started s.next params (environment (s.hashes psgiEnv) params)]
  | assign {r k v} (hr : r < s.next) (hloader : hasLoader = true ∨ r ≠ psgiEnv) :
      Step lib hasLoader s { s with hashes := update s.hashes r (update (s.hashes r) k v) }
        [.assigned r k v]
  | worker {b worker es} (h : FastCGIWrapper.step lib s.worker b = some (worker, es)) :
      Step lib hasLoader s { s with worker } (es.map .worker)

theorem step_cases (h : step lib hasLoader s a = some (s', es)) : Step lib hasLoader s s' es := by
  cases a with
  | accept params =>
    simp only [step] at h
    split_ifs at h with hpc
    obtain ⟨rfl, rfl⟩ := Prod.mk.inj (Option.some.inj h)
    exact .accept hpc
  | assign r k v =>
    simp only [step] at h
    split_ifs at h with hassign
    obtain ⟨rfl, rfl⟩ := Prod.mk.inj (Option.some.inj h)
    exact .assign hassign.1 hassign.2.1
  | worker b =>
    simp only [step] at h
    split_ifs at h
    obtain ⟨r, hworker, heq⟩ := Option.map_eq_some_iff.1 h
    obtain ⟨rfl, rfl⟩ := Prod.mk.inj heq
    exact .worker hworker

/-- **Seen without the hashes, the runs are those of the worker.** -/
theorem reach_wrapper (h : (machine lib hasLoader).Reach (start heap hashes n) tr s) :
    FastCGIWrapper.Reach lib heap (tr.filterMap Event.wrapper) s.worker := by
  refine h.project State.worker Event.wrapper ?_
  intro s a s' es hs
  cases step_cases hs with
  | @accept params hpc =>
    refine .inr ⟨.accept true, ?_⟩
    show FastCGIWrapper.step lib s.worker (.accept true) = _
    simp [FastCGIWrapper.step, hpc, Event.wrapper]
  | assign => exact .inl ⟨rfl, rfl⟩
  | @worker b worker es h =>
    refine .inr ⟨b, ?_⟩
    have hes : (es.map Event.worker).filterMap Event.wrapper = es := by
      rw [List.filterMap_map]
      exact List.filterMap_some
    rw [hes]
    exact h

/-! ## The scheme -/

/-- The texts that turn TLS on. -/
def IsOn (v : List Byte) : Prop := v.map lower = ['o', 'n'].map byte ∨ v = [byte '1']

theorem matchesOn_iff (v : List Byte) :
    matchesOn v = true ↔ IsOn v ∨ ∃ w, v = w ++ [byte '\n'] ∧ IsOn w := by
  have hnewline : ∀ w : List Byte, ¬ IsOn (w ++ [byte '\n']) := by
    rintro w (h | h)
    · have hmem : byte '\n' ∈ (w ++ [byte '\n']).map lower :=
        List.mem_map.2 ⟨byte '\n', by simp, by decide⟩
      rw [h] at hmem
      exact absurd hmem (by decide)
    · have hmem : byte '\n' ∈ w ++ [byte '\n'] := by simp
      rw [h] at hmem
      exact absurd hmem (by decide)
  unfold matchesOn
  split_ifs with hlast
  · obtain ⟨w, rfl⟩ := List.getLast?_eq_some_iff.1 hlast
    rw [List.dropLast_concat, decide_eq_true_iff]
    constructor
    · exact fun h => .inr ⟨w, rfl, h⟩
    · rintro (h | ⟨w', heq, h⟩)
      · exact absurd h (hnewline w)
      · rwa [(List.append_inj' heq rfl).1]
  · rw [decide_eq_true_iff]
    constructor
    · exact .inl
    · rintro (h | ⟨w, rfl, -⟩)
      · exact h
      · exact absurd (by simp) hlast

theorem urlScheme_eq_https_iff (params : Params) : urlScheme params = https ↔
    ∃ v, params httpsKey = some v ∧ (IsOn v ∨ ∃ w, v = w ++ [byte '\n'] ∧ IsOn w) := by
  have hoff : matchesOn (orOff none) = false := by decide
  unfold urlScheme
  cases hv : params httpsKey with
  | none =>
    rw [if_neg (by rw [hoff]; simp)]
    exact ⟨fun h => absurd h (by decide), by simp⟩
  | some v =>
    have hon : matchesOn (orOff (some v)) = matchesOn v := by
      unfold orOff
      dsimp only
      split_ifs with hfalse
      · rcases hfalse with rfl | rfl <;> decide
      · rfl
    simp only [Option.some.injEq, exists_eq_left']
    rw [hon, ← matchesOn_iff]
    split_ifs with h
    · exact ⟨fun _ => h, fun _ => rfl⟩
    · exact ⟨fun heq => absurd heq (by decide), fun hv => absurd hv h⟩

/-! ## What is in an environment -/

/-- The scheme is not left to the loader. -/
theorem environment_scheme (hash : Hash) (params : Params) :
    environment hash params schemeKey = some (.scalar (.string (urlScheme params))) := rfl

theorem loaderHash_append (hash : Hash) (tr es : List Event) :
    loaderHash hash (tr ++ es) = loaderHash (loaderHash hash tr) es := List.foldl_append

/-- The loader's hash is what the trace says, and every environment has an address of its own. -/
structure Known (hash : Hash) (tr : List Event) (s : State) : Prop where
  loader : s.hashes psgiEnv = loaderHash hash tr
  next_pos : 0 < s.next
  started : ∀ env params contents, .started env params contents ∈ tr → env < s.next

theorem loaderHash_worker (hash : Hash) (es : List FastCGIWrapper.Event) :
    loaderHash hash (es.map .worker) = hash := by
  induction es with
  | nil => rfl
  | cons e es ih => exact ih

theorem Known.step (h : Known hash tr s) (hs : Step lib hasLoader s s' es) :
    Known hash (tr ++ es) s' := by
  obtain ⟨hloader, hpos, hstarted⟩ := h
  cases hs with
  | accept =>
    refine ⟨?_, Nat.succ_pos _, ?_⟩
    · rw [loaderHash_append, ← hloader]
      exact update_of_ne (Nat.ne_of_lt hpos) ..
    · intro env params contents hmem
      rcases List.mem_append.1 hmem with hmem | hmem
      · exact Nat.lt_succ_of_lt (hstarted env params contents hmem)
      · rw [List.mem_singleton, Event.started.injEq] at hmem
        rw [hmem.1]
        exact Nat.lt_succ_self _
  | @assign r k v =>
    refine ⟨?_, hpos, fun env params contents hmem => hstarted env params contents ?_⟩
    · rw [loaderHash_append, ← hloader]
      by_cases hr : r = psgiEnv
      · subst hr
        simp [loaderHash]
      · simp [loaderHash, hr, update_of_ne (Ne.symm hr)]
    · simpa using hmem
  | worker =>
    refine ⟨?_, hpos, fun env params contents hmem => hstarted env params contents ?_⟩
    · rw [loaderHash_append, loaderHash_worker, ← hloader]
    · simpa using hmem

theorem known_of_reach (h : (machine lib hasLoader).Reach (start heap hashes n) tr s) :
    Known (hashes psgiEnv) tr s := by
  refine h.invariant (Known (hashes psgiEnv)) ⟨rfl, Nat.succ_pos n, by simp⟩ ?_
  rintro tr s a s' es - hknown - hs
  exact hknown.step (step_cases hs)

/-- Without a loader `$psgi_env` stays as it is. -/
theorem loaderHash_eq_of_noLoader
    (h : (machine lib false).Reach (start heap hashes n) tr s) :
    loaderHash (hashes psgiEnv) tr = hashes psgiEnv := by
  rw [← (known_of_reach h).loader]
  refine h.invariant (fun _ (s : State) => s.hashes psgiEnv = hashes psgiEnv) rfl ?_
  rintro tr s a s' es hrun ih - hs
  cases step_cases hs with
  | accept => exact (update_of_ne (Nat.ne_of_lt (known_of_reach hrun).next_pos) ..).trans ih
  | assign hr hloader => exact (update_of_ne (hloader.resolve_left (by simp)).symm ..).trans ih
  | worker => exact ih

/-- What the application finds when it is called: the variables of this request, the loader's hash
as it is now, and a scheme that depends on this request only, in a hash that no request has had
before. -/
structure Fresh (hash : Hash) (past : List Event) (env : Ref) (params : Params) (contents : Hash) :
    Prop where
  contents_eq : contents = environment (loaderHash hash past) params
  scheme : contents schemeKey = some (.scalar (.string https)) ↔
    ∃ v, params httpsKey = some v ∧ (IsOn v ∨ ∃ w, v = w ++ [byte '\n'] ∧ IsOn w)
  env_ne : env ≠ psgiEnv ∧ ∀ params' contents', .started env params' contents' ∉ past

theorem length_step (hs : Step lib hasLoader s s' es) : es.length ≤ 1 := by
  cases hs with
  | accept | assign => exact Nat.le_refl 1
  | worker h =>
    rw [List.length_map]
    exact (FastCGIWrapper.step_effect h).length_le

/-- **The environment of a request.** -/
theorem environments (h : (machine lib hasLoader).Reach (start heap hashes n) tr s) :
    Each (fun past e => ∀ env params contents, e = .started env params contents →
      Fresh (hashes psgiEnv) past env params contents) tr := by
  refine h.each _ (fun s a s' es hs => length_step (step_cases hs)) ?_
  rintro past s a s' _ hrun hs env params contents rfl
  have hknown := known_of_reach hrun
  generalize hes : [Event.started env params contents] = es at hs
  cases step_cases hs with
  | accept =>
    obtain ⟨rfl, rfl, rfl⟩ := Event.started.inj (List.head_eq_of_cons_eq hes)
    refine ⟨by rw [hknown.loader], ?_, Nat.ne_of_gt hknown.next_pos, ?_⟩
    · rw [environment_scheme, ← urlScheme_eq_https_iff]
      simp
    · intro params' contents' hmem
      exact Nat.lt_irrefl _ (hknown.started _ _ _ hmem)
  | assign => cases hes
  | @worker b worker es h =>
    have hmem : Event.started env params contents ∈ es.map Event.worker := by
      rw [← hes]
      exact List.mem_cons_self
    simp at hmem

/-- A request over TLS. -/
def tlsParams : Params := fun k => if k = httpsKey then some [byte 'O', byte 'n'] else none

/-- Two requests; the application sets the variable `A` in its first environment, and then the one
in the loader's hash. -/
def twoRequests : List Action :=
  [.accept fun _ => none, .assign 1 (key ['A']) (some .plackTrue),
    .assign 0 (key ['A']) (some .plackFalse), .worker (.returns (.code 0)), .worker .streamed,
    .worker .finish, .accept tlsParams]

theorem isSome_exec_twoRequests :
    ((machine plain true).exec (start (fun _ => []) (fun _ _ => none) 0) twoRequests).isSome := by
  decide

/-- What the application finds in the second one. -/
def secondContents : Hash :=
  environment (update (fun _ => none) (key ['A']) (some .plackFalse)) tlsParams

/-- The events before it. -/
def firstRequest : List Event :=
  [.started 1 (fun _ => none) (environment (fun _ => none) fun _ => none),
    .assigned 1 (key ['A']) (some .plackTrue), .assigned 0 (key ['A']) (some .plackFalse),
    .worker .finished]

theorem environments_twoRequests :
    Fresh (fun _ => none) firstRequest 2 tlsParams secondContents ∧
      secondContents (key ['A']) = some .plackFalse := by
  have htr : (Option.get _ isSome_exec_twoRequests).2 =
      firstRequest ++ .started 2 tlsParams secondContents :: [] := rfl
  have hrun := Machine.reach_exec isSome_exec_twoRequests
  exact ⟨environments hrun firstRequest _ [] htr 2 tlsParams secondContents rfl, by decide⟩

end BladePSGI.Perl.Environment

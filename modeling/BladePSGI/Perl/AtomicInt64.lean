import BladePSGI.Foundations.Transition
import BladePSGI.Shmem.SharedMemory
import Mathlib.Data.BitVec
import Mathlib.Tactic.Abel

/-!
# The atomic integers of Perl

A `BPSGI::AtomicInt64` passes through three layers: the XS methods, whose parameters have the
types of their C signatures, the callbacks of the interpreter bridge, and `std::atomic<int64_t>` in
the shared segment. Every method is one atomic access, so a history of calls in any number of
processes is a list of calls.

* `load64_eq`: the cell holds the value of the reference counter less the drift, which is what the
  `int` parameters have cut off since the last `store`.
* `answers_iff_lossless`: a history is answered like a 64-bit counter's exactly when the drift is
  zero at every call that returns the value.
* `lossless_of_fits`: it is when all the arguments are in the range of an `int`.
-/

namespace BladePSGI.Perl

open Transition Shmem

/-- A Perl integer. -/
abbrev IV := BitVec 64

/-- A C `int`. -/
abbrev CInt := BitVec 32

/-- The typemap of an `int` parameter, `(int) SvIV(arg)`. -/
def toInt (arg : IV) : CInt := arg.setWidth 32

/-- An `int` where an `int64_t` is expected. -/
def ofInt (n : CInt) : BitVec 64 := n.signExtend 64

/-- What is left of a Perl integer that is passed as an `int`. -/
abbrev narrow (arg : IV) : IV := ofInt (toInt arg)

/-- The narrowing loses nothing exactly in the range of an `int`. -/
theorem narrow_eq_iff (arg : IV) : narrow arg = arg ↔ -2 ^ 31 ≤ arg.toInt ∧ arg.toInt < 2 ^ 31 := by
  have hnarrow : (narrow arg).toInt = Int.bmod arg.toNat (2 ^ 32) := by
    rw [narrow, ofInt, toInt, BitVec.toInt_signExtend_of_le (by decide), BitVec.toInt_setWidth]
  have hbound := arg.isLt
  rw [← BitVec.toInt_inj, hnarrow, BitVec.toInt_eq_toNat_bmod, Int.bmod_def, Int.bmod_def]
  split_ifs <;> omega

/-! ## The bridge -/

/-- The name that arrives through a `char *`. -/
def cString (name : Name) : Name := name.takeWhile (· ≠ 0)

/-- `bladepsgi_perl_interpreter_cb_new_atomic_int64`: the text of the `std::string` it catches, or
`none` for an exception that goes through. -/
def cbNewAtomicInt64 (shmem : SharedMemory) (segment : Memory 64) (name : Name) (value : CInt) :
    SharedMemory × Memory 64 × Except (Option Name) Offset :=
  let (shmem', segment', result) := newAtomicInt64 shmem segment name (ofInt value)
  (shmem', segment', result.mapError Error.text)

/-- `bladepsgi_perl_interpreter_cb_atomic_int64_fetch_add`. -/
def cbAtomicInt64FetchAdd (segment : Memory 64) (atm : Offset) (value : BitVec 64) :
    Memory 64 × BitVec 64 :=
  let before := segment.load64 atm
  (segment.store64 atm (before + value), before)

/-- `bladepsgi_perl_interpreter_cb_atomic_int64_load`. -/
def cbAtomicInt64Load (segment : Memory 64) (atm : Offset) : BitVec 64 := segment.load64 atm

/-- `bladepsgi_perl_interpreter_cb_atomic_int64_store`. -/
def cbAtomicInt64Store (segment : Memory 64) (atm : Offset) (value : BitVec 64) : Memory 64 :=
  segment.store64 atm value

/-! ## The XS methods -/

/-- `bladepsgi_context_new_atomic_int64`, with the message it croaks with. -/
def contextNewAtomicInt64 (shmem : SharedMemory) (segment : Memory 64) (name : Name) (value : IV) :
    SharedMemory × Memory 64 × Except (Option Name) Offset :=
  let (shmem', segment', result) := cbNewAtomicInt64 shmem segment (cString name) (toInt value)
  (shmem', segment', result.mapError fun error => error.map fun text =>
    literal "could not create a new 64-bit atomic integer " ++ cString name ++
      literal ": " ++ text ++
      literal "\n")

/-- A call of a method. -/
inductive Method
  | incr
  | fetchAdd (val : IV)
  | load
  | store (val : IV)
  deriving DecidableEq

/-- `bladepsgi_atomic_int64_incr`, `_fetch_add`, `_load` and `_store`, with the value returned. -/
def Method.call (segment : Memory 64) (atm : Offset) : Method → Memory 64 × Option IV
  | .incr => ((cbAtomicInt64FetchAdd segment atm 1).1, none)
  | .fetchAdd val =>
    let (segment', before) := cbAtomicInt64FetchAdd segment atm (ofInt (toInt val))
    (segment', some before)
  | .load => (segment, some (cbAtomicInt64Load segment atm))
  | .store val => (cbAtomicInt64Store segment atm (ofInt (toInt val)), none)

/-- A call of a process that has returned. -/
structure Called where
  process : ℕ
  method : Method
  value : Option IV
  deriving DecidableEq

/-- The calls of all the processes on the atomic at `atm`. -/
def machine (atm : Offset) : Machine (Memory 64) (ℕ × Method) Called where
  step segment call :=
    let (segment', value) := call.2.call segment atm
    some (segment', [⟨call.1, call.2, value⟩])

/-! ## The reference counter -/

/-- The README's description, on integers modulo `2 ^ 64`. -/
def Method.reference (counter : IV) : Method → IV × Option IV
  | .incr => (counter + 1, none)
  | .fetchAdd val => (counter + val, some counter)
  | .load => (counter, some counter)
  | .store val => (val, none)

/-- The reference counter after a history. -/
def counter (v₀ : IV) (history : List Called) : IV :=
  history.foldl (fun c e => (e.method.reference c).1) v₀

/-- The call is answered like the reference counter's. -/
def Answers (v₀ : IV) (past : List Called) (e : Called) : Prop :=
  e.value = (e.method.reference (counter v₀ past)).2

instance (v₀ : IV) (past : List Called) (e : Called) : Decidable (Answers v₀ past e) :=
  inferInstanceAs (Decidable (_ = _))

/-! ## What the narrowing loses -/

/-- What the narrowing cuts off. -/
def lost (arg : IV) : IV := arg - narrow arg

/-- What a call adds to the drift. -/
def Method.drift (d : IV) : Method → IV
  | .incr | .load => d
  | .fetchAdd val => d + lost val
  | .store val => lost val

/-- All that was cut off since the last `store`, or since the creation. -/
def drift (v₀ : IV) (history : List Called) : IV :=
  history.foldl (fun d e => e.method.drift d) (lost v₀)

/-- The call returns the value of the atomic. -/
def Method.Reads : Method → Prop
  | .incr | .store _ => False
  | .fetchAdd _ | .load => True

/-- No difference has built up by the time of a call that would show it. -/
def Lossless (v₀ : IV) (past : List Called) (e : Called) : Prop :=
  e.method.Reads → drift v₀ past = 0

/-- A creation that fails croaks with a message and registers no atomic. -/
theorem contextNewAtomicInt64_error {shmem shmem' : SharedMemory} {segment segment' : Memory 64}
    {name : Name} {value : IV} {error : Option Name}
    (h : contextNewAtomicInt64 shmem segment name value = (shmem', segment', .error error)) :
    error.isSome ∧ shmem'.atomics = shmem.atomics ∧ segment' = segment := by
  simp only [contextNewAtomicInt64, cbNewAtomicInt64, newAtomicInt64] at h
  split at h
  case isTrue =>
    simp only [Except.mapError, Error.text, Prod.mk.injEq, Except.error.injEq] at h
    obtain ⟨rfl, rfl, rfl⟩ := h
    exact ⟨rfl, rfl, rfl⟩
  case isFalse =>
    rcases allocateUserShmem_cases shmem sizeofInt64 with
        ⟨-, halloc⟩ | ⟨-, -, halloc⟩ | ⟨-, -, halloc⟩
    all_goals simp only [halloc, Except.mapError, Error.text, Prod.mk.injEq, Except.error.injEq,
      reduceCtorEq, and_false] at h
    all_goals
      obtain ⟨rfl, rfl, rfl⟩ := h
      exact ⟨rfl, rfl, rfl⟩

/-! ## The history of an atomic -/

section History

variable {v₀ : IV} {history : List Called} {e : Called} {shmem shmem' : SharedMemory}
  {segment segment' mapping : Memory 64} {atm : Offset} {name : Name}

theorem counter_concat :
    counter v₀ (history ++ [e]) = (e.method.reference (counter v₀ history)).1 :=
  List.foldl_concat ..

theorem drift_concat : drift v₀ (history ++ [e]) = e.method.drift (drift v₀ history) :=
  List.foldl_concat ..

/-- A new atomic holds what is left of its initial value. -/
theorem load64_contextNewAtomicInt64
    (h : contextNewAtomicInt64 shmem mapping name v₀ = (shmem', segment, .ok atm)) :
    segment.load64 atm = narrow v₀ := by
  simp only [contextNewAtomicInt64, cbNewAtomicInt64, newAtomicInt64] at h
  split at h
  case isTrue => simp [Except.mapError] at h
  case isFalse =>
    rcases allocateUserShmem_cases shmem sizeofInt64 with
        ⟨-, halloc⟩ | ⟨-, -, halloc⟩ | ⟨-, -, halloc⟩
    · simp [halloc, Except.mapError] at h
    · simp [halloc, Except.mapError] at h
    · simp only [halloc, Except.mapError, Prod.mk.injEq, Except.ok.injEq] at h
      obtain ⟨-, rfl, rfl⟩ := h
      exact Memory.load64_store64 (by decide)

/-- One call keeps the difference. -/
theorem load64_call {c d : IV} (h : segment.load64 atm = c - d) (method : Method) :
    (method.call segment atm).1.load64 atm = (method.reference c).1 - method.drift d := by
  cases method with
  | incr =>
    show (segment.store64 atm (segment.load64 atm + 1)).load64 atm = c + 1 - d
    rw [Memory.load64_store64 (by decide), h]
    abel
  | fetchAdd val =>
    show (segment.store64 atm (segment.load64 atm + narrow val)).load64 atm =
      c + val - (d + lost val)
    rw [Memory.load64_store64 (by decide), h, lost]
    abel
  | load => exact h
  | store val =>
    show (segment.store64 atm (narrow val)).load64 atm = val - lost val
    rw [Memory.load64_store64 (by decide), lost]
    abel

/-- **The cell against the reference counter.** -/
theorem load64_eq (h₀ : segment.load64 atm = narrow v₀)
    (h : (machine atm).Reach segment history segment') :
    segment'.load64 atm = counter v₀ history - drift v₀ history := by
  refine h.invariant (fun history segment => segment.load64 atm =
    counter v₀ history - drift v₀ history) ?_ ?_
  · show segment.load64 atm = v₀ - lost v₀
    rw [h₀, lost]
    abel
  · rintro history segment ⟨process, method⟩ segment' es - ih - hs
    obtain ⟨rfl, rfl⟩ := Prod.mk.inj (Option.some.inj hs)
    rw [counter_concat, drift_concat]
    exact load64_call ih method

/-- A call shows the difference exactly when it returns the value. -/
theorem answers_call_iff {c d : IV} (h : segment.load64 atm = c - d) (method : Method) :
    (method.call segment atm).2 = (method.reference c).2 ↔ (method.Reads → d = 0) := by
  have hsub : c - d = c ↔ d = 0 := by
    rw [sub_eq_self]
  cases method with
  | incr | store val => exact ⟨fun _ => False.elim, fun _ => rfl⟩
  | fetchAdd val | load =>
    show some (segment.load64 atm) = some c ↔ (True → d = 0)
    rw [h, Option.some.injEq, hsub, true_imp_iff]

/-- **The atomic counts in 64 bits exactly where nothing was lost.** -/
theorem answers_iff_lossless
    (hnew : contextNewAtomicInt64 shmem mapping name v₀ = (shmem', segment, .ok atm))
    (h : (machine atm).Reach segment history segment') :
    Each (Answers v₀) history ↔ Each (Lossless v₀) history := by
  have h₀ := load64_contextNewAtomicInt64 hnew
  refine Each.congr (h.each _ ?_ ?_)
  · rintro segment call segment' es hs
    obtain ⟨-, rfl⟩ := Prod.mk.inj (Option.some.inj hs)
    exact Nat.le_refl 1
  · rintro past segment ⟨process, method⟩ segment' e hrun hs
    obtain ⟨-, he⟩ := Prod.mk.inj (Option.some.inj hs)
    obtain rfl := List.head_eq_of_cons_eq he
    exact answers_call_iff (load64_eq h₀ hrun) method

/-- The argument of the call is in the range of an `int`. -/
def Method.Fits : Method → Prop
  | .incr | .load => True
  | .fetchAdd val | .store val => -2 ^ 31 ≤ val.toInt ∧ val.toInt < 2 ^ 31

theorem drift_of_fits (h₀ : -2 ^ 31 ≤ v₀.toInt ∧ v₀.toInt < 2 ^ 31)
    (h : ∀ e ∈ history, e.method.Fits) : drift v₀ history = 0 := by
  have hlost : ∀ arg : IV, -2 ^ 31 ≤ arg.toInt ∧ arg.toInt < 2 ^ 31 → lost arg = 0 := by
    intro arg harg
    rw [lost, (narrow_eq_iff arg).2 harg, sub_self]
  induction history using List.reverseRecOn with
  | nil => exact hlost v₀ h₀
  | append_singleton history e ih =>
    have ih := ih fun e he => h e (List.mem_append_left _ he)
    have he := h e (by simp)
    rw [drift_concat, ih]
    generalize e.method = method at he
    cases method with
    | incr | load => rfl
    | fetchAdd val =>
      show 0 + lost val = 0
      rw [hlost val he, zero_add]
    | store val => exact hlost val he

/-- Small arguments lose nothing. -/
theorem lossless_of_fits (h₀ : -2 ^ 31 ≤ v₀.toInt ∧ v₀.toInt < 2 ^ 31)
    (h : ∀ e ∈ history, e.method.Fits) : Each (Lossless v₀) history := by
  rintro past e later rfl -
  exact drift_of_fits h₀ fun e he => h e (List.mem_append_left _ he)

end History

/-- The runner creates the atomic with `2 ^ 32`, and process `1` loads it. -/
theorem not_answers : ¬ ∀ (shmem shmem' : SharedMemory) (mapping segment segment' : Memory 64)
    (name : Name) (v₀ : IV) (atm : Offset) (history : List Called),
    contextNewAtomicInt64 shmem mapping name v₀ = (shmem', segment, .ok atm) →
    (machine atm).Reach segment history segment' → Each (Answers v₀) history := by
  intro h
  have hload := h .new _ (fun _ => 0) _ _ [97] 4294967296 16 _ rfl
    (.one (a := (1, .load)) rfl) [] _ [] rfl
  exact absurd hload (by decide)

/-- Created with `5`; a `fetch_add` by process `1`, a `load` by process `2`. -/
def fetchAddLoad : List (ℕ × Method) := [(1, .fetchAdd (-3)), (2, .load)]

theorem isSome_exec_fetchAddLoad :
    ((machine 16).exec (contextNewAtomicInt64 .new (fun _ => 0) [97] 5).2.1
      fetchAddLoad).isSome := by
  decide

theorem answers_iff_lossless_fetchAddLoad : ∃ history : List Called,
    history = [⟨1, .fetchAdd (-3), some 5⟩, ⟨2, .load, some 2⟩] ∧
    (Each (Answers 5) history ↔ Each (Lossless 5) history) := by
  have hnew : contextNewAtomicInt64 .new (fun _ => 0) [97] 5 = (_, _, .ok 16) := rfl
  exact ⟨_, by decide, answers_iff_lossless hnew (Machine.reach_exec isSome_exec_fetchAddLoad)⟩

end BladePSGI.Perl

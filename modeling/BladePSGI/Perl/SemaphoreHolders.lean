import BladePSGI.Perl.Semaphore
import Mathlib.Data.Multiset.AddSub

/-!
# Who holds a semaphore

Processes that release a semaphore only while they hold it use it as a lock: no more of them hold it
at once than its initial value says, whatever the order of their calls, however often signals
interrupt them, and even if some of them never come back.

* `holders`: the processes that have acquired the semaphore and not yet released it, each as often
  as it has.
* `Locks`: what such processes can rely on.
* `holders_locks`: they can in every run, for a semaphore created by the loader.
-/

namespace BladePSGI.Perl.Semaphore

open Transition Shmem

/-- Who holds the semaphore after an event. -/
def hold (holders : Multiset ℕ) : Event → Multiset ℕ
  | .acquired process | .tryAcquired process true => process ::ₘ holders
  | .released process => holders.erase process
  | .tryAcquired _ false | .threw .. => holders

/-- Who holds the semaphore after a trace. -/
def holders (tr : List Event) : Multiset ℕ := tr.foldl hold 0

/-- Only who holds the semaphore releases it. -/
def disciplined (tr : List Event) (_ : State) : Action → Bool
  | .release process => decide (process ∈ holders tr)
  | _ => true

variable {sems : Semaphores sizeofSem} {sem : Offset} {s s' : State} {a : Action}
  {es tr : List Event} {count process : ℕ}

@[simp] theorem holders_append_nil (tr : List Event) : holders (tr ++ []) = holders tr := by
  rw [List.append_nil]

@[simp] theorem holders_append_singleton (tr : List Event) (e : Event) :
    holders (tr ++ [e]) = hold (holders tr) e := by
  simp only [holders, List.foldl_append, List.foldl_cons, List.foldl_nil]

/-! ## One step -/

/-- The semaphore counts what is left of `count`, and who is about to release it holds it. -/
structure Kept (sems : Semaphores sizeofSem) (sem : Offset) (count : ℕ) (tr : List Event)
    (s : State) : Prop where
  value_add : sems.valueAt s.segment sem + (holders tr).card = count
  mem_of_post : ∀ process, s.pc process = .semPost → process ∈ holders tr

/-- A process moves, and nothing happens to the semaphore or to those who hold it. -/
theorem Kept.move {pc : Pc} (h : Kept sems sem count tr s)
    (hvalue : sems.valueAt s'.segment sem = sems.valueAt s.segment sem)
    (hpc : s'.pc = Function.update s.pc process pc) (hholders : holders (tr ++ es) = holders tr)
    (hpost : pc = .semPost → process ∈ holders tr) : Kept sems sem count (tr ++ es) s' where
  value_add := by
    rw [hvalue, hholders]
    exact h.value_add
  mem_of_post other hother := by
    rw [hholders]
    rw [hpc] at hother
    by_cases heq : other = process
    · subst heq
      rw [Function.update_self] at hother
      exact hpost hother
    · rw [Function.update_of_ne heq] at hother
      exact h.mem_of_post other hother

/-- A process acquires the semaphore. -/
theorem Kept.take (h : Kept sems sem count tr s)
    (hvalue : sems.valueAt s'.segment sem + 1 = sems.valueAt s.segment sem)
    (hpc : s'.pc = Function.update s.pc process .idle)
    (hholders : holders (tr ++ es) = process ::ₘ holders tr) :
    Kept sems sem count (tr ++ es) s' where
  value_add := by
    have := h.value_add
    rw [hholders, Multiset.card_cons]
    omega
  mem_of_post other hother := by
    rw [hholders]
    rw [hpc] at hother
    by_cases heq : other = process
    · subst heq
      rw [Function.update_self] at hother
      cases hother
    · rw [Function.update_of_ne heq] at hother
      exact Multiset.mem_cons_of_mem (h.mem_of_post other hother)

/-- A process that holds the semaphore releases it; the others that are about to still hold it. -/
theorem Kept.give (h : Kept sems sem count tr s) (hpost : s.pc process = .semPost)
    (hvalue : sems.valueAt s'.segment sem = sems.valueAt s.segment sem + 1)
    (hpc : s'.pc = Function.update s.pc process .idle)
    (hholders : holders (tr ++ es) = (holders tr).erase process) :
    Kept sems sem count (tr ++ es) s' where
  value_add := by
    have hcard := Multiset.card_erase_add_one (h.mem_of_post process hpost)
    have := h.value_add
    rw [hholders]
    omega
  mem_of_post other hother := by
    rw [hholders]
    rw [hpc] at hother
    by_cases heq : other = process
    · subst heq
      rw [Function.update_self] at hother
      cases hother
    · rw [Function.update_of_ne heq] at hother
      exact (Multiset.mem_erase_of_ne heq).2 (h.mem_of_post other hother)

theorem pc_answer {bytes : ℕ → Byte} {pc : Pc} {es₀ : List Event}
    (h : answer s sem process bytes pc es₀ = some (s', es)) :
    s'.pc = Function.update s.pc process pc := by
  obtain ⟨rfl, rfl⟩ := Prod.mk.inj (Option.some.inj h)
  rfl

theorem kept_enter {pc : Pc} (h : Kept sems sem count tr s)
    (hpost : pc = .semPost → process ∈ holders tr)
    (hs : enter s process pc = some (s', es)) : Kept sems sem count (tr ++ es) s' := by
  unfold enter at hs
  split_ifs at hs
  obtain ⟨rfl, rfl⟩ := Prod.mk.inj (Option.some.inj hs)
  exact h.move rfl rfl (holders_append_nil tr) hpost

theorem kept_succeeds {n : ℕ} (h : Kept sems sem count tr s)
    (hs : step sems sem s (.succeeds process n) = some (s', es)) :
    Kept sems sem count (tr ++ es) s' := by
  unfold step at hs
  dsimp only at hs
  split at hs
  · cases hs
  · split_ifs at hs with hpos
    obtain ⟨hvalue, rfl⟩ := valueAt_answer sems hs
    exact h.take (hvalue ▸ sems.value_take hpos) (pc_answer hs) (holders_append_singleton ..)
  · split_ifs at hs with hpos
    obtain ⟨hvalue, rfl⟩ := valueAt_answer sems hs
    exact h.take (hvalue ▸ sems.value_take hpos) (pc_answer hs) (holders_append_singleton ..)
  · rename_i hpost
    split_ifs at hs with hlt
    obtain ⟨hvalue, rfl⟩ := valueAt_answer sems hs
    exact h.give hpost (hvalue.trans (sems.value_post hlt)) (pc_answer hs)
      (holders_append_singleton ..)

/-- Who has failed to release the semaphore still holds it. -/
theorem kept_fails {n : ℕ} {errno : Errno} (h : Kept sems sem count tr s)
    (hs : step sems sem s (.fails process n errno) = some (s', es)) :
    Kept sems sem count (tr ++ es) s' := by
  unfold step at hs
  dsimp only at hs
  split at hs
  case h_1 => cases hs
  all_goals
    obtain ⟨hvalue, rfl⟩ := valueAt_answer sems hs
    refine h.move (hvalue.trans sems.value_refuse) (pc_answer hs) ?_ (by simp)
    simp [hold]

/-- **What a step keeps.** -/
theorem kept_step (h : Kept sems sem count tr s) (hg : disciplined tr s a)
    (hs : step sems sem s a = some (s', es)) : Kept sems sem count (tr ++ es) s' := by
  cases a with
  | acquire process => exact kept_enter h (by simp) hs
  | tryAcquire process => exact kept_enter h (by simp) hs
  | release process => exact kept_enter h (fun _ => of_decide_eq_true hg) hs
  | succeeds process n => exact kept_succeeds h hs
  | fails process n errno => exact kept_fails h hs
  | elsewhere x byte =>
    have hvalue := (counted_step hs).value_add
    unfold step at hs
    dsimp only at hs
    split_ifs at hs
    obtain ⟨rfl, rfl⟩ := Prod.mk.inj (Option.some.inj hs)
    have hpc : s.pc = Function.update s.pc 0 (s.pc 0) := (Function.update_eq_self 0 s.pc).symm
    exact h.move (by simpa [acquisitions, releases] using hvalue) hpc (holders_append_nil tr)
      (h.mem_of_post 0)

/-! ## Every run -/

theorem kept_reach {segment : Memory 64}
    (h : (machine sems sem).Run (fun tr s a => disciplined tr s a) (start segment) tr s) :
    Kept sems sem (sems.valueAt segment sem) tr s := by
  refine h.invariant (Kept sems sem (sems.valueAt segment sem)) ⟨rfl, by simp [start]⟩ ?_
  rintro tr s a s' es - hkept hg hs
  exact kept_step hkept hg hs

/-- What those who use a semaphore as a lock can rely on. -/
structure Locks (sems : Semaphores sizeofSem) (sem : Offset) (count : ℕ) (tr : List Event)
    (s : State) : Prop where
  /-- The semaphore counts those who may still acquire it. -/
  value_add : sems.valueAt s.segment sem + (holders tr).card = count
  /-- A process in `Acquire` goes on exactly when too few hold the semaphore. -/
  acquire : ∀ process n, s.pc process = .semWait →
    ((∃ s', step sems sem s (.succeeds process n) = some (s', [.acquired process])) ↔
      (holders tr).card < count)
  /-- So does one in `TryAcquire` that is to return `true`. -/
  tryAcquire : ∀ process n, s.pc process = .semTrywait →
    ((∃ s', step sems sem s (.succeeds process n) = some (s', [.tryAcquired process true])) ↔
      (holders tr).card < count)
  /-- A process in `Release` holds the semaphore, and there is room for it to be given back. -/
  release : ∀ process n, s.pc process = .semPost → process ∈ holders tr ∧
    ∃ s', step sems sem s (.succeeds process n) = some (s', [.released process])

theorem Kept.locks (h : Kept sems sem count tr s) (hcount : count ≤ semValueMax) :
    Locks sems sem count tr s := by
  have hadd := h.value_add
  have hpos : 0 < sems.valueAt s.segment sem ↔ (holders tr).card < count := by omega
  refine ⟨hadd, fun process n hpc => ?_, fun process n hpc => ?_, fun process n hpc => ?_⟩
  · rw [← hpos]
    simp [step, hpc, answer, Semaphores.valueAt]
  · rw [← hpos]
    simp [step, hpc, answer, Semaphores.valueAt]
  · have hmem := h.mem_of_post process hpc
    have hcard : 0 < (holders tr).card := Multiset.card_pos_iff_exists_mem.2 ⟨process, hmem⟩
    have hlt : sems.value (s.segment.bytesAt sem) < semValueMax := by
      have : sems.value (s.segment.bytesAt sem) = sems.valueAt s.segment sem := rfl
      omega
    refine ⟨hmem, ?_⟩
    simp [step, hpc, answer, hlt]

variable {shmem : SharedMemory} {segment : Memory 64} {name : Name} {v : IV}
  {strerror : ℕ → Name}

/-- The typemap leaves a value in range as it is. -/
theorem toInt_of_inRange (hv : InRange v) :
    (toInt v).toInt = v.toInt ∧ v.toInt = (v.toNat : ℤ) := by
  obtain ⟨hlo, hhi⟩ := hv
  constructor
  · rw [← toInt_ofInt]
    exact congrArg BitVec.toInt ((narrow_eq_iff v).2 ⟨by omega, by omega⟩)
  · rw [BitVec.toInt_eq_toNat_cond] at hlo ⊢
    split_ifs at hlo ⊢ with hsmall
    · rfl
    · have := v.isLt
      omega

/-- **A semaphore is a lock for as many as its initial value says.** -/
theorem holders_locks (hv : InRange v) (hroom : Room shmem name) :
    ∃ sem, (contextNewSemaphore sems strerror shmem segment name v).2.2 = .ok sem ∧
      ∀ tr s, (machine sems sem).Run (fun tr s a => disciplined tr s a)
          (start (contextNewSemaphore sems strerror shmem segment name v).2.1) tr s →
        Locks sems sem v.toNat tr s := by
  obtain ⟨hnarrow, hint⟩ := toInt_of_inRange hv
  obtain ⟨hok, hvalue, hnat, hmax⟩ := contextNewSemaphore_ok (v := v) sems strerror segment hroom
    (by have := hv.1; omega)
  have hcount : (toInt v).toNat = v.toNat := by omega
  rw [hcount] at hvalue hmax
  refine ⟨_, hok, fun tr s hreach => ?_⟩
  have hkept := kept_reach hreach
  rw [hvalue] at hkept
  exact hkept.locks hmax

/-- Two processes use a semaphore as a mutex: while process `0` holds it, process `1` does not get
it, and a signal interrupts its wait. -/
def contended : List Action :=
  [.acquire 0, .acquire 1, .succeeds 0 0, .fails 1 0 .eintr, .tryAcquire 2, .fails 2 0 .eagain,
    .release 0]

/-- The state and the trace after `contended`, for a semaphore that starts at `1`. -/
def afterContended : Option (State × List Event) :=
  (machine plain SharedMemory.new.nextUserAvailableOffset).exec
    (start (contextNewSemaphore plain (fun _ => []) .new (fun _ => 0) [] 1).2.1) contended

theorem isSome_afterContended : afterContended.isSome := by decide

/-- Process `1` has to wait, since process `0` holds the semaphore, which it can give back. -/
theorem holders_locks_contended :
    holders (afterContended.get isSome_afterContended).2 = {0} ∧
      (∀ s', step plain SharedMemory.new.nextUserAvailableOffset
        (afterContended.get isSome_afterContended).1 (.succeeds 1 0) ≠
          some (s', [.acquired 1])) ∧
      ∃ s', step plain SharedMemory.new.nextUserAvailableOffset
        (afterContended.get isSome_afterContended).1 (.succeeds 0 0) =
          some (s', [.released 0]) := by
  have hv : InRange 1 := by
    unfold InRange
    decide
  obtain ⟨sem, hok, hlocks⟩ :=
    @holders_locks plain .new (fun _ => 0) [] 1 (fun _ => []) hv room_new
  rw [(contextNewSemaphore_ok plain _ _ room_new (by decide)).1] at hok
  cases hok
  have h : Locks plain _ 1 (afterContended.get isSome_afterContended).2
      (afterContended.get isSome_afterContended).1 :=
    hlocks _ _ (Machine.Run.exec (g := disciplined) .nil
      (Option.some_get isSome_afterContended).symm (by decide))
  have hholders : holders (afterContended.get isSome_afterContended).2 = {0} := by decide
  refine ⟨hholders, fun s' hs' => ?_, (h.release 0 0 (by decide)).2⟩
  have hcard := (h.acquire 1 0 (by decide)).1 ⟨s', hs'⟩
  rw [hholders] at hcard
  exact absurd hcard (by decide)

end BladePSGI.Perl.Semaphore

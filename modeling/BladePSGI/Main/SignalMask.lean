import BladePSGI.Foundations.Nesting
import Mathlib.Data.List.Induction

/-!
# `BlockSignals` and `UnblockSignals`

A call of `BlockSignals` is to be undone by the call of `UnblockSignals` that belongs to it. The law
is `Nests`: while a call of `BlockSignals` is unmatched all signals are blocked, and its partner
brings back the mask from before.

`signal_mask_stack_` is a stack only by its name: `UnblockSignals` takes the mask at its front, the
oldest one. A discipline that takes the newest one has the law for every well-nested sequence of
calls (`nests_newest`); `unblockSignals` has it exactly for those that never block twice, and
where all signals are blocked anyway.
-/

namespace BladePSGI.Main

open Nesting

/-- The signals that nobody can block: `SIGKILL` and `SIGSTOP`, which the kernel takes out of every
mask, and 32 and 33, which the C library keeps for its threads. Bit `i` stands for the signal
`i + 1`. -/
def unblockable : BitVec 64 := 1#64 <<< 8 ||| 1#64 <<< 18 ||| 1#64 <<< 31 ||| 1#64 <<< 32

/-- The signal mask of a process. -/
@[ext] structure SignalMask where
  blocked : BitVec 64
  blocked_and : blocked &&& unblockable = 0#64
  deriving DecidableEq

/-- What `sigprocmask` makes of a mask it is given: neither the C library nor the kernel passes on
what cannot be blocked. -/
def SignalMask.ofSet (set : BitVec 64) : SignalMask where
  blocked := set &&& ~~~unblockable
  blocked_and := by
    rw [BitVec.and_assoc, BitVec.and_comm (~~~_), BitVec.and_not_self]
    exact BitVec.and_zero

/-- The mask after `sigfillset` and `sigprocmask`: all signals are blocked. -/
def SignalMask.full : SignalMask := .ofSet (BitVec.allOnes 64)

example : SignalMask.full.blocked = 0xfffffffe7ffbfeff#64 := by decide

/-- The signal mask of the process and the masks that have been saved. -/
structure Signals where
  mask : SignalMask
  signalMaskStack : List SignalMask
  deriving DecidableEq

namespace Signals

inductive Failure
  | syscall (syscall : String) (errno : ℕ)
  | logicError (what : String)
  deriving DecidableEq

def init (mask : SignalMask) : Signals := ⟨mask, []⟩

/-- `BlockSignals`. The kernel fails with `errno` only for arguments that are not used here. -/
def blockSignals (s : Signals) (errno : Option ℕ) : Except Failure Signals :=
  match errno with
  | some errno => .error (.syscall "sigprocmask" errno)
  | none => .ok { mask := .full, signalMaskStack := s.signalMaskStack ++ [s.mask] }

/-- `UnblockSignals`. -/
def unblockSignals (s : Signals) : Except Failure Signals :=
  match s.signalMaskStack with
  | [] => .error (.logicError "UnblockSignals called but signal_mask_stack_ is empty")
  | front :: rest => .ok { mask := front, signalMaskStack := rest }

/-- The calls, as brackets. -/
def call (s : Signals) : Bracket → Except Failure Signals
  | .opening => s.blockSignals none
  | .closing => s.unblockSignals

/-- The stack that the name promises: the newest mask is taken back. -/
def callNewest (s : Signals) : Bracket → Except Failure Signals
  | .opening => s.blockSignals none
  | .closing =>
    match s.signalMaskStack.getLast? with
    | none => s.unblockSignals
    | some newest => .ok { mask := newest, signalMaskStack := s.signalMaskStack.dropLast }

/-- **The law.** What a sequence of calls does to the signals, from the mask `mask` on. -/
structure Nests (call : Signals → Bracket → Except Failure Signals) (mask : SignalMask)
    (calls : List Bracket) : Prop where
  /-- While a call of `BlockSignals` is unmatched, all signals are blocked. -/
  blocked : ∀ before, before <+: calls → 0 < depth before →
    ∃ s, before.foldlM call (init mask) = .ok s ∧ s.mask = .full
  /-- `UnblockSignals` brings back the mask from before its `BlockSignals`. -/
  restored : ∀ before inner, before ++ .opening :: (inner ++ [.closing]) <+: calls →
    WellNested inner → ∃ s s', before.foldlM call (init mask) = .ok s ∧
      (before ++ .opening :: (inner ++ [.closing])).foldlM call (init mask) = .ok s' ∧
      s'.mask = s.mask
  /-- Nothing is left at the end. -/
  finished : ∃ s, calls.foldlM call (init mask) = .ok s ∧ s.mask = mask ∧ s.signalMaskStack = []

@[simp] theorem call_opening (s : Signals) :
    s.call .opening = .ok ⟨.full, s.signalMaskStack ++ [s.mask]⟩ := rfl

@[simp] theorem call_closing (mask front : SignalMask) (rest : List SignalMask) :
    (Signals.mk mask (front :: rest)).call .closing = .ok ⟨front, rest⟩ := rfl

@[simp] theorem callNewest_opening (s : Signals) :
    s.callNewest .opening = .ok ⟨.full, s.signalMaskStack ++ [s.mask]⟩ := rfl

@[simp] theorem callNewest_closing (mask newest : SignalMask) (rest : List SignalMask) :
    (Signals.mk mask (rest ++ [newest])).callNewest .closing = .ok ⟨newest, rest⟩ := by
  simp [callNewest]

theorem foldlM_append_ok {f : Signals → Bracket → Except Failure Signals} {s t : Signals}
    {l l' : List Bracket} (h : l.foldlM f s = .ok t) :
    (l ++ l').foldlM f s = l'.foldlM f t := by
  rw [List.foldlM_append, h]
  rfl

theorem foldlM_cons_ok {f : Signals → Bracket → Except Failure Signals} {s t : Signals}
    {b : Bracket} {l : List Bracket} (h : f s b = .ok t) :
    (b :: l).foldlM f s = l.foldlM f t := by
  rw [List.foldlM_cons, h]
  rfl

/-! ## The newest mask -/

variable {calls p : List Bracket} {mask : SignalMask}

/-- A well-nested sequence leaves everything as it was. -/
theorem foldlM_callNewest (h : WellNested calls) (s : Signals) :
    calls.foldlM callNewest s = .ok s := by
  induction h generalizing s with
  | nil => rfl
  | nest _ _ ihinner ihrest =>
    rw [foldlM_cons_ok (callNewest_opening s), foldlM_append_ok (ihinner _),
      foldlM_cons_ok (callNewest_closing _ _ _)]
    exact ihrest s

/-- Between the calls the mask is the full one, unless all brackets have been closed. -/
theorem foldlM_callNewest_prefix (h : WellNested calls) (hp : p <+: calls) (s : Signals) :
    ∃ t, p.foldlM callNewest s = .ok t ∧ t.mask = if 0 < depth p then .full else s.mask := by
  induction h generalizing p s with
  | nil =>
    obtain rfl := List.prefix_nil.1 hp
    exact ⟨s, rfl, rfl⟩
  | @nest inner rest hinner _ ihinner ihrest =>
    rcases prefix_nest_cases hp with rfl | ⟨q, rfl, hq⟩ | ⟨q, rfl, hq⟩
    · exact ⟨s, rfl, rfl⟩
    · obtain ⟨t, ht, hmask⟩ := ihinner hq ⟨.full, s.signalMaskStack ++ [s.mask]⟩
      refine ⟨t, by rw [foldlM_cons_ok (callNewest_opening s), ht], ?_⟩
      have := hinner.depth_prefix hq
      rw [hmask, ite_self, depth_opening, if_pos (by omega)]
    · obtain ⟨t, ht, hmask⟩ := ihrest hq s
      refine ⟨t, ?_, ?_⟩
      · rw [foldlM_cons_ok (callNewest_opening s), foldlM_append_ok (foldlM_callNewest hinner _),
          foldlM_cons_ok (callNewest_closing _ _ _), ht]
      · simpa [hinner.depth_eq] using hmask

/-- **A stack has the law** for every well-nested sequence. -/
theorem nests_newest (h : WellNested calls) (mask : SignalMask) : Nests callNewest mask calls where
  blocked before hbefore hdepth := by
    obtain ⟨t, ht, hmask⟩ := foldlM_callNewest_prefix h hbefore (init mask)
    exact ⟨t, ht, by rw [hmask, if_pos hdepth]⟩
  restored before inner hprefix hinner := by
    obtain ⟨t, ht, -⟩ := foldlM_callNewest_prefix h ((List.prefix_append _ _).trans hprefix)
      (init mask)
    have hpair : WellNested (.opening :: (inner ++ [.closing])) := .nest hinner .nil
    exact ⟨t, t, ht, by rw [foldlM_append_ok ht, foldlM_callNewest hpair], rfl⟩
  finished := ⟨init mask, foldlM_callNewest h _, rfl, rfl⟩

/-! ## The oldest mask -/

/-- The oldest and the newest of the saved masks are the same, also for the ones that are left. -/
def Alike (s : Signals) : Prop := ∃ n m, s.signalMaskStack = List.replicate n m

theorem call_eq_callNewest {s : Signals} (h : s.Alike) (b : Bracket) :
    s.call b = s.callNewest b := by
  obtain ⟨mask, saved⟩ := s
  obtain ⟨n, m, rfl : saved = _⟩ := h
  cases b with
  | opening => rfl
  | closing =>
    cases n with
    | zero => rfl
    | succ n =>
      calc call ⟨mask, List.replicate (n + 1) m⟩ .closing = .ok ⟨m, List.replicate n m⟩ := by
            rw [List.replicate_succ, call_closing]
        _ = callNewest ⟨mask, List.replicate (n + 1) m⟩ .closing := by
            rw [List.replicate_succ', callNewest_closing]

/-- As long as the saved masks are alike, it does not matter which one is taken. -/
theorem foldlM_call_eq {s : Signals}
    (h : ∀ before t, before <+: calls → before.foldlM callNewest s = .ok t → t.Alike) :
    calls.foldlM call s = calls.foldlM callNewest s := by
  induction calls generalizing s with
  | nil => rfl
  | cons b calls ih =>
    have hstep : s.call b = s.callNewest b := call_eq_callNewest (h [] s List.nil_prefix rfl) b
    rw [List.foldlM_cons, List.foldlM_cons, hstep]
    cases ht : s.callNewest b with
    | error e => rfl
    | ok t =>
      refine ih fun before u hbefore hu => h (b :: before) u ?_ ?_
      · exact (List.prefix_cons_inj b).2 hbefore
      · rw [foldlM_cons_ok ht, hu]

theorem Nests.congr {f g : Signals → Bracket → Except Failure Signals}
    (h : ∀ before, before <+: calls → before.foldlM f (init mask) = before.foldlM g (init mask))
    (hf : Nests f mask calls) : Nests g mask calls where
  blocked before hbefore hdepth := by
    rw [← h before hbefore]
    exact hf.blocked before hbefore hdepth
  restored before inner hprefix hinner := by
    rw [← h before ((List.prefix_append _ _).trans hprefix), ← h _ hprefix]
    exact hf.restored before inner hprefix hinner
  finished := by
    rw [← h calls List.prefix_rfl]
    exact hf.finished

/-- `unblockSignals` has the law where the saved masks are always alike. -/
theorem nests_of_alike (hcalls : WellNested calls)
    (h : ∀ before t, before <+: calls → before.foldlM callNewest (init mask) = .ok t → t.Alike) :
    Nests call mask calls := by
  refine (nests_newest hcalls mask).congr fun before hbefore => ?_
  exact (foldlM_call_eq fun p t hp => h p t (hp.trans hbefore)).symm

theorem callNewest_cases {s t : Signals} {b : Bracket} (h : s.callNewest b = .ok t) :
    (b = .opening ∧ t = ⟨.full, s.signalMaskStack ++ [s.mask]⟩) ∨
      (b = .closing ∧ s.signalMaskStack = t.signalMaskStack ++ [t.mask]) := by
  cases b with
  | opening => exact .inl ⟨rfl, (Except.ok.inj h).symm⟩
  | closing =>
    refine .inr ⟨rfl, ?_⟩
    obtain ⟨mask, saved⟩ := s
    rcases List.eq_nil_or_concat saved with rfl | ⟨rest, newest, hs⟩
    · cases h
    · rw [List.concat_eq_append] at hs
      subst hs
      rw [callNewest_closing] at h
      obtain rfl := Except.ok.inj h
      rfl

theorem foldlM_concat_cases {f : Signals → Bracket → Except Failure Signals} {s t : Signals}
    {l : List Bracket} {b : Bracket} (h : (l ++ [b]).foldlM f s = .ok t) :
    ∃ u, l.foldlM f s = .ok u ∧ f u b = .ok t := by
  rw [List.foldlM_append] at h
  cases hu : l.foldlM f s with
  | error e =>
    rw [hu] at h
    cases h
  | ok u =>
    rw [hu] at h
    change [b].foldlM f u = .ok t at h
    rw [List.foldlM_cons] at h
    cases hv : f u b with
    | error e =>
      rw [hv] at h
      cases h
    | ok v =>
      rw [hv] at h
      exact ⟨u, rfl, hv.trans h⟩

/-- What the calls preserve one by one they preserve together. -/
theorem foldlM_invariant {f : Signals → Bracket → Except Failure Signals}
    {P : List Bracket → Signals → Prop} {s t : Signals} {l : List Bracket} (hs : P [] s)
    (hstep : ∀ l b s t, P l s → f s b = .ok t → P (l ++ [b]) t) (h : l.foldlM f s = .ok t) :
    P l t := by
  induction l using List.reverseRecOn generalizing t with
  | nil =>
    obtain rfl := Except.ok.inj h
    exact hs
  | append_singleton l b ih =>
    obtain ⟨u, hu, ht⟩ := foldlM_concat_cases h
    exact hstep l b u t (ih hu) ht

/-- Where all signals are blocked from the start, all masks are full. -/
theorem alike_of_full {t : Signals} (h : calls.foldlM callNewest (init .full) = .ok t) :
    t.Alike := by
  suffices hfull : t.mask = .full ∧ ∃ n, t.signalMaskStack = List.replicate n .full by
    obtain ⟨-, n, hn⟩ := hfull
    exact ⟨n, .full, hn⟩
  refine foldlM_invariant (P := fun _ s => s.mask = .full ∧
    ∃ n, s.signalMaskStack = List.replicate n .full) ⟨rfl, 0, rfl⟩ ?_ h
  rintro - b s t ⟨hmask, n, hn⟩ hcall
  rcases callNewest_cases hcall with ⟨-, rfl⟩ | ⟨-, hs⟩
  · exact ⟨rfl, n + 1, by rw [hn, hmask, List.replicate_succ']⟩
  · obtain ⟨hlength, hrest, hnewest⟩ := List.append_eq_replicate_iff.1 (hs.symm.trans hn)
    exact ⟨by simpa using hnewest, _, hrest⟩

/-- There are as many saved masks as calls of `BlockSignals` without a partner. -/
theorem length_signalMaskStack {t : Signals} (h : calls.foldlM callNewest (init mask) = .ok t) :
    (t.signalMaskStack.length : ℤ) = depth calls := by
  refine foldlM_invariant (P := fun l s => (s.signalMaskStack.length : ℤ) = depth l) rfl ?_ h
  intro l b s t hs hcall
  rcases callNewest_cases hcall with ⟨rfl, rfl⟩ | ⟨rfl, hcons⟩
  · simp [← hs]
  · rw [hcons, List.length_append] at hs
    simp only [depth_append, depth_closing, depth_nil, ← hs, List.length_singleton]
    omega

theorem alike_of_flat {t : Signals} (hflat : Flat calls)
    (h : p.foldlM callNewest (init mask) = .ok t) (hp : p <+: calls) : t.Alike := by
  have hlength := length_signalMaskStack h
  have hdepth := hflat p hp
  rcases hsaved : t.signalMaskStack with _ | ⟨m, _ | ⟨m', rest⟩⟩
  · exact ⟨0, .full, hsaved⟩
  · exact ⟨1, m, hsaved⟩
  · simp only [hsaved, List.length_cons] at hlength
    omega

/-! ## When the oldest mask is the right one -/

theorem foldlM_replicate_opening (n : ℕ) (saved : List SignalMask) :
    (List.replicate n .opening).foldlM call ⟨.full, saved⟩ =
      .ok ⟨.full, saved ++ List.replicate n .full⟩ := by
  induction n generalizing saved with
  | zero => simp [pure, Except.pure]
  | succ n ih =>
    rw [List.replicate_succ, foldlM_cons_ok (call_opening _), ih, List.append_assoc,
      List.singleton_append, List.replicate_succ]

/-- Two calls of `BlockSignals` in a row: the first `UnblockSignals` after them brings back the mask
from before both. -/
theorem foldlM_first_closing (mask : SignalMask) (n : ℕ) :
    (.opening :: (List.replicate (n + 1) .opening ++ [.closing])).foldlM call (init mask) =
      .ok ⟨mask, List.replicate (n + 1) .full⟩ := by
  rw [foldlM_cons_ok (call_opening _), foldlM_append_ok (foldlM_replicate_opening _ _)]
  rfl

/-- If all signals are to stay blocked, nothing may be nested. -/
theorem flat_of_blocked (h : WellNested calls) (hmask : mask ≠ .full)
    (hblocked : ∀ before, before <+: calls → 0 < depth before →
      ∃ s, before.foldlM call (init mask) = .ok s ∧ s.mask = .full) : Flat calls := by
  induction h with
  | nil =>
    intro p hp
    simp [List.prefix_nil.1 hp]
  | @nest inner rest hinner _ _ ihrest =>
    rcases eq_or_ne inner [] with rfl | hne
    · refine flat_pair (ihrest fun before hbefore hdepth => ?_)
      refine hblocked (.opening :: .closing :: before) ?_ (by simpa using hdepth)
      exact (List.prefix_cons_inj _).2 ((List.prefix_cons_inj _).2 hbefore)
    · -- the first mask that is brought back is the one from before all of them
      obtain ⟨n, rest', rfl⟩ := hinner.first_closing hne
      have hdepth : 0 < depth (.opening :: (List.replicate (n + 1) .opening ++ [.closing])) := by
        rw [depth_opening, depth_append, depth_replicate_opening, depth_closing, depth_nil]
        omega
      obtain ⟨s, hs, hfull⟩ := hblocked _ (by simp) hdepth
      rw [foldlM_first_closing] at hs
      obtain rfl := Except.ok.inj hs
      exact absurd hfull hmask

/-- **When blocking nests**: exactly if all signals are blocked anyway or no call of `BlockSignals`
comes while another one is unmatched. -/
theorem nests_iff (h : WellNested calls) :
    Nests call mask calls ↔ mask = .full ∨ Flat calls := by
  constructor
  · intro hnests
    by_cases hmask : mask = .full
    · exact .inl hmask
    · exact .inr (flat_of_blocked h hmask hnests.blocked)
  · rintro (rfl | hflat)
    · exact nests_of_alike h fun _ _ _ hs => alike_of_full hs
    · exact nests_of_alike h fun _ _ hp hs => alike_of_flat hflat hs hp

/-- The two calls of `Run`, with no signal blocked before. -/
theorem nests_iff_run : Nests call (.ofSet 0) [.opening, .closing] :=
  (nests_iff (.nest .nil .nil)).2 (.inr (flat_pair fun p hp => by simp [List.prefix_nil.1 hp]))

/-- A second call of `BlockSignals` inside: its partner unblocks the signals too early. -/
theorem not_nests_twoDeep :
    WellNested [.opening, .opening, .closing, .closing] ∧
      ¬ Nests call (.ofSet 0) [.opening, .opening, .closing, .closing] := by
  refine ⟨.nest (.nest .nil .nil) .nil, fun h => ?_⟩
  obtain ⟨s, hs, hfull⟩ := h.blocked [.opening, .opening, .closing] (by simp) (by decide)
  have hmask : s.mask = .ofSet 0 := by
    obtain rfl := Except.ok.inj hs
    rfl
  exact absurd (hmask.symm.trans hfull) (by decide)

end Signals
end BladePSGI.Main

import BladePSGI.Foundations.Cells
import Mathlib.Data.List.Forall2

/-!
# Loaders that request auxiliary processes

A loader assigns to Perl variables and calls `request_auxiliary_process`. The second argument
reaches the C++ code as the caller's own scalar, and the callback stores it as a pointer: the
`SvREFCNT_inc` of the XS code keeps the scalar, not the value that it has.

* `value_callbacks`: after the loader, a callback finds the value that its scalar has then.
* `requested_eq_iff`: this is the value of the request if and only if no request is followed by an
  assignment that leaves its variable with another one.
-/

namespace BladePSGI.Perl

open Function

variable {Value : Type*}

/-- The second argument of `request_auxiliary_process`. -/
inductive Subr (Value : Type*)
  | var (x : ℕ)
  | temporary (value : Value)

inductive Statement (Value : Type*)
  | assign (x : ℕ) (value : Value)
  | requestAuxiliaryProcess (name : String) (subr : Subr Value)

/-- The application loader, as it runs. -/
abbrev Loader (Value : Type*) := List (Statement Value)

/-- An `SV *`. -/
inductive Sv
  | var (x : ℕ)
  | temporary (n : ℕ)
  deriving DecidableEq

/-- The memory of a process, as far as it matters here. -/
structure Interpreter (Value : Type*) where
  scalars : Cells Sv Value
  /-- How many temporary values there have been. -/
  temporaries : ℕ
  /-- The `sv` of the callbacks in `auxiliary_processes_`. -/
  callbacks : List Sv

namespace Interpreter

/-- Before the loader. Every variable is `undef`. -/
def init [Inhabited Value] : Interpreter Value where
  scalars
    | .var _ => some ⟨default, 1⟩
    | .temporary _ => none
  temporaries := 0
  callbacks := []

/-- `sv_setsv`. -/
def assign (p : Interpreter Value) (x : ℕ) (v : Value) : Interpreter Value :=
  { p with scalars := p.scalars.assign (.var x) v }

def newTemporary (p : Interpreter Value) (v : Value) : Interpreter Value :=
  { p with
    scalars := p.scalars.alloc (.temporary p.temporaries) v
    temporaries := p.temporaries + 1 }

/-- `bladepsgi_perl_interpreter_cb_request_auxiliary_process`: `callback_p->sv = sv`. -/
def cbRequestAuxiliaryProcess (p : Interpreter Value) (sv : Sv) : Interpreter Value :=
  { p with callbacks := p.callbacks ++ [sv] }

/-- `bladepsgi_context_request_auxiliary_process`. -/
def contextRequestAuxiliaryProcess (p : Interpreter Value) (sv : Sv) : Interpreter Value :=
  { p.cbRequestAuxiliaryProcess sv with scalars := p.scalars.inc sv }

/-- The call of `request_auxiliary_process`. -/
def request (p : Interpreter Value) : Subr Value → Interpreter Value
  | .var x => p.contextRequestAuxiliaryProcess (.var x)
  | .temporary v =>
    let called := (p.newTemporary v).contextRequestAuxiliaryProcess (.temporary p.temporaries)
    -- the end of the statement drops the temporary value
    { called with scalars := called.scalars.dec (.temporary p.temporaries) }

def exec (p : Interpreter Value) : Statement Value → Interpreter Value
  | .assign x v => p.assign x v
  | .requestAuxiliaryProcess _ subr => p.request subr

/-- The loader runs. -/
def run (p : Interpreter Value) (loader : Loader Value) : Interpreter Value :=
  loader.foldl exec p

/-- The loader returns: its lexical variables go out of scope. -/
def leave (isLexical : ℕ → Bool) (p : Interpreter Value) : Interpreter Value :=
  { p with
    scalars := fun sv =>
      match sv with
      | .var x => if isLexical x then p.scalars.dec sv sv else p.scalars sv
      | .temporary _ => p.scalars sv }

/-- `bladepsgi_perl_callback_call` on the callback of `auxiliary_processes_[index]`: the value that
`perl_call_sv` finds, `none` if the scalar has been freed. -/
def callbackCall (p : Interpreter Value) (index : ℕ) : Option Value :=
  p.callbacks[index]?.bind p.scalars.value

end Interpreter

/-! ## What the loader says -/

/-- The value of the argument, with `σ` for the values of the variables. -/
def Subr.held (σ : ℕ → Value) : Subr Value → Value
  | .var x => σ x
  | .temporary v => v

def Statement.subr? : Statement Value → Option (Subr Value)
  | .assign _ _ => none
  | .requestAuxiliaryProcess _ subr => some subr

def Statement.assignment? : Statement Value → Option (ℕ × Value)
  | .assign x v => some (x, v)
  | .requestAuxiliaryProcess _ _ => none

namespace Loader

/-- The second arguments of the requests. -/
def subrs (loader : Loader Value) : List (Subr Value) := loader.filterMap Statement.subr?

def assignments (loader : Loader Value) : List (ℕ × Value) :=
  loader.filterMap Statement.assignment?

/-- The values that the second arguments hold at the time of the requests. -/
def requestedFrom (σ : ℕ → Value) : Loader Value → List Value
  | [] => []
  | .assign x v :: loader => requestedFrom (update σ x v) loader
  | .requestAuxiliaryProcess _ subr :: loader => subr.held σ :: requestedFrom σ loader

def requested [Inhabited Value] (loader : Loader Value) : List Value :=
  requestedFrom (fun _ => default) loader

/-- Where a request has a variable, the last of the later assignments to the variable, if there is
one, assigns the value that the variable had at the request. -/
def KeepsFrom (σ : ℕ → Value) (loader : Loader Value) : Prop :=
  ∀ before name x after, loader = before ++ .requestAuxiliaryProcess name (.var x) :: after →
    ∀ v, lastAssigned (assignments after) x = some v → v = assigned σ (assignments before) x

def Keeps [Inhabited Value] (loader : Loader Value) : Prop := KeepsFrom (fun _ => default) loader

end Loader

/-! ## What the callbacks find -/

open Loader

section Represents

variable {p p' : Interpreter Value} {σ : ℕ → Value} {args : List (Subr Value)} {sv : Sv}
  {subr : Subr Value} {loader : Loader Value}

/-- The scalar of a callback and the argument of the request. -/
def Interpreter.Refers (p : Interpreter Value) : Subr Value → Sv → Prop
  | .var x, sv => sv = .var x
  | .temporary v, sv => ∃ n < p.temporaries, sv = .temporary n ∧ p.scalars sv = some ⟨v, 1⟩

/-- **The invariant of the loader.** A variable is referred to by its scope and by the callbacks, a
temporary value by its callback. -/
structure Represents (p : Interpreter Value) (σ : ℕ → Value) (args : List (Subr Value)) :
    Prop where
  vars : ∀ x, p.scalars (.var x) = some ⟨σ x, p.callbacks.count (.var x) + 1⟩
  callbacks : List.Forall₂ p.Refers args p.callbacks

theorem Interpreter.Refers.mono (h : p.Refers subr sv) (hle : p.temporaries ≤ p'.temporaries)
    (hkeep : ∀ n < p.temporaries, p'.scalars (.temporary n) = p.scalars (.temporary n)) :
    p'.Refers subr sv := by
  cases subr with
  | var x => exact h
  | temporary v =>
    obtain ⟨n, hn, rfl, hv⟩ := h
    exact ⟨n, Nat.lt_of_lt_of_le hn hle, rfl, (hkeep n hn).trans hv⟩

theorem scalars_assign (x : ℕ) (v : Value) :
    (p.assign x v).scalars = p.scalars.assign (.var x) v := rfl

theorem scalars_request_var (x : ℕ) :
    (p.request (.var x)).scalars = p.scalars.inc (.var x) := rfl

theorem callbacks_request_var (x : ℕ) :
    (p.request (.var x)).callbacks = p.callbacks ++ [.var x] := rfl

/-- The reference that the callback takes keeps the temporary value. -/
theorem scalars_request_temporary (v : Value) :
    (p.request (.temporary v)).scalars = p.scalars.alloc (.temporary p.temporaries) v :=
  Cells.inc_dec Cells.alloc_self Nat.one_pos

theorem callbacks_request_temporary (v : Value) :
    (p.request (.temporary v)).callbacks = p.callbacks ++ [.temporary p.temporaries] := rfl

namespace Represents

theorem init [Inhabited Value] :
    Represents (Interpreter.init : Interpreter Value) (fun _ => default) [] :=
  ⟨fun _ => rfl, .nil⟩

theorem assign (h : Represents p σ args) (x : ℕ) (v : Value) :
    Represents (p.assign x v) (update σ x v) args := by
  constructor
  · intro y
    by_cases hy : y = x
    · subst hy
      rw [update_self]
      exact Cells.assign_self (h.vars y)
    · rw [update_of_ne hy]
      exact (Cells.assign_of_ne (by simpa using hy)).trans (h.vars y)
  · refine h.callbacks.imp fun _ _ hr => hr.mono (Nat.le_refl _) fun n _ => ?_
    rw [scalars_assign, Cells.assign_of_ne (by simp)]

theorem request_var (h : Represents p σ args) (x : ℕ) :
    Represents (p.request (.var x)) σ (args ++ [.var x]) := by
  constructor
  · intro y
    rw [scalars_request_var, callbacks_request_var, List.count_append]
    by_cases hy : y = x
    · subst hy
      rw [List.count_singleton_self]
      exact Cells.inc_self (h.vars y)
    · rw [List.count_singleton, if_neg (by simpa using Ne.symm hy),
        Cells.inc_of_ne (by simpa using hy), h.vars y]
  · rw [callbacks_request_var]
    refine List.rel_append ?_ (.cons rfl .nil)
    refine h.callbacks.imp fun _ _ hr => hr.mono (Nat.le_refl _) fun n _ => ?_
    rw [scalars_request_var, Cells.inc_of_ne (by simp)]

theorem request_temporary (h : Represents p σ args) (v : Value) :
    Represents (p.request (.temporary v)) σ (args ++ [.temporary v]) := by
  constructor
  · intro y
    rw [scalars_request_temporary, Cells.alloc_of_ne (by simp), h.vars y,
      callbacks_request_temporary, List.count_append, List.count_singleton, if_neg (by simp)]
  · have hnew : (p.request (.temporary v)).Refers (.temporary v) (.temporary p.temporaries) :=
      ⟨p.temporaries, Nat.lt_succ_self _, rfl, by
        rw [scalars_request_temporary, Cells.alloc_self]⟩
    rw [callbacks_request_temporary]
    refine List.rel_append ?_ (.cons hnew .nil)
    refine h.callbacks.imp fun _ _ hr => hr.mono (Nat.le_succ _) fun n hn => ?_
    rw [scalars_request_temporary, Cells.alloc_of_ne (by simpa using Nat.ne_of_lt hn)]

theorem run (h : Represents p σ args) (loader : Loader Value) :
    Represents (p.run loader) (assigned σ (assignments loader)) (args ++ subrs loader) := by
  induction loader generalizing p σ args with
  | nil => simpa [Interpreter.run, assigned, assignments, subrs] using h
  | cons statement loader ih =>
    cases statement with
    | assign x v => exact ih (h.assign x v)
    | requestAuxiliaryProcess name subr =>
      rw [show subrs (_ :: loader) = [subr] ++ (subrs loader) from rfl, ← List.append_assoc]
      cases subr with
      | var x => exact ih (h.request_var x)
      | temporary v => exact ih (h.request_temporary v)

/-- The scope drops no scalar of a callback. -/
theorem value_leave (h : Represents p σ args) (isLexical : ℕ → Bool) (hr : p.Refers subr sv)
    (hmem : sv ∈ p.callbacks) : (p.leave isLexical).scalars.value sv = some (subr.held σ) := by
  cases subr with
  | var x =>
    obtain rfl : sv = .var x := hr
    have hpos : 0 < p.callbacks.count (.var x) := List.count_pos_iff.2 hmem
    cases hl : isLexical x with
    | true =>
      refine Cells.value_of (n := p.callbacks.count (.var x)) ?_
      simpa [Interpreter.leave, hl, Subr.held] using Cells.dec_self (h.vars x) hpos
    | false =>
      refine Cells.value_of (n := p.callbacks.count (.var x) + 1) ?_
      simpa [Interpreter.leave, hl, Subr.held] using h.vars x
  | temporary v =>
    obtain ⟨n, -, rfl, hv⟩ := hr
    exact Cells.value_of hv

end Represents

/-- **What the callbacks find after the loader**: the values that their arguments have then. -/
theorem value_callbacks [Inhabited Value] (isLexical : ℕ → Bool) (loader : Loader Value) (i : ℕ) :
    ((Interpreter.init.run loader).leave isLexical).callbackCall i =
      (subrs loader)[i]?.map (Subr.held (assigned (fun _ => default) (assignments loader))) := by
  have h : Represents (Interpreter.init.run loader) _ ([] ++ (subrs loader)) :=
    Represents.init.run loader
  rw [List.nil_append] at h
  have hlength := h.callbacks.length_eq
  change (Interpreter.init.run loader).callbacks[i]?.bind _ = _
  rcases Nat.lt_or_ge i (subrs loader).length with hi | hi
  · have hi' : i < (Interpreter.init.run loader).callbacks.length := hlength ▸ hi
    rw [List.getElem?_eq_getElem hi, List.getElem?_eq_getElem hi', Option.bind_some,
      Option.map_some]
    exact h.value_leave isLexical (h.callbacks.get hi hi') (List.getElem_mem hi')
  · rw [List.getElem?_eq_none hi, List.getElem?_eq_none (hlength ▸ hi)]
    rfl

end Represents

/-! ## Requests that are kept -/

section Keeps

variable {σ : ℕ → Value} {loader : Loader Value} {name : String} {x : ℕ} {v : Value}
  {subr : Subr Value}

theorem keepsFrom_cons {statement : Statement Value} :
    KeepsFrom σ (statement :: loader) ↔
      (∀ name x, statement = .requestAuxiliaryProcess name (.var x) →
        ∀ v, lastAssigned (assignments loader) x = some v → v = σ x) ∧
      KeepsFrom (assigned σ (assignments [statement])) loader := by
  constructor
  · intro h
    refine ⟨fun name x hs => h [] name x loader (by rw [hs]; rfl), ?_⟩
    intro before name x after hl v hv
    have hlater := h (statement :: before) name x after (by rw [hl]; rfl) v hv
    cases statement <;> exact hlater
  · rintro ⟨hhere, hlater⟩ before name x after hl
    rcases before with _ | ⟨first, before⟩
    · obtain ⟨hs, rfl⟩ := List.cons.inj hl
      exact hhere name x hs
    · rw [List.cons_append, List.cons.injEq] at hl
      obtain ⟨rfl, hl⟩ := hl
      intro v hv
      have h := hlater before name x after hl v hv
      cases statement <;> exact h

theorem held_eq_iff {ws : List (ℕ × Value)} : subr.held σ = subr.held (assigned σ ws) ↔
    ∀ name x, Statement.requestAuxiliaryProcess name subr =
      .requestAuxiliaryProcess name (.var x) → ∀ v, lastAssigned ws x = some v → v = σ x := by
  cases subr with
  | var x =>
    refine eq_comm.trans (assigned_eq_iff.trans ⟨?_, fun h => h "" x rfl⟩)
    rintro h name y hy
    cases hy
    exact h
  | temporary v => simp [Subr.held]

theorem length_requestedFrom (σ : ℕ → Value) (loader : Loader Value) :
    (requestedFrom σ loader).length = (subrs loader).length := by
  induction loader generalizing σ with
  | nil => rfl
  | cons statement loader ih =>
    cases statement with
    | assign x v => exact ih _
    | requestAuxiliaryProcess name subr => exact congrArg (· + 1) (ih σ)

/-- **The values at the requests are the values at the end exactly when the loader keeps them.** -/
theorem requestedFrom_eq_iff :
    requestedFrom σ loader = (subrs loader).map (Subr.held (assigned σ (assignments loader))) ↔
      KeepsFrom σ loader := by
  induction loader generalizing σ with
  | nil => simp [requestedFrom, subrs, KeepsFrom]
  | cons statement loader ih =>
    rw [keepsFrom_cons]
    cases statement with
    | assign x v =>
      refine ih.trans (iff_and_self.2 ?_)
      rintro - name y hs
      cases hs
    | requestAuxiliaryProcess name subr =>
      refine List.cons_eq_cons.trans (and_congr (held_eq_iff.trans ?_) ih)
      refine ⟨fun h name' x hs => h name' x ?_, fun h name' x hs => h name x ?_⟩
      · cases hs
        rfl
      · cases hs
        rfl

end Keeps

end BladePSGI.Perl

import BladePSGI.Foundations.Text
import Mathlib.Logic.Function.Basic

/-!
# The FastCGI wrapper

The closure that `fastcgi_wrapper_loader` returns serves one request a call: it runs the PSGI
application, which hands it a reference to a response array or a subroutine that does so later, and
`handle_response` sends it. The arrays belong to the application; `handle_response` takes the header
array apart with `splice`.

* `handleResponse_kept_iff`: `handle_response` leaves a response as it was if and only if its header
  array is empty.
* `independent_iff`: so a run's responses are independent of each other if and only if all of them
  had empty header arrays.
-/

namespace BladePSGI.Perl.FastCGIWrapper

open Function Text Transition

/-- The address of an array. -/
abbrev Ref := ℕ

/-- A Perl scalar, as far as the wrapper tells them apart. -/
inductive Scalar
  | undef
  | string (bytes : List Byte)
  | array (r : Ref)
  | code (address : ℕ)
  /-- Any other reference. -/
  | other (address : ℕ)
  deriving DecidableEq

/-- The elements of every array. -/
abbrev Heap := Ref → List Scalar

/-- What the wrapper uses of Perl and its modules. -/
structure Library where
  /-- A scalar in a string. -/
  interpolate : Scalar → List Byte
  /-- `HTTP::Status::status_message`. -/
  statusMessage : Scalar → Scalar

variable {lib : Library} {heap heap' : Heap}

/-- An element of an array, `undef` behind its end. -/
def element (elements : List Scalar) (i : ℕ) : Scalar := elements.getD i Scalar.undef

/-- The end of a line. -/
def crlf : List Byte := [byte '\r', byte '\n']

/-- `"Status: $res->[0] $message\r\n"`. -/
def statusLine (lib : Library) (status : Scalar) : List Byte :=
  ['S', 't', 'a', 't', 'u', 's', ':', ' '].map byte ++ lib.interpolate status ++ [byte ' '] ++
    lib.interpolate (lib.statusMessage status) ++ crlf

/-- `"$k: $v\r\n"`. -/
def headerLine (lib : Library) (k v : Scalar) : List Byte :=
  lib.interpolate k ++ [byte ':', byte ' '] ++ lib.interpolate v ++ crlf

/-- The loop over `splice @$headers, 0, 2`: the lines, and what it leaves of the array. -/
def headerLoop (lib : Library) : List Byte → List Scalar → List Byte × List Scalar
  | hdrs, [] => (hdrs, [])
  | hdrs, [k] => (hdrs ++ headerLine lib k .undef, [])
  | hdrs, k :: v :: headers => headerLoop lib (hdrs ++ headerLine lib k v) headers

/-- A response with the contents of its arrays. -/
structure Response where
  elements : List Scalar
  headers : List Scalar
  body : List Scalar
  deriving DecidableEq

/-- The elements of the array that a scalar refers to. -/
def contents (heap : Heap) : Scalar → List Scalar
  | .array r => heap r
  | _ => []

def responseAt (heap : Heap) (res : Ref) : Response where
  elements := heap res
  headers := contents heap (element (heap res) 1)
  body := contents heap (element (heap res) 2)

/-- A response that has been sent. -/
structure Sent where
  res : Ref
  /-- `$res->[1]`. -/
  headers : Scalar
  before : Response
  after : Response
  statusLine : List Byte
  headerLines : List Byte
  deriving DecidableEq

/-- What is written before the body. -/
def Sent.hdrs (sent : Sent) : List Byte := sent.statusLine ++ sent.headerLines ++ crlf

/-- `$handle_response` up to the body, `none` where it dies. An undefined `$headers` becomes a new
array. -/
def handleResponse (lib : Library) (heap : Heap) (res : Ref) : Option (Heap × Sent) :=
  let status := statusLine lib (element (heap res) 0)
  let headers := element (heap res) 1
  match headers with
  | .array r =>
    let (lines, left) := headerLoop lib [] (heap r)
    let heap' := update heap r left
    some (heap', ⟨res, headers, responseAt heap res, responseAt heap' res, status, lines⟩)
  | .undef =>
    let (lines, _) := headerLoop lib [] []
    some (heap, ⟨res, headers, responseAt heap res, responseAt heap res, status, lines⟩)
  | _ => none

/-! ## The worker -/

inductive Pc
  | idle
  /-- In `Plack::Util::run_app`. -/
  | running
  /-- In the subroutine that the application has returned. -/
  | streaming
  /-- In `Plack::Util::foreach`. -/
  | body (streaming : Bool)
  | finishing
  | died
  deriving DecidableEq

structure State where
  heap : Heap
  pc : Pc

inductive Action
  | accept (ok : Bool)
  /-- The application, or an object of its, assigns to an array. -/
  | write (r : Ref) (elements : List Scalar)
  /-- `run_app` returns. -/
  | returns (res : Scalar)
  /-- The application's subroutine calls the responder. -/
  | respond (res : Ref)
  | print (line : List Byte)
  | bodyDone
  | streamed
  /-- Code of the application dies; the worker goes on if the exception is false. -/
  | die (exception : Bool)
  | finish

inductive Event
  | accepted
  | acceptFailed
  | wrote (r : Ref)
  | sent (sent : Sent)
  | printed (line : List Byte)
  | finished
  | died
  deriving DecidableEq

/-- Send a response; `$handle_response` returns to `next`. -/
def send (lib : Library) (s : State) (res : Ref) (streaming : Bool) (next : Pc) :
    State × List Event :=
  match handleResponse lib s.heap res with
  | none => ({ s with pc := .died }, [.died])
  | some (heap, sent) =>
    ({ heap, pc := if element (heap res) 2 = .undef then next else .body streaming }, [.sent sent])

/-- One step of a worker. -/
def step (lib : Library) (s : State) : Action → Option (State × List Event)
  | .accept ok =>
    if s.pc = .idle then
      if ok then some ({ s with pc := .running }, [.accepted]) else some (s, [.acceptFailed])
    else none
  | .write r elements =>
    match s.pc with
    | .running | .streaming | .body _ =>
      some ({ s with heap := update s.heap r elements }, [.wrote r])
    | _ => none
  | .returns res =>
    if s.pc = .running then
      match res with
      | .array r => some (send lib s r false .finishing)
      | .code _ => some ({ s with pc := .streaming }, [])
      | _ => some ({ s with pc := .died }, [.died])
    else none
  | .respond res => if s.pc = .streaming then some (send lib s res true .streaming) else none
  | .print line =>
    match s.pc with
    | .streaming | .body _ => some (s, [.printed line])
    | _ => none
  | .bodyDone =>
    match s.pc with
    | .body streaming => some ({ s with pc := if streaming then .streaming else .finishing }, [])
    | _ => none
  | .streamed => if s.pc = .streaming then some ({ s with pc := .finishing }, []) else none
  | .die exception =>
    match s.pc with
    | .streaming | .body _ =>
      some ({ s with pc := if exception then .died else .idle }, [.died])
    | _ => none
  | .finish => if s.pc = .finishing then some ({ s with pc := .idle }, [.finished]) else none

def machine (lib : Library) : Machine State Action Event := ⟨step lib⟩

/-- The runs of a worker from the arrays that the loader has left. -/
abbrev Reach (lib : Library) (heap : Heap) : List Event → State → Prop :=
  (machine lib).Reach ⟨heap, .idle⟩

/-! ## What a step can do -/

/-- The effect of a step on the arrays. -/
inductive Effect (lib : Library) (heap : Heap) : Heap → List Event → Prop
  | quiet {es} (hlen : es.length ≤ 1)
      (hes : ∀ e ∈ es, (∀ r, e ≠ .wrote r) ∧ ∀ sent, e ≠ .sent sent) : Effect lib heap heap es
  | wrote {r elements} : Effect lib heap (update heap r elements) [.wrote r]
  | sent {res heap' sent} (h : handleResponse lib heap res = some (heap', sent)) :
      Effect lib heap heap' [.sent sent]

theorem effect_send {s s' : State} {res : Ref} {streaming : Bool} {next : Pc} {es : List Event}
    (h : send lib s res streaming next = (s', es)) : Effect lib s.heap s'.heap es := by
  unfold send at h
  split at h
  · obtain ⟨rfl, rfl⟩ := Prod.mk.inj h
    exact .quiet (by simp) (by simp)
  · obtain ⟨rfl, rfl⟩ := Prod.mk.inj h
    exact .sent ‹_›

/-- **What a step can do.** -/
theorem step_effect {s s' : State} {a : Action} {es : List Event}
    (h : (machine lib).step s a = some (s', es)) : Effect lib s.heap s'.heap es := by
  change step lib s a = _ at h
  cases a <;> simp only [step] at h
  case accept ok =>
    split_ifs at h <;>
      (obtain ⟨rfl, rfl⟩ := Prod.mk.inj (Option.some.inj h); exact .quiet (by simp) (by simp))
  case write r elements =>
    split at h
    case h_4 => cases h
    all_goals
      obtain ⟨rfl, rfl⟩ := Prod.mk.inj (Option.some.inj h)
      exact .wrote
  case returns res =>
    split_ifs at h
    split at h
    case h_1 => exact effect_send (Option.some.inj h)
    all_goals
      obtain ⟨rfl, rfl⟩ := Prod.mk.inj (Option.some.inj h)
      exact .quiet (by simp) (by simp)
  case respond res =>
    split_ifs at h
    exact effect_send (Option.some.inj h)
  all_goals
    split at h <;> try cases h
    all_goals exact .quiet (by simp) (by simp)

/-! ## One response -/

/-- The loop takes the whole array. -/
theorem headerLoop_left (hdrs : List Byte) (headers : List Scalar) :
    (headerLoop lib hdrs headers).2 = [] := by
  fun_induction headerLoop lib hdrs headers with
  | case1 => rfl
  | case2 => rfl
  | case3 hdrs k v headers ih => exact ih

/-- **A response is left as it was exactly if its header array is empty.** -/
theorem responseAt_update_iff {res r : Ref} (h : element (heap res) 1 = .array r) :
    responseAt (update heap r []) res = responseAt heap res ↔ heap r = [] := by
  constructor
  · intro heq
    by_cases hr : res = r
    · have helements := congrArg Response.elements heq
      simp only [responseAt, hr, update_self] at helements
      exact helements.symm
    · have hheaders := congrArg Response.headers heq
      simp only [responseAt, update_of_ne hr, h, contents, update_self] at hheaders
      exact hheaders.symm
  · intro hempty
    rw [← hempty, update_eq_self]

/-- What a response that has been sent was made of. -/
structure Made (lib : Library) (heap heap' : Heap) (res : Ref) (sent : Sent) : Prop where
  before : sent.before = responseAt heap res
  headers : sent.headers = element (heap res) 1
  statusLine : sent.statusLine = statusLine lib (element (heap res) 0)
  headerLines : sent.headerLines = (headerLoop lib [] sent.before.headers).1
  kept : sent.after = sent.before ↔ sent.before.headers = []
  heap : sent.before.headers = [] → heap' = heap
  ref : sent.res = res

theorem made_of_handleResponse {res : Ref} {sent : Sent}
    (h : handleResponse lib heap res = some (heap', sent)) : Made lib heap heap' res sent := by
  unfold handleResponse at h
  cases hheaders : element (heap res) 1 with
  | array r =>
    have hbefore : (responseAt heap res).headers = heap r := by
      rw [responseAt, hheaders]
      rfl
    simp only [hheaders, headerLoop_left] at h
    obtain ⟨rfl, rfl⟩ := Prod.mk.inj (Option.some.inj h)
    refine ⟨rfl, hheaders.symm, rfl, by rw [hbefore], ?_, fun hempty => ?_, rfl⟩
    · rw [hbefore]
      exact responseAt_update_iff hheaders
    · rw [hbefore] at hempty
      rw [← hempty, update_eq_self]
  | undef =>
    have hbefore : (responseAt heap res).headers = [] := by
      rw [responseAt, hheaders]
      rfl
    simp only [hheaders] at h
    obtain ⟨rfl, rfl⟩ := Prod.mk.inj (Option.some.inj h)
    exact ⟨rfl, hheaders.symm, rfl, by rw [hbefore], by simp [hbefore], fun _ => rfl, rfl⟩
  | _ => simp [hheaders] at h

/-! ## The responses of a run -/

variable {tr : List Event} {s : State}

/-- Sending leaves the application's responses as they were. -/
def Unaltered (tr : List Event) : Prop := ∀ sent, .sent sent ∈ tr → sent.after = sent.before

/-- The lines of a response that is sent again, or of a header array that is, with no assignment of
the application to them in between. -/
def SameLines (past : List Event) (e : Event) : Prop :=
  ∀ sent, e = .sent sent → ∀ l₁ first l₂, past = l₁ ++ .sent first :: l₂ →
    (sent.res = first.res → .wrote first.res ∉ l₂ →
      (∀ r, first.headers = .array r → .wrote r ∉ l₂) →
      sent.statusLine = first.statusLine ∧ sent.headerLines = first.headerLines) ∧
    ∀ r, first.headers = .array r → sent.headers = .array r → .wrote r ∉ l₂ →
      sent.headerLines = first.headerLines

/-- Sending leaves responses as they were, so that they can be sent again. -/
def Independent (tr : List Event) : Prop := Unaltered tr ∧ Each SameLines tr

/-- All responses have been sent with empty header arrays. -/
def Headerless (tr : List Event) : Prop := ∀ sent, .sent sent ∈ tr → sent.before.headers = []

/-- An event that is no response or one with an empty header array. -/
def Event.Headerless : Event → Bool
  | .sent response => response.before.headers = []
  | _ => true

theorem headerless_iff : Headerless tr ↔ tr.all Event.Headerless = true := by
  rw [List.all_eq_true]
  constructor
  · intro h e hmem
    cases e with
    | sent sent => exact decide_eq_true (h sent hmem)
    | _ => rfl
  · intro h sent hmem
    exact of_decide_eq_true (h _ hmem)

instance (tr : List Event) : Decidable (Headerless tr) := decidable_of_iff' _ headerless_iff

theorem Headerless.of_append {l₁ l₂ : List Event} (h : Headerless (l₁ ++ l₂)) : Headerless l₁ :=
  fun sent hmem => h sent (List.mem_append_left _ hmem)

theorem Effect.length_le {es : List Event} (h : Effect lib heap heap' es) : es.length ≤ 1 := by
  cases h with
  | quiet hlen => exact hlen
  | _ => simp

theorem Effect.sent_mem {es : List Event} (h : Effect lib heap heap' es) {sent : Sent}
    (hmem : .sent sent ∈ es) : es = [.sent sent] ∧ ∃ res, Made lib heap heap' res sent := by
  cases h with
  | quiet _ hes => exact absurd rfl ((hes _ hmem).2 sent)
  | wrote => simp at hmem
  | @sent res _ _ hsend =>
    obtain rfl := Event.sent.inj (List.mem_singleton.1 hmem)
    exact ⟨rfl, res, made_of_handleResponse hsend⟩

/-- What is known of every response of a run. -/
theorem sent_of_reach (h : Reach lib heap tr s) : ∀ sent, .sent sent ∈ tr →
    (sent.after = sent.before ↔ sent.before.headers = []) ∧
      sent.statusLine = statusLine lib (element sent.before.elements 0) ∧
      sent.headerLines = (headerLoop lib [] sent.before.headers).1 := by
  refine h.invariant (fun tr _ => ∀ sent, .sent sent ∈ tr →
    (sent.after = sent.before ↔ sent.before.headers = []) ∧
      sent.statusLine = statusLine lib (element sent.before.elements 0) ∧
      sent.headerLines = (headerLoop lib [] sent.before.headers).1) (by simp) ?_
  intro tr s a s' es _ ih _ hs sent hmem
  rcases List.mem_append.1 hmem with hmem | hmem
  · exact ih sent hmem
  · obtain ⟨-, res, hmade⟩ := (step_effect hs).sent_mem hmem
    refine ⟨hmade.kept, ?_, hmade.headerLines⟩
    rw [hmade.statusLine, hmade.before]
    rfl

/-- Every response is still what it was when it was sent, unless the application has assigned to
its array. -/
def Still (tr : List Event) (heap : Heap) : Prop :=
  ∀ l₁ first l₂, tr = l₁ ++ .sent first :: l₂ → .wrote first.res ∉ l₂ →
    heap first.res = first.before.elements

/-- Where an event of an extended trace stands. -/
theorem append_eq_append_cons {es l₁ l₂ : List Event} {q : Event}
    (h : tr ++ es = l₁ ++ q :: l₂) : q ∈ es ∨ ∃ l, l₂ = l ++ es ∧ tr = l₁ ++ q :: l := by
  by_cases hq : q ∈ es
  · exact Or.inl hq
  · obtain ⟨l, rfl⟩ := eq_append_cons_of_notMem hq h
    refine Or.inr ⟨l, ?_, rfl⟩
    rw [List.append_assoc, List.append_cancel_left_eq, List.cons_append, List.cons.injEq] at h
    exact h.2.symm

theorem Still.append {es : List Event} (h : Still tr heap) (he : Effect lib heap heap' es)
    (hless : Headerless (tr ++ es)) : Still (tr ++ es) heap' := by
  intro l₁ first l₂ htr hwrote
  have hold : ∀ l, tr = l₁ ++ .sent first :: l → .wrote first.res ∉ l →
      heap first.res = first.before.elements := h l₁ first
  rcases append_eq_append_cons htr with hnew | ⟨l, rfl, hl⟩
  · obtain ⟨-, res, hmade⟩ := he.sent_mem hnew
    rw [hmade.heap (hless first (List.mem_append_right _ hnew)), hmade.before, hmade.ref]
    rfl
  · have hheap := hold l hl fun hmem => hwrote (List.mem_append_left _ hmem)
    cases he with
    | quiet => exact hheap
    | @wrote r elements =>
      have hr : first.res ≠ r := by
        rintro rfl
        exact hwrote (List.mem_append_right _ List.mem_cons_self)
      rw [update_of_ne hr, hheap]
    | @sent res _ sent hsend =>
      rw [(made_of_handleResponse hsend).heap (hless sent (by simp)), hheap]

/-- While no header array is taken apart, responses stay what they were. -/
theorem still_of_reach (h : Reach lib heap tr s) (hless : Headerless tr) : Still tr s.heap := by
  revert hless
  refine h.invariant (fun tr s => Headerless tr → Still tr s.heap) ?_ ?_
  · intro _ l₁ first l₂ htr
    simp at htr
  · rintro tr s a s' es - ih - hs hless
    exact (ih hless.of_append).append (step_effect hs) hless

/-- While no header array is taken apart, responses can be sent again. -/
theorem sameLines_of_reach (h : Reach lib heap tr s) (hless : Headerless tr) :
    Each SameLines tr := by
  have heach : Each (fun past e => Headerless (past ++ [e]) → SameLines past e) tr := by
    refine h.each _ (fun s a s' es hs => (step_effect hs).length_le) ?_
    rintro past s a s' _ hrun hs hless sent rfl l₁ first l₂ hpast
    obtain ⟨-, res, hmade⟩ := (step_effect hs).sent_mem List.mem_cons_self
    have hfirst : .sent first ∈ past := by simp [hpast]
    obtain ⟨-, hstatus, hlines⟩ := sent_of_reach hrun first hfirst
    have hempty := hless sent (by simp)
    have hempty' := hless first (List.mem_append_left _ hfirst)
    have hsame : sent.headerLines = first.headerLines := by
      rw [hmade.headerLines, hlines, hempty, hempty']
    refine ⟨fun hres hwrote _ => ⟨?_, hsame⟩, fun _ _ _ _ => hsame⟩
    have hstill := still_of_reach hrun hless.of_append l₁ first l₂ hpast hwrote
    rw [hmade.statusLine, hstatus, ← hstill, ← hres, hmade.ref]
  intro l₁ e l₂ htr
  refine heach l₁ e l₂ htr (@Headerless.of_append _ l₂ ?_)
  rwa [List.append_assoc, List.cons_append, List.nil_append, ← htr]

/-- **The responses of a run are independent of each other exactly if all of them have empty header
arrays.** -/
theorem independent_iff (h : Reach lib heap tr s) : Independent tr ↔ Headerless tr := by
  constructor
  · rintro ⟨hunaltered, -⟩ sent hmem
    exact (sent_of_reach h sent hmem).1.1 (hunaltered sent hmem)
  · intro hless
    refine ⟨fun sent hmem => ?_, sameLines_of_reach h hless⟩
    exact (sent_of_reach h sent hmem).1.2 (hless sent hmem)

/-- Strings as they are, and no messages. -/
def plain : Library where
  interpolate
    | .string bytes => bytes
    | _ => []
  statusMessage _ := Scalar.undef

/-- The response `0` with the headers `1` and the body `2`. -/
def oneHeader : Heap
  | 0 => [.string (['2', '0', '0'].map byte), .array 1, .array 2]
  | 1 => [.string [byte 'A'], .string [byte 'b']]
  | _ => []

/-- The same without headers. -/
def noHeaders : Heap := update oneHeader 1 []

/-- Two requests that the application answers with the response `0`. -/
def twice : List Action :=
  let request := [.accept true, .returns (.array 0), .bodyDone, .finish]
  request ++ request

theorem isSome_exec_noHeaders : ((machine plain).exec ⟨noHeaders, .idle⟩ twice).isSome := by
  decide

theorem independent_iff_noHeaders : ∃ tr s, Reach plain noHeaders tr s ∧
    tr.countP (· = .finished) = 2 ∧ Independent tr := by
  have hrun := Machine.reach_exec isSome_exec_noHeaders
  exact ⟨_, _, hrun, by decide, (independent_iff hrun).2 (by decide)⟩

theorem isSome_exec_oneHeader : ((machine plain).exec ⟨oneHeader, .idle⟩ twice).isSome := by
  decide

/-- The first time. -/
def firstSent : Sent where
  res := 0
  headers := .array 1
  before := responseAt oneHeader 0
  after := responseAt noHeaders 0
  statusLine := statusLine plain (.string (['2', '0', '0'].map byte))
  headerLines := headerLine plain (.string [byte 'A']) (.string [byte 'b'])

/-- The second time. -/
def secondSent : Sent := { firstSent with before := responseAt noHeaders 0, headerLines := [] }

/-- The second response has lost its header. -/
theorem not_independent : ¬ ∀ (lib : Library) (heap : Heap) (tr : List Event) (s : State),
    Reach lib heap tr s → Independent tr := by
  intro h
  have hrun := Machine.reach_exec isSome_exec_oneHeader
  have htr : (Option.get _ isSome_exec_oneHeader).2 = [.accepted, .sent firstSent, .finished] ++
      [.accepted] ++ .sent secondSent :: [.finished] := by
    decide
  have hsame := (h plain oneHeader _ _ hrun).2 _ _ _ htr secondSent rfl [.accepted] firstSent
    [.finished, .accepted] rfl
  have hlines := (hsame.1 rfl (by decide) (by simp)).2
  revert hlines
  decide

end BladePSGI.Perl.FastCGIWrapper

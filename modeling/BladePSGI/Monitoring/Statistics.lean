import BladePSGI.Foundations.Text
import BladePSGI.Shmem.Step

/-!
# The statistics document

`BPSGIMonitoring::HandleClient` writes the start time, the worker statuses, the request counter and
the shared objects of the registry into one text. Nothing is escaped.

* `statistics_of_handleClient`: the text determines what it was built from, provided that no object
  has a newline in its name.
* `not_statistics_of_handleClient`: with a newline in a name one object can pass for two.
-/

namespace BladePSGI.Monitoring

open Shmem Text Transition

/-- `sem_getvalue`: the value of the semaphore at an address, `none` where the call fails. -/
abbrev SemGetvalue := Memory 64 → Offset → Option (BitVec 32)

/-- `BPSGISemaphore::Read`, `none` where it throws. -/
def semaphoreRead (semGetvalue : SemGetvalue) (segment : Memory 64) (sem : Object) :
    Option (BitVec 64) :=
  (semGetvalue segment sem.pointer).map (BitVec.signExtend 64)

/-- `BPSGIAtomicInt64::Read`. -/
def atomicRead (segment : Memory 64) (atm : Object) : BitVec 64 := segment.load64 atm.pointer

/-- `int64_to_string`. -/
def int64ToString (value : BitVec 64) : List Byte := signed value.toInt

/-- The line of an object. -/
def line (kind : List Char) (name : Name) (value : BitVec 64) : List Byte :=
  kind.map byte ++ name ++ [':', ' '].map byte ++ int64ToString value ++ [byte '\n']

/-- What `HandleClient` has appended for the semaphores, `none` where a `Read` throws. -/
def semaphoreLines (semGetvalue : SemGetvalue) (segment : Memory 64) :
    List Object → Option (List Byte)
  | [] => some []
  | sem :: sems =>
    match semaphoreRead semGetvalue segment sem with
    | none => none
    | some value =>
      (semaphoreLines semGetvalue segment sems).map (line ['s', 'e', 'm', ' '] sem.name value ++ ·)

/-- The text that `HandleClient` builds. -/
def handleClient (semGetvalue : SemGetvalue) (shmem : SharedMemory) (segment : Memory 64)
    (bladepsgiStartTime : BitVec 64) (workerStatusArray : List Byte) : Option (List Byte) :=
  match semaphoreLines semGetvalue segment shmem.semaphores with
  | none => none
  | some sems =>
    some (int64ToString bladepsgiStartTime ++ [byte '\n'] ++ workerStatusArray ++ [byte '\n'] ++
      int64ToString (readRequestCounter segment) ++ [byte '\n'] ++ [byte '\n'] ++ sems ++
      shmem.atomics.flatMap fun atm =>
        line ['a', 't', 'o', 'm', 'i', 'c', ' '] atm.name (atomicRead segment atm))

/-! ## The statistics -/

/-- What the document is about. -/
@[ext] structure Statistics where
  startTime : BitVec 64
  workerStatuses : List Byte
  requestCounter : BitVec 64
  semaphores : List (Name × BitVec 64)
  atomics : List (Name × BitVec 64)

/-- The names and values of the semaphores, `none` where a `Read` throws. -/
def semaphoreValues (semGetvalue : SemGetvalue) (segment : Memory 64) :
    List Object → Option (List (Name × BitVec 64))
  | [] => some []
  | sem :: sems =>
    match semaphoreRead semGetvalue segment sem with
    | none => none
    | some value => (semaphoreValues semGetvalue segment sems).map ((sem.name, value) :: ·)

/-- The names and values of the atomics. -/
def atomicValues (segment : Memory 64) (atomics : List Object) : List (Name × BitVec 64) :=
  atomics.map fun atm => (atm.name, atomicRead segment atm)

namespace Statistics

/-- The line of an object without the newline. -/
def entry (kind : List Char) (object : Name × BitVec 64) : List Byte :=
  kind.map byte ++ object.1 ++ [':', ' '].map byte ++ int64ToString object.2

/-- The lines of the objects. -/
def entries (statistics : Statistics) : List (List Byte) :=
  statistics.semaphores.map (entry ['s', 'e', 'm', ' ']) ++
    statistics.atomics.map (entry ['a', 't', 'o', 'm', 'i', 'c', ' '])

/-- The document. -/
def text (statistics : Statistics) : List Byte :=
  int64ToString statistics.startTime ++ byte '\n' :: (statistics.workerStatuses ++
    byte '\n' :: (int64ToString statistics.requestCounter ++ byte '\n' :: byte '\n' ::
      statistics.entries.flatMap (· ++ [byte '\n'])))

/-- No object has a newline in its name. -/
def OneLine (statistics : Statistics) : Prop :=
  ∀ object ∈ statistics.semaphores ++ statistics.atomics, byte '\n' ∉ object.1

variable {st st' : Statistics}

theorem int64ToString_injective : Function.Injective int64ToString :=
  fun _ _ h => BitVec.eq_of_toInt_eq (signed_injective h)

/-- A printed number contains no separator. -/
theorem notMem_int64ToString {value : BitVec 64} {b : Byte} (h : b = byte '\n' ∨ b = byte ':') :
    b ∉ int64ToString value := by
  intro hmem
  rcases mem_signed hmem with rfl | ⟨hlo, hhi⟩
  · revert h
    decide
  · rcases h with rfl | rfl
    · exact absurd hlo (by decide)
    · exact absurd hhi (by decide)

/-- **A line determines the name and the value.** The value starts behind the last colon. -/
theorem entry_injective (kind : List Char) : Function.Injective (entry kind) := by
  rintro ⟨name, value⟩ ⟨name', value'⟩ h
  have hcolon : ∀ value : BitVec 64, byte ':' ∉ byte ' ' :: int64ToString value := by
    intro value hmem
    rcases List.mem_cons.1 hmem with h | h
    · exact absurd h (by decide)
    · exact notMem_int64ToString (Or.inr rfl) h
  simp only [entry, List.append_assoc] at h
  have h := List.append_cancel_left h
  obtain ⟨rfl, hrest⟩ := append_cons_inj_last (hcolon value) (hcolon value') h
  rw [int64ToString_injective (List.cons_eq_cons.1 hrest).2]

theorem notMem_entry {kind : List Char} {object : Name × BitVec 64}
    (hkind : byte '\n' ∉ kind.map byte) (hname : byte '\n' ∉ object.1) :
    byte '\n' ∉ entry kind object := by
  have hsep : byte '\n' ∉ [':', ' '].map byte := by decide
  simp only [entry, List.mem_append, not_or]
  exact ⟨⟨⟨hkind, hname⟩, hsep⟩, notMem_int64ToString (Or.inl rfl)⟩

theorem notMem_entries (h : st.OneLine) : ∀ l ∈ st.entries, byte '\n' ∉ l := by
  intro l hl
  rcases List.mem_append.1 hl with hl | hl
  all_goals
    obtain ⟨object, hmem, rfl⟩ := List.mem_map.1 hl
    exact notMem_entry (by decide) (h object (by simp [hmem]))

/-- The lines determine the objects. -/
theorem entries_inj (h : st.entries = st'.entries) :
    st.semaphores = st'.semaphores ∧ st.atomics = st'.atomics := by
  refine map_append_map_inj (entry_injective _) (entry_injective _) (fun x y hxy => ?_) h
  exact absurd (List.cons_eq_cons.1 hxy).1 (by decide)

/-- **The document determines the statistics.** -/
theorem text_inj (hlen : st.workerStatuses.length = st'.workerStatuses.length) (hst : st.OneLine)
    (hst' : st'.OneLine) (h : st.text = st'.text) : st = st' := by
  obtain ⟨hstart, h⟩ := append_cons_inj_first (notMem_int64ToString (Or.inl rfl))
    (notMem_int64ToString (Or.inl rfl)) h
  obtain ⟨hstatuses, h⟩ := List.append_inj h hlen
  obtain ⟨hcounter, h⟩ := append_cons_inj_first (notMem_int64ToString (Or.inl rfl))
    (notMem_int64ToString (Or.inl rfl)) (List.cons_eq_cons.1 h).2
  obtain ⟨hsems, hatomics⟩ := entries_inj
    (flatMap_terminated_inj (notMem_entries hst) (notMem_entries hst') (List.cons_eq_cons.1 h).2)
  exact Statistics.ext (int64ToString_injective hstart) hstatuses (int64ToString_injective hcounter)
    hsems hatomics

end Statistics

/-! ## The document of a state -/

variable {semGetvalue : SemGetvalue} {shmem shmem' : SharedMemory} {segment segment' : Memory 64}

/-- The statistics of a state, `none` where a semaphore cannot be read. -/
def statistics (semGetvalue : SemGetvalue) (shmem : SharedMemory) (segment : Memory 64)
    (bladepsgiStartTime : BitVec 64) (workerStatusArray : List Byte) : Option Statistics :=
  (semaphoreValues semGetvalue segment shmem.semaphores).map fun semaphores =>
    { startTime := bladepsgiStartTime
      workerStatuses := workerStatusArray
      requestCounter := readRequestCounter segment
      semaphores
      atomics := atomicValues segment shmem.atomics }

theorem line_eq (kind : List Char) (name : Name) (value : BitVec 64) :
    line kind name value = Statistics.entry kind (name, value) ++ [byte '\n'] := rfl

theorem semaphoreLines_eq (sems : List Object) :
    semaphoreLines semGetvalue segment sems =
      (semaphoreValues semGetvalue segment sems).map fun values =>
        (values.map (Statistics.entry ['s', 'e', 'm', ' '])).flatMap (· ++ [byte '\n']) := by
  induction sems with
  | nil => rfl
  | cons sem sems ih =>
    rw [semaphoreLines, semaphoreValues]
    cases semaphoreRead semGetvalue segment sem with
    | none => rfl
    | some value =>
      dsimp only
      rw [ih, Option.map_map, Option.map_map]
      rfl

/-- `HandleClient` writes the document of the statistics. -/
theorem handleClient_eq (bladepsgiStartTime : BitVec 64) (workerStatusArray : List Byte) :
    handleClient semGetvalue shmem segment bladepsgiStartTime workerStatusArray =
      (statistics semGetvalue shmem segment bladepsgiStartTime workerStatusArray).map
        Statistics.text := by
  rw [handleClient, semaphoreLines_eq, statistics]
  cases semaphoreValues semGetvalue segment shmem.semaphores with
  | none => rfl
  | some values =>
    simp only [Option.map_some, Statistics.text, Statistics.entries, atomicValues, line_eq,
      List.flatMap_append, List.flatMap_map, List.append_assoc, List.cons_append, List.nil_append]

/-- The names of the values are names of semaphores. -/
theorem name_of_mem_semaphoreValues {sems : List Object} {values : List (Name × BitVec 64)}
    (h : semaphoreValues semGetvalue segment sems = some values) {value : Name × BitVec 64}
    (hmem : value ∈ values) : ∃ sem ∈ sems, sem.name = value.1 := by
  induction sems generalizing values with
  | nil =>
    obtain rfl := Option.some.inj h
    simp at hmem
  | cons sem sems ih =>
    rw [semaphoreValues] at h
    split at h
    · cases h
    · obtain ⟨rest, hrest, rfl⟩ := Option.map_eq_some_iff.1 h
      rcases List.mem_cons.1 hmem with rfl | hmem
      · exact ⟨sem, List.mem_cons_self, rfl⟩
      · obtain ⟨other, hother, hname⟩ := ih hrest hmem
        exact ⟨other, List.mem_cons_of_mem _ hother, hname⟩

/-- No object of the registry has a newline in its name. -/
def OneLineNames (shmem : SharedMemory) : Prop :=
  ∀ kind, ∀ object ∈ shmem.objects kind, byte '\n' ∉ object.name

theorem oneLine_of_statistics {start : BitVec 64} {statuses : List Byte} {st : Statistics}
    (hnames : OneLineNames shmem)
    (h : statistics semGetvalue shmem segment start statuses = some st) : st.OneLine := by
  obtain ⟨values, hvalues, rfl⟩ := Option.map_eq_some_iff.1 h
  intro object hmem
  rcases List.mem_append.1 hmem with hmem | hmem
  · obtain ⟨sem, hsem, hname⟩ := name_of_mem_semaphoreValues hvalues hmem
    exact hname ▸ hnames .semaphore sem hsem
  · obtain ⟨atm, hatm, rfl⟩ := List.mem_map.1 hmem
    exact hnames .atomic atm hatm

/-- **The document of a state determines its statistics**, unless a name contains a newline. -/
theorem statistics_of_handleClient {start start' : BitVec 64} {statuses statuses' text : List Byte}
    (hnames : OneLineNames shmem) (hnames' : OneLineNames shmem')
    (hlen : statuses.length = statuses'.length)
    (h : handleClient semGetvalue shmem segment start statuses = some text)
    (h' : handleClient semGetvalue shmem' segment' start' statuses' = some text) :
    start = start' ∧ statuses = statuses' ∧
      readRequestCounter segment = readRequestCounter segment' ∧
      semaphoreValues semGetvalue segment shmem.semaphores =
        semaphoreValues semGetvalue segment' shmem'.semaphores ∧
      atomicValues segment shmem.atomics = atomicValues segment' shmem'.atomics := by
  rw [handleClient_eq] at h h'
  obtain ⟨st, hst, htext⟩ := Option.map_eq_some_iff.1 h
  obtain ⟨st', hst', htext'⟩ := Option.map_eq_some_iff.1 h'
  have heq : st = st' := by
    refine Statistics.text_inj ?_ (oneLine_of_statistics hnames hst)
      (oneLine_of_statistics hnames' hst') (htext.trans htext'.symm)
    obtain ⟨_, -, rfl⟩ := Option.map_eq_some_iff.1 hst
    obtain ⟨_, -, rfl⟩ := Option.map_eq_some_iff.1 hst'
    exact hlen
  obtain ⟨values, hvalues, rfl⟩ := Option.map_eq_some_iff.1 hst
  obtain ⟨values', hvalues', rfl⟩ := Option.map_eq_some_iff.1 hst'
  injection heq with hstart hstatuses hcounter hsems hatomics
  exact ⟨hstart, hstatuses, hcounter, by rw [hvalues, hvalues', hsems], hatomics⟩

/-- `sem_getvalue` of a semaphore that keeps its value in its first four bytes. -/
def firstBytes : SemGetvalue := fun segment sem => some ((segment.load64 sem).extractLsb' 0 32)

/-- The runner creates objects; `sem_init` leaves the value one behind. -/
def creating (calls : List Call) : List Action :=
  calls.map fun call => .create 0 call (.ok fun j => if j = 0 then 1 else 0)

/-- The document after a list of creations. -/
def documentOf (calls : List Call) : Option (List Byte) :=
  ((machine 1).exec (init fun _ => 0) (creating calls)).bind fun out =>
    (out.1.processes 0).bind fun shmem => handleClient firstBytes shmem out.1.segment 5 [byte '.']

/-- A semaphore and an atomic with a negative value. -/
def named : List Call :=
  [.newSemaphore (['a', ':', ' ', 's'].map byte) 1, .newAtomicInt64 [byte 'b'] (-7)]

example : documentOf named =
    some ("5\n.\n0\n\nsem a: s: 1\natomic b: -7\n".toList.map byte) := by
  decide +kernel

theorem isSome_exec_named : ((machine 1).exec (init fun _ => 0) (creating named)).isSome := by
  decide

theorem isSome_exec_named_reverse :
    ((machine 1).exec (init fun _ => 0) (creating named.reverse)).isSome := by
  decide

/-- The two creations in either order. -/
theorem statistics_of_handleClient_named : ∃ tr tr' s s' shmem shmem' text,
    Reach 1 (fun _ => 0) tr s ∧ Reach 1 (fun _ => 0) tr' s' ∧
    s.processes 0 = some shmem ∧ s'.processes 0 = some shmem' ∧ shmem ≠ shmem' ∧
    handleClient firstBytes shmem s.segment 5 [byte '.'] = some text ∧
    handleClient firstBytes shmem' s'.segment 5 [byte '.'] = some text ∧
    atomicValues s.segment shmem.atomics = atomicValues s'.segment shmem'.atomics := by
  let s := (Option.get _ isSome_exec_named).1
  let s' := (Option.get _ isSome_exec_named_reverse).1
  let shmem := (s.processes 0).get (by decide)
  let shmem' := (s'.processes 0).get (by decide)
  have hp : s.processes 0 = some shmem := (Option.some_get _).symm
  have hp' : s'.processes 0 = some shmem' := (Option.some_get _).symm
  let text := (handleClient firstBytes shmem s.segment 5 [byte '.']).get (by decide)
  have htext : handleClient firstBytes shmem s.segment 5 [byte '.'] = some text :=
    (Option.some_get _).symm
  have htext' : handleClient firstBytes shmem' s'.segment 5 [byte '.'] = some text := by
    decide +kernel
  have hnames : OneLineNames shmem := by
    intro kind
    cases kind <;> decide
  have hnames' : OneLineNames shmem' := by
    intro kind
    cases kind <;> decide
  exact ⟨_, _, s, s', shmem, shmem', text, Machine.reach_exec isSome_exec_named,
    Machine.reach_exec isSome_exec_named_reverse, hp, hp', by decide, htext, htext',
    (statistics_of_handleClient hnames hnames' rfl htext htext').2.2.2.2⟩

/-- Two atomics. -/
def twoAtomics : List Call := [.newAtomicInt64 [byte 'a'] 1, .newAtomicInt64 [byte 'b'] 2]

/-- One atomic that looks like them. -/
def oneAtomic : List Call :=
  [.newAtomicInt64 ("a: 1\natomic b".toList.map byte) 2]

theorem isSome_exec_twoAtomics :
    ((machine 1).exec (init fun _ => 0) (creating twoAtomics)).isSome := by
  decide

theorem isSome_exec_oneAtomic :
    ((machine 1).exec (init fun _ => 0) (creating oneAtomic)).isSome := by
  decide +kernel

/-- One document for one atomic and for two. -/
theorem not_statistics_of_handleClient : ¬ ∀ (semGetvalue : SemGetvalue) (nworkers : ℕ)
    (mapping mapping' : Memory 64) (tr tr' : List Event) (s s' : State) (process process' : ℕ)
    (shmem shmem' : SharedMemory) (start start' : BitVec 64) (statuses statuses' text : List Byte),
    Reach nworkers mapping tr s → Reach nworkers mapping' tr' s' →
    s.processes process = some shmem → s'.processes process' = some shmem' →
    (∀ kind, ∀ object ∈ shmem.objects kind, 0 ∉ object.name) →
    (∀ kind, ∀ object ∈ shmem'.objects kind, 0 ∉ object.name) →
    statuses.length = nworkers → statuses'.length = nworkers →
    handleClient semGetvalue shmem s.segment start statuses = some text →
    handleClient semGetvalue shmem' s'.segment start' statuses' = some text →
    start = start' ∧ statuses = statuses' ∧
      readRequestCounter s.segment = readRequestCounter s'.segment ∧
      semaphoreValues semGetvalue s.segment shmem.semaphores =
        semaphoreValues semGetvalue s'.segment shmem'.semaphores ∧
      atomicValues s.segment shmem.atomics = atomicValues s'.segment shmem'.atomics := by
  intro h
  let s := (Option.get _ isSome_exec_twoAtomics).1
  let s' := (Option.get _ isSome_exec_oneAtomic).1
  let shmem := (s.processes 0).get (by decide)
  let shmem' := (s'.processes 0).get (by decide +kernel)
  let text := (handleClient firstBytes shmem s.segment 5 [byte '.']).get (by decide)
  have hsame := h firstBytes 1 _ _ _ _ s s' 0 0 shmem shmem' 5 5 [byte '.'] [byte '.'] text
    (Machine.reach_exec isSome_exec_twoAtomics) (Machine.reach_exec isSome_exec_oneAtomic)
    (Option.some_get _).symm (Option.some_get _).symm
    (fun kind => by cases kind <;> decide +kernel) (fun kind => by cases kind <;> decide +kernel)
    rfl rfl (Option.some_get _).symm (by decide +kernel)
  have hlength := congrArg List.length hsame.2.2.2.2
  revert hlength
  decide +kernel

end BladePSGI.Monitoring

import BladePSGI.Shmem.Allocation

/-!
# The header of the segment

The exit flag and the request counter have the first 16 bytes of the segment, and no function but
their own writes there.

* `sameHeader_of_outside`: a change of the objects or of the status array leaves the header alone.
* `Frozen`: what the loader leaves to the processes that are forked.
* `exists_frozen`: it does, unless the offset of the allocator can have wrapped.
-/

namespace BladePSGI.Shmem

open Function Transition

variable {nworkers : ℕ} {mapping segment segment' segment'' : Memory 64} {s s' : State}
  {tr es : List Event} {a : Action}

/-- The memories agree on the header. -/
def SameHeader (segment segment' : Memory 64) : Prop :=
  ∀ a : Offset, a.toNat < 16 → segment' a = segment a

namespace SameHeader

theorem refl (segment : Memory 64) : SameHeader segment segment := fun _ _ => rfl

theorem trans (h : SameHeader segment segment') (h' : SameHeader segment' segment'') :
    SameHeader segment segment'' :=
  fun a ha => (h' a ha).trans (h a ha)

theorem flag (h : SameHeader segment segment') :
    segment' shouldExitImmediatelyOff = segment shouldExitImmediatelyOff :=
  h _ (by decide)

theorem counter (h : SameHeader segment segment') :
    readRequestCounter segment' = readRequestCounter segment := by
  refine Memory.load64_congr (by decide) fun a ha => h a ?_
  have hoff : requestCounterOff.toNat = 8 := rfl
  rw [Block.mem_iff, BitVec.toNat_sub] at ha
  dsimp only at ha
  have := a.isLt
  omega

end SameHeader

/-- **A change behind the header leaves it alone.** -/
theorem sameHeader_of_outside {b : Block 64} (hlow : 16 ≤ b.base.toNat)
    (hhigh : b.base.toNat + b.size ≤ 2 ^ 64) (h : SameOutside b segment segment') :
    SameHeader segment segment' := by
  intro a ha
  refine h a fun hmem => ?_
  rw [Block.mem_iff, BitVec.toNat_sub] at hmem
  omega

theorem sameHeader_setWorkerStatus {i : ℕ} (hi : i < 65536) (status : Byte) :
    SameHeader segment (setWorkerStatus segment i status) := by
  have hptr := toNat_workerStatusPointer hi
  refine sameHeader_of_outside (b := ⟨workerStatusPointer i, 1⟩) ?_ ?_ sameOutside_write
  · dsimp only
    omega
  · dsimp only
    omega

/-- The place of an object between the header and the status array. -/
def Object.InUserArea (object : Object) (kind : Kind) : Prop :=
  16 ≤ object.pointer.toNat ∧ object.pointer.toNat + kind.size ≤ 2048

theorem Object.InUserArea.sameHeader {object : Object} {kind : Kind}
    (h : object.InUserArea kind) (bytes : ℕ → Byte) :
    SameHeader segment (segment.write (object.block kind) bytes) := by
  refine sameHeader_of_outside h.1 ?_ sameOutside_write
  exact Nat.le_trans h.2 (by decide)

/-! ## The functions of the header -/

theorem flag_setShouldExitImmediately :
    (setShouldExitImmediately segment).1 shouldExitImmediatelyOff = 1 := by
  show segment.write ⟨shouldExitImmediatelyOff, 1⟩ (fun _ => 1) shouldExitImmediatelyOff = 1
  exact Memory.write_of_mem (by decide)

theorem counter_setShouldExitImmediately :
    readRequestCounter (setShouldExitImmediately segment).1 = readRequestCounter segment := by
  refine Memory.load64_congr (by decide) fun a ha => setShouldExitImmediately_of_notMem ?_
  intro hmem
  rw [Block.mem_one_iff] at hmem
  subst hmem
  exact absurd ha (by decide)

theorem flag_increaseRequestCounter :
    (increaseRequestCounter segment).1 shouldExitImmediatelyOff =
      segment shouldExitImmediatelyOff := by
  have hout : shouldExitImmediatelyOff ∉ (⟨requestCounterOff, 8⟩ : Block 64) := by decide
  exact Memory.store64_of_notMem (m := segment) (v := segment.load64 requestCounterOff + 1) hout

theorem counter_increaseRequestCounter :
    readRequestCounter (increaseRequestCounter segment).1 = readRequestCounter segment + 1 :=
  Memory.load64_store64 (by decide)

/-! ## What the loader leaves -/

/-- The registry and the segment at the first `fork`: the allocations are locked, the objects are
in the user area, and the header is zero. -/
structure Frozen where
  shmem : SharedMemory
  segment : Memory 64
  locked : shmem.locked = true
  inUserArea : ∀ kind, ∀ object ∈ shmem.objects kind, object.InUserArea kind
  flag : segment shouldExitImmediatelyOff = 0
  counter : readRequestCounter segment = 0

theorem Ledger.inUserArea {shmem : SharedMemory} (hl : Ledger tr shmem) {kind : Kind}
    {object : Object} (h : object ∈ shmem.objects kind) : object.InUserArea kind := by
  rw [hl.objects] at h
  obtain ⟨⟨kind', object'⟩, hmem, heq⟩ := List.mem_filterMap.1 h
  dsimp only at heq
  split_ifs at heq with hkind
  obtain rfl := Option.some.inj heq
  subst hkind
  exact ⟨(hl.blocks _ hmem).2.1, (hl.blocks _ hmem).2.2.2⟩

/-- The object that a creation makes is in the user area. -/
theorem Ledger.sameHeader {shmem : SharedMemory} (hl : Ledger tr shmem)
    (hn : attempts tr < 2 ^ 58) {kind : Kind}
    (hlt : (shmem.bump kind.size).nextUserAvailableOffset < workerStatusArrayOff)
    (hout : SameOutside ⟨shmem.nextUserAvailableOffset, kind.size⟩ segment segment') :
    SameHeader segment segment' := by
  have hbound := hl.bound
  obtain ⟨hpast, -⟩ := toNat_bump kind hl.aligned (by omega)
  have hoff : workerStatusArrayOff.toNat = 2048 := rfl
  rw [BitVec.lt_def, hoff] at hlt
  refine sameHeader_of_outside hl.low ?_ hout
  dsimp only
  omega

/-- Nobody has called a function of the header. -/
def HeaderUnused (tr : List Event) : Prop :=
  (∀ before, .requestCounted before ∉ tr) ∧ ∀ changed, .setShouldExit changed ∉ tr

theorem sameHeader_step (hr : Registry tr s) (hn : attempts tr < 2 ^ 58)
    (hworkers : nworkers ≤ 65536) (h : Step nworkers s a s' es) (hes : HeaderUnused es) :
    SameHeader s.segment s'.segment := by
  obtain ⟨root, -, -, hl, hall⟩ := hr.ledger
  have hledger := hl hn
  cases h with
  | create hp hc =>
    obtain ⟨rfl, -⟩ := hall _ _ hp
    cases hc with
    | refused | exhausted => exact .refl _
    | initFails _ _ hlt hout | created _ _ hlt hout => exact hledger.sameHeader hn hlt hout
  | setWorkerStatus hi => exact sameHeader_setWorkerStatus (Nat.lt_of_lt_of_le hi hworkers) _
  | increaseRequestCounter => exact absurd List.mem_cons_self (hes.1 _)
  | setShouldExitImmediately => exact absurd List.mem_cons_self (hes.2 _)
  | update hp hobject =>
    obtain ⟨rfl, -⟩ := hall _ _ hp
    exact (hledger.inUserArea hobject).sameHeader _
  | _ => exact .refl _

/-- Until somebody calls a function of the header, it is zero. -/
theorem sameHeader_of_reach (hworkers : nworkers ≤ 65536) (h : Reach nworkers mapping tr s)
    (hn : attempts tr < 2 ^ 58) (htr : HeaderUnused tr) :
    SameHeader (clear mapping) s.segment := by
  refine h.invariant (fun tr s => attempts tr < 2 ^ 58 → HeaderUnused tr →
    SameHeader (clear mapping) s.segment) (fun _ _ => .refl _) ?_ hn htr
  intro tr s a s' es hreach ih _ hs hn htr
  rw [attempts_append] at hn
  have hn' : attempts tr < 2 ^ 58 := by omega
  have htr' : HeaderUnused tr :=
    ⟨fun before hmem => htr.1 before (List.mem_append_left es hmem),
      fun changed hmem => htr.2 changed (List.mem_append_left es hmem)⟩
  have hes : HeaderUnused es :=
    ⟨fun before hmem => htr.1 before (List.mem_append_right tr hmem),
      fun changed hmem => htr.2 changed (List.mem_append_right tr hmem)⟩
  exact (ih hn' htr').trans
    (sameHeader_step (registry_of_reach hreach) hn' hworkers (step_cases hs) hes)

/-- **What the loader leaves** once it has locked the allocations. -/
theorem exists_frozen (hworkers : nworkers ≤ 65536) (h : Reach nworkers mapping tr s)
    (hn : attempts tr < 2 ^ 58) (htr : HeaderUnused tr) (hlocked : .locked ∈ tr) :
    ∃ frozen : Frozen, s.processes 0 = some frozen.shmem ∧ frozen.segment = s.segment := by
  have hr := registry_of_reach h
  obtain ⟨root, h₀, hlock, hl, -⟩ := hr.ledger
  have hsame := sameHeader_of_reach hworkers h hn htr
  have hclear : ∀ a : Offset, a.toNat < 16 → clear mapping a = 0 := by
    intro a ha
    refine Memory.write_of_mem ?_
    rw [Block.mem_iff, BitVec.toNat_sub]
    dsimp only
    rw [shmemSize]
    have hzero : (0 : BitVec 64).toNat = 0 := rfl
    omega
  have hcounter : readRequestCounter (clear mapping) = 0 := by
    have hzero : SameHeader (fun _ => 0) (clear mapping) := hclear
    exact hzero.counter
  exact ⟨⟨root, s.segment, hlock.trans (hr.locked hlocked), fun _ _ => (hl hn).inUserArea,
    hsame.flag.trans (hclear _ (by decide)), hsame.counter.trans hcounter⟩, h₀, rfl⟩

end BladePSGI.Shmem

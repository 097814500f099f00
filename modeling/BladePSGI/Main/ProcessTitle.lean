import BladePSGI.Main.Arguments
import BladePSGI.Main.Startup

/-!
# The process title

`SetProcessTitle` writes the title over the words of the command line. How many of them it may take
it finds out by following `argv_`, which `getopt_long` may have reordered, as long as the next word
is directly behind the last one; if the environment is directly behind all of them, it makes as if
the title ran into it.

* `walk_eq`: the walk ends at the end of some word.
* `titled_setProcessTitle`: the title stays among the words and reads back.
* `undisturbed_iff`: when the path of the application, which is one of these words, survives.
-/

namespace BladePSGI.Main

open CString Text

/-! ## `SetProcessTitle` -/

/-- The loop: how far the words go on, from the end of one of them. -/
def walk (m : List Byte) : ℕ → List ℕ → ℕ
  | stop, [] => stop
  | stop, p :: argv => if stop + 1 = p then walk m (p + strlen m p) argv else stop

/-- `resize`, with NULs. -/
def resize (s : List Byte) (n : ℕ) : List Byte := s.take n ++ List.replicate (n - s.length) 0#8

/-- The title, before it is cut. -/
def fullTitle (processTitlePrefix value : CString) : List Byte :=
  processTitlePrefix.bytes ++ bytes ": " ++ value.bytes

/-- What `SetProcessTitle` leaves. -/
structure TitleResult where
  memory : List Byte
  /-- `maxlen`, as the difference of pointers that is assigned to it. -/
  maxlen : ℤ
  /-- The string for `prctl(PR_SET_NAME)`. -/
  name : List Byte
  thrown : Option Exception

/-- `SetProcessTitle` after the loop, for the words from `argv0` to `stop`. A `prctl` that fails
does so with the error `prctl`. -/
def writeTitle (m : List Byte) (argv0 stop : ℕ) (environ : List ℕ)
    (processTitlePrefix value : CString) (prctl : Option String) : TitleResult :=
  let atEnvironment : Bool := environ.head? = some (stop + 1)
  let maxlen : ℤ := if atEnvironment then stop - argv0 - 1 else stop - argv0
  let m := if atEnvironment then overwrite m stop [byte ' '] else m
  let size := (maxlen % 2 ^ 64).toNat
  let title := fullTitle processTitlePrefix value
  let newTitle := resize (title.take size) ((size + 1) % 2 ^ 64)
  { memory := overwrite m argv0 newTitle
    maxlen
    name := title
    thrown := prctl.map (.syscall "prctl") }

/-- `SetProcessTitle`, with the pointers `argv0 :: argv` and `environ`. -/
def setProcessTitle (m : List Byte) (argv0 : ℕ) (argv environ : List ℕ)
    (processTitlePrefix value : CString) (prctl : Option String) : TitleResult :=
  writeTitle m argv0 (walk m (argv0 + strlen m argv0) argv) environ processTitlePrefix value prctl

/-! ## The words in memory -/

/-- The memory that the title is written to: the words of the command line one behind the other, in
the order they were given, and the pointers as `getopt_long` leaves them. -/
structure ArgumentArea where
  before : List Byte
  words : List CString
  behind : List Byte
  five_le : 5 ≤ words.length
  size_lt : (stored words).length < 2 ^ 64
  /-- The words that `argv_[1]`, `argv_[2]` and so on point to. -/
  order : List ℕ
  order_perm : order.Perm (List.range' 1 (words.length - 1))
  environ : List ℕ
  /-- The environment is elsewhere. -/
  environ_outside : ∀ p, environ.head? = some p →
    p < before.length ∨ before.length + (stored words).length ≤ p

namespace ArgumentArea

variable (area : ArgumentArea)

def memory : List Byte := area.before ++ (stored area.words ++ area.behind)

/-- Where word `k` is. -/
def pointer (k : ℕ) : ℕ := area.before.length + offset area.words k

def setProcessTitle (processTitlePrefix value : CString) (prctl : Option String) : TitleResult :=
  Main.setProcessTitle area.memory (area.pointer 0) (area.order.map area.pointer) area.environ
    processTitlePrefix value prctl

variable {area} {k : ℕ} {ks : List ℕ}

theorem pointer_zero : area.pointer 0 = area.before.length := rfl

theorem pointer_add_strlen {s : CString} (h : area.words[k]? = some s) :
    area.pointer k + strlen area.memory (area.pointer k) + 1 = area.pointer (k + 1) := by
  rw [strlen, memory, pointer, read_stored h, pointer, offset_succ h]
  omega

theorem pointer_inj {j : ℕ} (hj : j ≤ area.words.length) (hk : k ≤ area.words.length)
    (h : area.pointer j = area.pointer k) : j = k := by
  rcases Nat.lt_trichotomy j k with hlt | heq | hlt
  · have := offset_lt_offset hlt hk
    unfold pointer at h
    omega
  · exact heq
  · have := offset_lt_offset hlt hj
    unfold pointer at h
    omega

/-- **The walk ends at the end of a word.** -/
theorem walk_eq {stop : ℕ} (hk : k ≤ area.words.length) (hstop : stop + 1 = area.pointer k)
    (hks : ∀ j ∈ ks, j < area.words.length) :
    ∃ n, k ≤ n ∧ n ≤ area.words.length ∧
      walk area.memory stop (ks.map area.pointer) + 1 = area.pointer n := by
  induction ks generalizing k stop with
  | nil => exact ⟨k, le_rfl, hk, hstop⟩
  | cons j ks ih =>
    rw [List.map_cons, walk]
    split_ifs with hj
    · have hjk : j = k := pointer_inj (hks j List.mem_cons_self).le hk (hj.symm.trans hstop)
      subst hjk
      have hlt : j < area.words.length := hks j List.mem_cons_self
      obtain ⟨n, hn, hle, hwalk⟩ := ih hlt (pointer_add_strlen (List.getElem?_eq_getElem hlt))
        fun i hi => hks i (List.mem_cons_of_mem _ hi)
      exact ⟨n, by omega, hle, hwalk⟩
    · exact ⟨k, le_rfl, hk, hstop⟩

/-! ## What is written -/

theorem length_resize (s : List Byte) (n : ℕ) : (resize s n).length = n := by
  simp only [resize, List.length_append, List.length_take, List.length_replicate]
  omega

/-- The cut title with a NUL behind it, and more of them up to the capacity. -/
theorem resize_take (s : List Byte) (c : ℕ) :
    ∃ nuls, resize (s.take c) (c + 1) = s.take c ++ 0#8 :: nuls := by
  refine ⟨List.replicate (c - (s.take c).length) 0#8, ?_⟩
  have hle : (s.take c).length ≤ c := List.length_take_le c s
  rw [resize, List.take_of_length_le (by omega), Nat.succ_sub hle, List.replicate_succ]

theorem le_offset_length : 5 ≤ offset area.words area.words.length := by
  have hadd := @offset_add_le area.words area.words.length 0 (by omega)
  rw [Nat.zero_add] at hadd
  have := area.five_le
  omega

/-- An environment behind the walk is behind all the words. -/
theorem eq_length_of_environ {n : ℕ} (hn : n ≤ area.words.length)
    (h : area.environ.head? = some (area.pointer n)) : n = area.words.length := by
  rcases Nat.lt_or_ge n area.words.length with hlt | hge
  · have hoffset := offset_lt_offset hlt le_rfl
    rw [offset_length] at hoffset
    rcases area.environ_outside _ h with hbefore | hbehind
    · unfold pointer at hbefore
      omega
    · unfold pointer at hbehind
      omega
  · omega

/-- The byte in front of `stop`, which is the last one of the words, becomes a blank. -/
theorem overwrite_stop {stop : ℕ} (h : stop + 1 = area.pointer area.words.length) :
    overwrite area.memory stop [byte ' '] =
      area.before ++ ((stored area.words).dropLast ++ (byte ' ' :: area.behind)) := by
  have hpos : 0 < (stored area.words).length := by
    have := @le_offset_length area
    rw [offset_length] at this
    omega
  rw [pointer, offset_length] at h
  have hstop : stop = (area.before ++ (stored area.words).dropLast).length := by
    rw [List.length_append, List.length_dropLast]
    omega
  have hmemory : area.memory = (area.before ++ (stored area.words).dropLast) ++
      ([(stored area.words).getLast (List.ne_nil_of_length_pos hpos)] ++ area.behind) := by
    rw [memory, List.append_assoc, ← List.append_assoc (stored area.words).dropLast,
      List.dropLast_append_getLast]
  have hone : [byte ' '].length =
      [(stored area.words).getLast (List.ne_nil_of_length_pos hpos)].length := rfl
  rw [hmemory, hstop, overwrite_append hone, List.append_assoc]
  rfl

/-- The title that is written, if the room for it has `c` bytes. -/
theorem memory_writeTitle {m : List Byte} {argv0 stop c : ℕ} {environ : List ℕ}
    {processTitlePrefix value : CString} {prctl : Option String}
    (hmaxlen : (writeTitle m argv0 stop environ processTitlePrefix value prctl).maxlen = c)
    (hc : c + 1 < 2 ^ 64) :
    (writeTitle m argv0 stop environ processTitlePrefix value prctl).memory =
      overwrite (if environ.head? = some (stop + 1) then overwrite m stop [byte ' '] else m) argv0
        (resize ((fullTitle processTitlePrefix value).take c) (c + 1)) := by
  have hsize : ((c : ℤ) % 2 ^ 64).toNat = c := by omega
  have hsize' : (c + 1) % 2 ^ 64 = c + 1 := by omega
  simp only [writeTitle, decide_eq_true_eq] at hmaxlen ⊢
  rw [hmaxlen, hsize, hsize']

/-- **What `SetProcessTitle` does** if the walk ends behind `n` words: the title with its NULs, and
behind it the words that are left, or a blank. -/
theorem writeTitle_eq {n stop : ℕ} (hpos : 0 < n) (hn : n ≤ area.words.length)
    (hstop : stop + 1 = area.pointer n) (processTitlePrefix value : CString)
    (prctl : Option String) :
    ∃ (c : ℕ) (rest : List Byte),
      (writeTitle area.memory (area.pointer 0) stop area.environ processTitlePrefix value
        prctl).maxlen = c ∧
      (writeTitle area.memory (area.pointer 0) stop area.environ processTitlePrefix value
        prctl).memory = area.before ++
        (resize ((fullTitle processTitlePrefix value).take c) (c + 1) ++ (rest ++ area.behind)) ∧
      (c + 1 = offset area.words n ∧ rest = stored (area.words.drop n) ∨
        n = area.words.length ∧ c + 2 = offset area.words n ∧ rest = [byte ' ']) := by
  have hoffset : 0 < offset area.words n := offset_lt_offset hpos hn
  have hsplit : stored area.words = stored (area.words.take n) ++ stored (area.words.drop n) := by
    rw [← stored_append, List.take_append_drop]
  have htotal : offset area.words n ≤ (stored area.words).length := by
    rw [hsplit, List.length_append]
    exact Nat.le_add_right ..
  have hsize := area.size_lt
  have hstop' : stop + 1 = area.before.length + offset area.words n := hstop
  by_cases henviron : area.environ.head? = some (stop + 1)
  · have hlength : n = area.words.length := eq_length_of_environ hn (hstop ▸ henviron)
    have hfive : 5 ≤ offset area.words n := hlength ▸ le_offset_length
    have hmaxlen : (writeTitle area.memory (area.pointer 0) stop area.environ processTitlePrefix
        value prctl).maxlen = (offset area.words n - 2 : ℕ) := by
      simp only [writeTitle, henviron, decide_true, if_true, pointer_zero]
      omega
    have hold : ∀ title : List Byte, (resize title (offset area.words n - 2 + 1)).length =
        (stored area.words).dropLast.length := by
      intro title
      rw [length_resize, List.length_dropLast, ← offset_length, ← hlength]
      omega
    refine ⟨_, [byte ' '], hmaxlen, ?_, .inr ⟨hlength, by omega, rfl⟩⟩
    rw [memory_writeTitle hmaxlen (by omega), if_pos henviron, overwrite_stop (hlength ▸ hstop),
      pointer_zero, overwrite_append (hold _)]
    rfl
  · have hmaxlen : (writeTitle area.memory (area.pointer 0) stop area.environ processTitlePrefix
        value prctl).maxlen = (offset area.words n - 1 : ℕ) := by
      simp only [writeTitle, henviron, decide_false, Bool.false_eq_true, if_false, pointer_zero]
      omega
    have hold : ∀ title : List Byte, (resize title (offset area.words n - 1 + 1)).length =
        (stored (area.words.take n)).length := by
      intro title
      rw [length_resize, ← offset]
      omega
    refine ⟨_, stored (area.words.drop n), hmaxlen, ?_, .inl ⟨by omega, rfl⟩⟩
    rw [memory_writeTitle hmaxlen (by omega), if_neg henviron, memory, hsplit, List.append_assoc,
      pointer_zero, overwrite_append (hold _)]

theorem order_lt : ∀ j ∈ area.order, j < area.words.length := by
  intro j hj
  have hmem := area.order_perm.subset hj
  rw [List.mem_range'_1] at hmem
  omega

/-- The walk from the name of the program. -/
theorem exists_walk_eq : ∃ n, 0 < n ∧ n ≤ area.words.length ∧
    walk area.memory (area.pointer 0 + strlen area.memory (area.pointer 0))
      (area.order.map area.pointer) + 1 = area.pointer n := by
  have hlt : 0 < area.words.length := by
    have := area.five_le
    omega
  exact walk_eq hlt (pointer_add_strlen (List.getElem?_eq_getElem hlt)) order_lt

theorem nul_notMem_fullTitle (processTitlePrefix value : CString) :
    0#8 ∉ fullTitle processTitlePrefix value := by
  have hsep : 0#8 ∉ bytes ": " := by decide
  simp only [fullTitle, List.mem_append, not_or]
  exact ⟨⟨processTitlePrefix.nul_notMem, hsep⟩, value.nul_notMem⟩

/-- The first address behind the words. -/
def stop (area : ArgumentArea) : ℕ := area.before.length + (stored area.words).length

/-- The title `title` has been written to the words, as far as there is room, and to nothing
else. -/
structure Titled (area : ArgumentArea) (title : List Byte) (result : TitleResult) : Prop where
  maxlen_nonneg : 0 ≤ result.maxlen
  unchanged : ∀ p, p < area.pointer 0 ∨ area.stop ≤ p → result.memory[p]? = area.memory[p]?
  read_eq : read result.memory (area.pointer 0) = title.take result.maxlen.toNat
  nul : area.pointer 0 + (title.take result.maxlen.toNat).length < area.stop ∧
    result.memory[area.pointer 0 + (title.take result.maxlen.toNat).length]? = some 0#8

theorem getElem?_middle {l old new r : List Byte} (h : new.length = old.length) {p : ℕ}
    (hp : p < l.length ∨ l.length + old.length ≤ p) :
    (l ++ (new ++ r))[p]? = (l ++ (old ++ r))[p]? := by
  rcases hp with hp | hp
  · rw [List.getElem?_append_left hp, List.getElem?_append_left hp]
  · rw [List.getElem?_append_right (by omega), List.getElem?_append_right (by omega),
      List.getElem?_append_right (by omega), List.getElem?_append_right (by omega), h]

/-- The new bytes are as many as the old ones. -/
theorem length_written {n c : ℕ} {title rest : List Byte}
    (h : c + 1 = offset area.words n ∧ rest = stored (area.words.drop n) ∨
      n = area.words.length ∧ c + 2 = offset area.words n ∧ rest = [byte ' ']) :
    (resize (title.take c) (c + 1) ++ rest).length = (stored area.words).length := by
  rw [List.length_append, length_resize]
  rcases h with ⟨hc, rfl⟩ | ⟨rfl, hc, rfl⟩
  · rw [hc, offset, ← List.length_append, ← stored_append, List.take_append_drop]
  · rw [← offset_length, ← hc]
    rfl

/-- **The title stays among the words and reads back** as `prefix: value`, cut to `maxlen`. -/
theorem titled_setProcessTitle (area : ArgumentArea) (processTitlePrefix value : CString)
    (prctl : Option String) :
    Titled area (processTitlePrefix.bytes ++ bytes ": " ++ value.bytes)
      (area.setProcessTitle processTitlePrefix value prctl) := by
  change Titled area (fullTitle processTitlePrefix value) _
  obtain ⟨n, hpos, hn, hwalk⟩ := @exists_walk_eq area
  obtain ⟨c, rest, hmaxlen, hmemory, hrest⟩ :=
    writeTitle_eq hpos hn hwalk processTitlePrefix value prctl
  change (area.setProcessTitle processTitlePrefix value prctl).maxlen = c at hmaxlen
  change (area.setProcessTitle processTitlePrefix value prctl).memory = _ at hmemory
  generalize area.setProcessTitle processTitlePrefix value prctl = result at hmaxlen hmemory
  have hnul : 0#8 ∉ (fullTitle processTitlePrefix value).take c := fun h =>
    nul_notMem_fullTitle processTitlePrefix value (List.mem_of_mem_take h)
  generalize fullTitle processTitlePrefix value = title at hmemory hnul
  have hlength := @length_written area n c title rest hrest
  have hmemory' : result.memory =
      area.before ++ ((resize (title.take c) (c + 1) ++ rest) ++ area.behind) := by
    rw [hmemory, List.append_assoc]
  obtain ⟨nuls, hresize⟩ := resize_take title c
  have htitle : result.memory =
      area.before ++ (title.take c ++ 0#8 :: (nuls ++ (rest ++ area.behind))) := by
    rw [hmemory, hresize, List.append_assoc]
    rfl
  have hc : result.maxlen.toNat = c := by
    rw [hmaxlen]
    rfl
  have hcut : (title.take c).length ≤ c := List.length_take_le c title
  refine ⟨by omega, fun p hp => ?_, ?_, ?_, ?_⟩
  · rw [hmemory']
    exact getElem?_middle hlength hp
  · rw [htitle, hc]
    exact read_append hnul _ _
  · rw [hc, stop, ← hlength, List.length_append, length_resize, pointer_zero]
    omega
  · rw [htitle, hc, pointer_zero, List.getElem?_append_right (by omega), Nat.add_sub_cancel_left,
      List.getElem?_append_right le_rfl, Nat.sub_self, List.getElem?_cons_zero]

/-! ## Where the walk ends -/

/-- The walk goes on while the words are in their old order. -/
theorem walk_range' {j stop : ℕ} (h : k + j ≤ area.words.length) (hstop : stop + 1 = area.pointer k)
    (ps : List ℕ) : ∃ stop', stop' + 1 = area.pointer (k + j) ∧
      walk area.memory stop ((List.range' k j).map area.pointer ++ ps) =
        walk area.memory stop' ps := by
  induction j generalizing k stop with
  | zero => exact ⟨stop, hstop, rfl⟩
  | succ j ih =>
    have hlt : k < area.words.length := by omega
    obtain ⟨stop', hstop', hwalk⟩ := ih (by omega)
      (pointer_add_strlen (List.getElem?_eq_getElem hlt))
    refine ⟨stop', by rw [hstop']; congr 1; omega, ?_⟩
    rw [List.range'_succ, List.map_cons, List.cons_append, walk, if_pos hstop, hwalk]

/-- The walk ends in front of a word that is not the next one. -/
theorem walk_of_ne {j stop : ℕ} (hj : j ≤ area.words.length) (hk : k ≤ area.words.length)
    (hstop : stop + 1 = area.pointer k) (hne : k ≠ j) (ps : List ℕ) :
    walk area.memory stop (area.pointer j :: ps) = stop := by
  rw [walk, if_neg]
  exact fun h => hne (pointer_inj hk hj (hstop.symm.trans h))

/-- What is read at a place of the new title. -/
theorem read_resize {l r title : List Byte} {c p : ℕ} (htitle : 0#8 ∉ title) (hp : p ≤ c) :
    read (l ++ (resize (title.take c) (c + 1) ++ r)) (l.length + p) = (title.take c).drop p := by
  have hnul : 0#8 ∉ (title.take c).drop p := fun h =>
    htitle (List.mem_of_mem_take (List.mem_of_mem_drop h))
  have hle : (title.take c).length ≤ c := List.length_take_le c title
  have hdrop : ∃ nuls, (resize (title.take c) (c + 1) ++ r).drop p =
      (title.take c).drop p ++ 0#8 :: nuls := by
    obtain ⟨q, hq⟩ : ∃ q, c + 1 - (title.take c).length - (p - (title.take c).length) = q + 1 :=
      ⟨c - (title.take c).length - (p - (title.take c).length), by omega⟩
    refine ⟨List.replicate q 0#8 ++ r, ?_⟩
    rw [resize, List.take_of_length_le (by omega), List.append_assoc, List.drop_append,
      List.drop_append_of_le_length (by rw [List.length_replicate]; omega), List.drop_replicate, hq,
      List.replicate_succ]
    rfl
  obtain ⟨nuls, hdrop⟩ := hdrop
  rw [CString.read, ← List.drop_drop, List.drop_left, hdrop, takeWhile_append hnul]

end ArgumentArea

/-! ## The path of the application -/

/-- A process as Linux starts it, with words that `main` accepts: the environment is directly behind
the words. -/
structure StartedProcess where
  posixlyCorrect : Bool
  words : List CString
  invocation : Invocation
  accepted : main posixlyCorrect words = .ok invocation
  before : List Byte
  env : List CString
  behind : List Byte
  size_lt : (stored words).length < 2 ^ 64

namespace StartedProcess

variable (process : StartedProcess)

theorem order_perm : (order process.invocation.operands).tail.Perm
    (List.range' 1 (process.words.length - 1)) := by
  obtain ⟨-, hlength, -⟩ := main_cases process.accepted
  have hperm := Main.order_perm process.invocation.operands
  rw [← hlength, Nat.add_sub_cancel]
  rw [order, List.range'_succ] at hperm
  exact hperm.cons_inv

theorem psgiApplicationPath_lt : process.invocation.psgiApplicationPath < process.words.length := by
  obtain ⟨-, hlength, -, n, rest, hoperands, hpath⟩ := main_cases process.accepted
  rw [hoperands, List.length_append, List.length_replicate, List.length_cons] at hlength
  omega

/-- Where string `k` of the environment is. -/
def environPointer (k : ℕ) : ℕ :=
  process.before.length + (stored process.words).length + offset process.env k

def area : ArgumentArea where
  before := process.before
  words := process.words
  behind := stored process.env ++ process.behind
  five_le := (main_cases process.accepted).1
  size_lt := process.size_lt
  order := (order process.invocation.operands).tail
  order_perm := process.order_perm
  environ := (List.range process.env.length).map process.environPointer
  environ_outside p hp := by
    obtain ⟨k, -, rfl⟩ := List.mem_map.1 (List.mem_of_mem_head? hp)
    exact .inr (Nat.le_add_right ..)

/-- The APPLICATION_PATH of the command line. -/
def applicationPath : CString :=
  process.words.get ⟨process.invocation.psgiApplicationPath, process.psgiApplicationPath_lt⟩

/-- `psgi_application_path()`, which the pointer in the application object leads to. -/
def psgiApplicationPath (m : List Byte) : List Byte :=
  read m (process.area.pointer process.invocation.psgiApplicationPath)

/-- The whole title. -/
def title (value : CString) : List Byte :=
  fullTitle process.invocation.options.processTitlePrefix value

/-- The memory after `SetProcessTitle(value)`. -/
def titled (value : CString) (prctl : Option String) : List Byte :=
  (process.area.setProcessTitle process.invocation.options.processTitlePrefix value prctl).memory

/-- **What the application can see stays as it is.** -/
structure Undisturbed (value : CString) (prctl : Option String) : Prop where
  path : process.psgiApplicationPath (process.titled value prctl) = process.applicationPath.bytes
  environment : ∀ k s, process.env[k]? = some s →
    read (process.titled value prctl) (process.environPointer k) = s.bytes

/-- An option, the argument of an option or `--` behind an operand, and so behind
APPLICATION_PATH. -/
def OptionBehindPath : Prop :=
  ∃ i j : ℕ, i < j ∧ process.invocation.operands[i]? = some true ∧
    process.invocation.operands[j]? = some false

variable {process} {value : CString} {prctl : Option String} {a : ℕ} {rest : List Bool}

/-- The loop of `SetProcessTitle` in this process. -/
def walkEnd (process : StartedProcess) : ℕ :=
  walk process.area.memory
    (process.area.pointer 0 + strlen process.area.memory (process.area.pointer 0))
    (process.area.order.map process.area.pointer)

theorem order_tail (h : process.invocation.operands = List.replicate a false ++ true :: rest) :
    process.area.order = List.range' 1 a ++
      (positions false (a + 2) rest ++ (a + 1) :: positions true (a + 2) rest) := by
  have hfalse : positions false 1 (List.replicate a false ++ true :: rest) =
      List.range' 1 a ++ positions false (a + 2) rest := by
    rw [positions_replicate_append, positions, if_neg (by simp), Nat.add_comm 1 a]
  change (order process.invocation.operands).tail = _
  rw [order, List.tail_cons, h, hfalse, positions_true_operands, List.append_assoc]

theorem stop_zero : process.area.pointer 0 +
    strlen process.area.memory (process.area.pointer 0) + 1 = process.area.pointer 1 := by
  have hlt : 0 < process.area.words.length := by
    have := process.area.five_le
    omega
  exact ArgumentArea.pointer_add_strlen (List.getElem?_eq_getElem hlt)

theorem optionBehindPath_iff
    (h : process.invocation.operands = List.replicate a false ++ true :: rest) :
    process.OptionBehindPath ↔ false ∈ rest := by
  rw [OptionBehindPath, h]
  constructor
  · rintro ⟨i, j, hij, hi, hj⟩
    have hai : a ≤ i := by
      by_contra hlt
      rw [List.getElem?_append_left (by rw [List.length_replicate]; omega),
        List.getElem?_replicate, if_pos (by omega)] at hi
      cases hi
    rw [List.getElem?_append_right (by rw [List.length_replicate]; omega), List.length_replicate,
      show j - a = (j - a - 1) + 1 by omega, List.getElem?_cons_succ] at hj
    exact List.mem_iff_getElem?.2 ⟨_, hj⟩
  · intro hrest
    obtain ⟨j, hj⟩ := List.mem_iff_getElem?.1 hrest
    refine ⟨a, a + (j + 1), by omega, ?_, ?_⟩
    · rw [List.getElem?_append_right (by simp), List.length_replicate, Nat.sub_self,
        List.getElem?_cons_zero]
    · rw [List.getElem?_append_right (by simp), List.length_replicate, Nat.add_sub_cancel_left,
        List.getElem?_cons_succ, hj]

/-- With an option behind the path the walk ends in front of the path. -/
theorem walkEnd_of_mem (h : process.invocation.operands = List.replicate a false ++ true :: rest)
    (hlt : a + 1 < process.area.words.length) (hrest : false ∈ rest) :
    process.walkEnd + 1 = process.area.pointer (a + 1) := by
  obtain ⟨i, hi⟩ := List.mem_iff_getElem?.1 hrest
  cases hpositions : positions false (a + 2) rest with
  | nil =>
    have hmem : a + 2 + i ∈ positions false (a + 2) rest := mem_positions.2 ⟨i, hi, rfl⟩
    rw [hpositions] at hmem
    cases hmem
  | cons j js =>
    have hj : j ∈ positions false (a + 2) rest := hpositions ▸ List.mem_cons_self
    obtain ⟨i, hi, rfl⟩ := mem_positions.1 hj
    have horder := order_tail h
    rw [hpositions] at horder
    have hjlt : a + 2 + i < process.area.words.length :=
      ArgumentArea.order_lt _ (by rw [horder]; simp)
    obtain ⟨stop, hstop, hwalk⟩ := @ArgumentArea.walk_range' process.area 1 a _ (by omega) stop_zero
      (((a + 2 + i) :: (js ++ (a + 1) :: positions true (a + 2) rest)).map process.area.pointer)
    rw [walkEnd, horder, List.map_append, List.cons_append, hwalk, List.map_cons,
      ArgumentArea.walk_of_ne hjlt.le (by omega) hstop (by omega), hstop, Nat.add_comm 1 a]

/-- With no option behind the path the walk goes on to the last word. -/
theorem walkEnd_of_notMem (h : process.invocation.operands = List.replicate a false ++ true :: rest)
    (hlength : a + 2 + rest.length = process.area.words.length) (hrest : false ∉ rest) :
    process.walkEnd + 1 = process.area.pointer process.area.words.length := by
  have hfalse := positions_false_of_notMem (a + 2) hrest
  have htrue := positions_true_of_notMem (a + 2) hrest
  have horder : process.area.order = List.range' 1 (a + 1 + rest.length) := by
    have hcons : (a + 1) :: List.range' (a + 2) rest.length =
        List.range' (1 + a) (rest.length + 1) := by
      rw [List.range'_succ, Nat.add_comm 1 a]
    rw [order_tail h, hfalse, htrue, List.nil_append, hcons, List.range'_append_1]
    congr 1
    omega
  obtain ⟨stop, hstop, hwalk⟩ := @ArgumentArea.walk_range' process.area 1 (a + 1 + rest.length) _
    (by omega) stop_zero []
  rw [List.append_nil] at hwalk
  rw [walkEnd, horder, hwalk, walk, hstop, ← hlength]
  congr 1
  omega

/-- The environment is left alone in any case. -/
theorem read_environ (value : CString) (prctl : Option String) {k : ℕ} {s : CString}
    (hs : process.env[k]? = some s) :
    read (process.titled value prctl) (process.environPointer k) = s.bytes := by
  obtain ⟨n, hpos, hn, hwalk⟩ := @ArgumentArea.exists_walk_eq process.area
  obtain ⟨c, rest, -, hmemory, hrest⟩ := ArgumentArea.writeTitle_eq hpos hn hwalk
    process.invocation.options.processTitlePrefix value prctl
  have hlength := @ArgumentArea.length_written process.area n c (process.title value) rest hrest
  have hmemory' : process.titled value prctl = (process.before ++
      (resize ((process.title value).take c) (c + 1) ++ rest)) ++
      (stored process.env ++ process.behind) := by
    refine hmemory.trans ?_
    rw [List.append_assoc, List.append_assoc]
    rfl
  have hpointer : process.environPointer k = (process.before ++
      (resize ((process.title value).take c) (c + 1) ++ rest)).length + offset process.env k := by
    rw [List.length_append, hlength]
    rfl
  rw [hmemory', hpointer, read_stored hs]

/-- With an option behind it, the path is not written to. -/
theorem path_of_optionBehindPath
    (h : process.invocation.operands = List.replicate a false ++ true :: rest)
    (hpath : process.invocation.psgiApplicationPath = a + 1) (hrest : false ∈ rest)
    (value : CString) (prctl : Option String) :
    process.psgiApplicationPath (process.titled value prctl) = process.applicationPath.bytes := by
  have hlt : a + 1 < process.area.words.length := hpath ▸ process.psgiApplicationPath_lt
  obtain ⟨c, rest', -, hmemory, hrest'⟩ := ArgumentArea.writeTitle_eq (Nat.succ_pos a) hlt.le
    (walkEnd_of_mem h hlt hrest) process.invocation.options.processTitlePrefix value prctl
  rcases hrest' with ⟨hc, rfl⟩ | ⟨hlength, -, -⟩
  · have hpointer : process.area.pointer process.invocation.psgiApplicationPath =
        (process.before ++ resize ((process.title value).take c) (c + 1)).length +
          offset (process.area.words.drop (a + 1)) 0 := by
      rw [List.length_append, ArgumentArea.length_resize, hc, hpath]
      rfl
    have hword : (process.area.words.drop (a + 1))[0]? = some process.applicationPath := by
      rw [List.getElem?_drop, Nat.add_zero, ← hpath]
      exact List.getElem?_eq_getElem process.psgiApplicationPath_lt
    have hmemory' : process.titled value prctl =
        (process.before ++ resize ((process.title value).take c) (c + 1)) ++
          (stored (process.area.words.drop (a + 1)) ++ process.area.behind) := by
      refine hmemory.trans ?_
      rw [List.append_assoc]
      rfl
    rw [psgiApplicationPath, hpointer, hmemory', read_stored hword]
  · omega

/-- With no option behind it, the path is what the title has at its place. -/
theorem path_iff_of_not_optionBehindPath
    (h : process.invocation.operands = List.replicate a false ++ true :: rest)
    (hpath : process.invocation.psgiApplicationPath = a + 1)
    (hlength : a + 2 + rest.length = process.area.words.length) (hfour : rest.length = 3)
    (hrest : false ∉ rest) (value : CString) (prctl : Option String) :
    process.psgiApplicationPath (process.titled value prctl) = process.applicationPath.bytes ↔
      (process.title value).drop (offset process.words (a + 1)) =
        process.applicationPath.bytes := by
  have hlt : a + 1 < process.area.words.length := hpath ▸ process.psgiApplicationPath_lt
  obtain ⟨c, rest', -, hmemory, hrest'⟩ := ArgumentArea.writeTitle_eq (by omega) le_rfl
    (walkEnd_of_notMem h hlength hrest) process.invocation.options.processTitlePrefix value prctl
  -- the path and the three words behind it, with their NULs, fit into the room for the title
  have hword : process.words[a + 1]? = some process.applicationPath := by
    rw [← hpath]
    exact List.getElem?_eq_getElem process.psgiApplicationPath_lt
  have hroom : offset process.words (a + 1) + process.applicationPath.bytes.length < c := by
    have hsucc : offset process.words (a + 2) = offset process.words (a + 1) +
        process.applicationPath.bytes.length + 1 := offset_succ hword
    have hadd := @offset_add_le process.words 3 (a + 2) (by
      change a + 2 + 3 ≤ process.area.words.length
      omega)
    have hoffset : offset process.words (a + 2 + 3) =
        offset process.area.words process.area.words.length := by
      rw [← hlength, hfour]
      rfl
    rcases hrest' with ⟨hc, -⟩ | ⟨-, hc, -⟩ <;> omega
  have hread : process.psgiApplicationPath (process.titled value prctl) =
      ((process.title value).take c).drop (offset process.words (a + 1)) := by
    have hpointer : process.area.pointer process.invocation.psgiApplicationPath =
        process.before.length + offset process.words (a + 1) := by
      rw [hpath]
      rfl
    rw [psgiApplicationPath, hpointer]
    refine (congrArg (read · _) hmemory).trans ?_
    exact ArgumentArea.read_resize (ArgumentArea.nul_notMem_fullTitle _ _) (by omega)
  rw [hread, List.drop_take]
  constructor
  · intro heq
    have := congrArg List.length heq
    rw [List.length_take] at this
    rwa [List.take_of_length_le (by omega)] at heq
  · intro heq
    rw [heq, List.take_of_length_le (by omega)]

/-- **When the path survives**: exactly if an option stands behind it on the command line, or the
title happens to end in the path at its place. -/
theorem undisturbed_iff (process : StartedProcess) (value : CString) (prctl : Option String) :
    process.Undisturbed value prctl ↔ process.OptionBehindPath ∨
      (process.title value).drop (offset process.words process.invocation.psgiApplicationPath) =
        process.applicationPath.bytes := by
  obtain ⟨-, hoperands, hfour, a, rest, h, hpath⟩ := main_cases process.accepted
  have hlength : a + 2 + rest.length = process.area.words.length := by
    rw [h, List.length_append, List.length_replicate, List.length_cons] at hoperands
    change a + 2 + rest.length = process.words.length
    omega
  have hbehind : process.OptionBehindPath ↔ false ∈ rest := optionBehindPath_iff h
  have henvironment : ∀ k s, process.env[k]? = some s →
      read (process.titled value prctl) (process.environPointer k) = s.bytes :=
    fun k s hs => read_environ value prctl hs
  by_cases hrest : false ∈ rest
  · exact ⟨fun _ => .inl (hbehind.2 hrest),
      fun _ => ⟨path_of_optionBehindPath h hpath hrest value prctl, henvironment⟩⟩
  · have hfour : rest.length = 3 := by
      rw [h, positions_true_operands, positions_true_of_notMem _ hrest, List.length_cons,
        List.length_range'] at hfour
      omega
    have hiff := path_iff_of_not_optionBehindPath h hpath hlength hfour hrest value prctl
    rw [← hpath] at hiff
    constructor
    · exact fun hundisturbed => .inr (hiff.1 hundisturbed.path)
    · rintro (hoption | htitle)
      · exact absurd (hbehind.1 hoption) hrest
      · exact ⟨hiff.2 htitle, henvironment⟩

theorem one_le : 0 < 1 ∧ 1 ≤ 65536 := by decide

theorem nul_notMem_commandLine : ∀ w ∈ ["bladepsgi", "app.psgi", "1", "a", "b"],
    0#8 ∉ bytes w := by decide

/-- `bladepsgi app.psgi 1 a b`, without an environment. -/
def noOptions : StartedProcess where
  posixlyCorrect := false
  words := [⟨bytes "bladepsgi", nul_notMem_commandLine _ (.head _)⟩,
    ⟨bytes "app.psgi", nul_notMem_commandLine _ (.tail _ (.head _))⟩,
    ⟨bytes "1", nul_notMem_commandLine _ (.tail _ (.tail _ (.head _)))⟩,
    ⟨bytes "a", nul_notMem_commandLine _ (.tail _ (.tail _ (.tail _ (.head _))))⟩,
    ⟨bytes "b", nul_notMem_commandLine _ (.tail _ (.tail _ (.tail _ (.tail _ (.head _)))))⟩]
  invocation :=
    { operands := [true, true, true, true]
      options := ⟨none, blade⟩
      psgiApplicationPath := 1
      nworkers := ⟨1, one_le⟩
      fastcgiSocketPath := 3
      statsSocketPath := 4 }
  accepted := rfl
  before := []
  env := []
  behind := []
  size_lt := by decide

theorem nul_notMem_worker0 : 0#8 ∉ bytes "worker 0" := by decide

/-- The title of a worker goes over the path. -/
theorem not_undisturbed_noOptions :
    ¬ noOptions.Undisturbed ⟨bytes "worker 0", nul_notMem_worker0⟩ none :=
  fun h => absurd h.path (by decide)

end StartedProcess

end BladePSGI.Main

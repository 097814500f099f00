import BladePSGI.Foundations.CString
import BladePSGI.Foundations.Text
import BladePSGI.Main.Startup
import Mathlib.Algebra.Group.Int.Defs

/-!
# The command line

`main` up to the construction of `BPSGIMainApplication`. `getopt_long` goes through the words of the
command line and moves those that are no options behind the others, in the order they have
(`order`), unless `POSIXLY_CORRECT` is set. `main` wants exactly four of them.

A word may be the argument of the option before it, and behind `--` no word is an option.

* `main_cases`: the words that `main` accepts, with the four operands.
* `order_perm`: `getopt_long` only reorders the words.
-/

namespace BladePSGI.Main

open Text

/-- How `main` ends if it does not go on: with this status. -/
abbrev ExitStatus := ℕ

/-- The bytes of a text. -/
def bytes (s : String) : List Byte := s.toList.map byte

/-! ## `getopt_long` -/

/-- What an option is for `getopt_long`, with the value it returns. -/
structure LongOption where
  name : String
  requiredArgument : Bool
  val : Char

/-- `long_options`. -/
def longOptions : List LongOption :=
  [⟨"help", false, '?'⟩, ⟨"version", false, 'v'⟩, ⟨"loader", true, 'l'⟩,
    ⟨"proctitle-prefix", true, 'p'⟩]

/-- The long options that a name stands for: one of that name, or those that begin with it. -/
def matching (name : List Byte) : List LongOption :=
  match longOptions.find? fun o => bytes o.name = name with
  | some o => [o]
  | none => longOptions.filter fun o => name.isPrefixOf (bytes o.name)

/-- What a word is for `getopt_long`. -/
inductive Word
  | operand
  /-- `--` -/
  | terminator
  /-- An option. `getopt_long` returns `c`, with `optarg`. -/
  | option (c : Char) (optarg : Option CString)
  /-- An option with the next word as its argument. -/
  | optionNext (c : Char)
  deriving DecidableEq

/-- A word that begins with `--`; `?` stands for an error as well. -/
def longWord (w : CString) : Word :=
  let name := (w.bytes.drop 2).takeWhile (· ≠ byte '=')
  let hasValue : Bool := name.length + 2 < w.bytes.length
  match matching name with
  | [o] =>
    match o.requiredArgument, hasValue with
    | true, false => .optionNext o.val
    | true, true => .option o.val (some (w.drop (name.length + 3)))
    | false, false => .option o.val none
    | false, true => .option '?' none
  | _ => .option '?' none

/-- A word that begins with `-` and the letter `c`, for the options `l:p:hv`. -/
def shortWord (c : Byte) (w : CString) : Word :=
  if c = byte 'l' ∨ c = byte 'p' then
    let c := if c = byte 'l' then 'l' else 'p'
    if w.bytes.length = 2 then .optionNext c else .option c (some (w.drop 2))
  else if c = byte 'h' then .option 'h' none
  else if c = byte 'v' then .option 'v' none
  else .option '?' none

def word (w : CString) : Word :=
  match w.bytes with
  | a :: b :: rest =>
    if a ≠ byte '-' then .operand
    else if b ≠ byte '-' then shortWord b w
    else if rest = [] then .terminator
    else longWord w
  | _ => .operand

/-- What has been given for the options. -/
structure Options where
  applicationLoader : Option CString
  processTitlePrefix : CString
  deriving DecidableEq

/-- One round of the loop over the options. -/
def switch (o : Options) (c : Char) (optarg : Option CString) : Except ExitStatus Options :=
  match c, optarg with
  | '?', _ => .error 0
  | 'l', some optarg => .ok { o with applicationLoader := some optarg }
  | 'p', some optarg => .ok { o with processTitlePrefix := optarg }
  | _, _ => .error 1

/-- The loop over the options: which words are operands, and the options. -/
def scan (posixlyCorrect : Bool) : Options → List CString → Except ExitStatus (List Bool × Options)
  | o, [] => .ok ([], o)
  | o, w :: rest =>
    match word w with
    | .operand =>
      if posixlyCorrect then .ok (true :: rest.map fun _ => true, o)
      else do
        let (operands, o) ← scan posixlyCorrect o rest
        return (true :: operands, o)
    | .terminator => .ok (false :: rest.map fun _ => true, o)
    | .option c optarg => do
      let o ← switch o c optarg
      let (operands, o) ← scan posixlyCorrect o rest
      return (false :: operands, o)
    | .optionNext c =>
      match rest with
      | [] => switch o '?' none >>= fun o => .ok ([false], o)
      | optarg :: rest => do
        let o ← switch o c (some optarg)
        let (operands, o) ← scan posixlyCorrect o rest
        return (false :: false :: operands, o)

/-- The positions from `k` on at which `operands` has the value `b`. -/
def positions (b : Bool) : ℕ → List Bool → List ℕ
  | _, [] => []
  | k, a :: operands =>
    if a = b then k :: positions b (k + 1) operands else positions b (k + 1) operands

/-- The words as they stand in `argv` after the loop, by their old positions: the name of the
program, the options with their arguments, and the operands. -/
def order (operands : List Bool) : List ℕ :=
  0 :: (positions false 1 operands ++ positions true 1 operands)

/-! ## `main` -/

/-- `strtol` in base 10: the number and what is left of the string. -/
def strtol (s : List Byte) : ℤ × List Byte :=
  let t := s.dropWhile fun b => b = byte ' ' ∨ 9 ≤ b.toNat ∧ b.toNat ≤ 13
  let negative := t.head? = some (byte '-')
  let t := if negative ∨ t.head? = some (byte '+') then t.tail else t
  let isDigit := fun b : Byte => decide (48 ≤ b.toNat ∧ b.toNat ≤ 57)
  let digits := t.takeWhile isDigit
  let value : ℕ := digits.foldl (fun n b => 10 * n + (b.toNat - 48)) 0
  if digits = [] then (0, s)
  else if negative then (max (-2 ^ 63) (-value), t.dropWhile isDigit)
  else (min (2 ^ 63 - 1) value, t.dropWhile isDigit)

/-- The worker counts that `main` accepts. -/
abbrev WorkerCount := {n : ℕ // 0 < n ∧ n ≤ 65536}

/-- NUM_WORKERS. -/
def numWorkers (nworkersStr : List Byte) : Except ExitStatus WorkerCount :=
  let (nworkers, endptr) := strtol nworkersStr
  if endptr ≠ [] then .error 1
  else if h : 0 < nworkers ∧ nworkers ≤ 65536 then .ok ⟨nworkers.toNat, by omega⟩
  else .error 1

/-- A path in a message. -/
def pathText (path : List Byte) : String := .ofList (path.map fun b => .ofNat b.toNat)

/-- What `main` hands to `BPSGIMainApplication`. The pointers are positions in `argv` as it has been
before the loop. -/
structure Invocation where
  /-- Which of the words behind the name of the program are operands. -/
  operands : List Bool
  options : Options
  psgiApplicationPath : ℕ
  nworkers : WorkerCount
  fastcgiSocketPath : ℕ
  statsSocketPath : ℕ

/-- The words that `main` looks for before the loop. -/
def helpOrVersion (argv : List CString) : Bool :=
  match argv[1]? with
  | none => false
  | some w => w.bytes ∈ ["--help", "-?", "-h", "-v", "--version"].map bytes

/-- The default of `opt_process_title_prefix`. -/
def blade : CString where
  bytes := bytes "Blade"
  nul_notMem := by decide

/-- `main` after the loop over the options. -/
def operandsOf (argv : List CString) (operands : List Bool) (options : Options) :
    Except ExitStatus Invocation :=
  let optind := (positions false 1 operands).length + 1
  if optind + 4 ≠ argv.length then .error 1
  else
    match (order operands).drop optind with
    | [psgiApplicationPath, nworkersStr, fastcgiSocketPath, statsSocketPath] =>
      match numWorkers ((argv[nworkersStr]?.map CString.bytes).getD []) with
      | .ok nworkers =>
        .ok { operands, options, psgiApplicationPath, nworkers, fastcgiSocketPath, statsSocketPath }
      | .error status => .error status
    | _ => .error 1

/-- `main`, up to the constructor. -/
def main (posixlyCorrect : Bool) (argv : List CString) : Except ExitStatus Invocation :=
  if helpOrVersion argv then .error 0
  else do
    let (operands, options) ← scan posixlyCorrect ⟨none, blade⟩ argv.tail
    operandsOf argv operands options

example : strtol (bytes " 12x") = (12, bytes "x") := by decide

example : strtol (bytes "-3") = (-3, []) := by decide

/-! ## The words that `main` accepts -/

variable {posixlyCorrect : Bool} {argv words : List CString} {o o' : Options} {operands : List Bool}
  {inv : Invocation} {k a : ℕ} {b : Bool}

theorem bind_eq_ok {ε α β : Type} {x : Except ε α} {f : α → Except ε β} {r : β}
    (h : (x >>= f) = .ok r) : ∃ a, x = .ok a ∧ f a = .ok r := by
  cases x with
  | error e => cases h
  | ok a => exact ⟨a, rfl, h⟩

theorem length_positions (k : ℕ) (operands : List Bool) :
    (positions false k operands).length + (positions true k operands).length =
      operands.length := by
  induction operands generalizing k with
  | nil => rfl
  | cons b operands ih =>
    have := ih (k + 1)
    cases b <;> simp only [positions, if_true, Bool.false_eq_true, Bool.true_eq_false, if_false,
      List.length_cons] <;> omega

/-- The positions of words that are all alike. -/
theorem positions_replicate_append (n : ℕ) (operands : List Bool) :
    positions b k (List.replicate n b ++ operands) =
      List.range' k n ++ positions b (k + n) operands := by
  induction n generalizing k with
  | zero => rfl
  | succ n ih =>
    rw [List.replicate_succ, List.cons_append, positions, if_pos rfl, ih, List.range'_succ,
      Nat.add_right_comm]
    rfl

theorem positions_not_replicate_append (n : ℕ) (operands : List Bool) :
    positions b k (List.replicate n (!b) ++ operands) = positions b (k + n) operands := by
  induction n generalizing k with
  | zero => rfl
  | succ n ih =>
    rw [List.replicate_succ, List.cons_append, positions, if_neg (by simp), ih,
      Nat.add_right_comm]
    rfl

/-- The operands behind some words that are none. -/
theorem positions_true_operands (n : ℕ) (rest : List Bool) :
    positions true 1 (List.replicate n false ++ true :: rest) =
      (n + 1) :: positions true (n + 2) rest := by
  rw [show List.replicate n false = List.replicate n (!true) from rfl,
    positions_not_replicate_append, positions, if_pos rfl, Nat.add_comm 1 n]

theorem eq_replicate_of_notMem (h : false ∉ operands) :
    operands = List.replicate operands.length true ++ [] := by
  rw [List.append_nil]
  refine List.eq_replicate_iff.2 ⟨rfl, fun b hb => ?_⟩
  cases b with
  | false => exact absurd hb h
  | true => rfl

theorem positions_false_of_notMem (k : ℕ) (h : false ∉ operands) :
    positions false k operands = [] := by
  rw [eq_replicate_of_notMem h,
    show List.replicate operands.length true = List.replicate operands.length (!false) from rfl,
    positions_not_replicate_append]
  rfl

theorem positions_true_of_notMem (k : ℕ) (h : false ∉ operands) :
    positions true k operands = List.range' k operands.length := by
  rw [eq_replicate_of_notMem h, positions_replicate_append, positions, List.append_nil,
    List.append_nil, List.length_replicate]

/-- A position is one of a word with the value asked for. -/
theorem mem_positions {j : ℕ} :
    j ∈ positions b k operands ↔ ∃ i, operands[i]? = some b ∧ j = k + i := by
  induction operands generalizing k with
  | nil => simp [positions]
  | cons a operands ih =>
    constructor
    · intro h
      unfold positions at h
      split_ifs at h with hab
      · rcases List.mem_cons.1 h with rfl | h
        · exact ⟨0, by simp [hab], rfl⟩
        · obtain ⟨i, hi, rfl⟩ := ih.1 h
          exact ⟨i + 1, hi, by omega⟩
      · obtain ⟨i, hi, rfl⟩ := ih.1 h
        exact ⟨i + 1, hi, by omega⟩
    · rintro ⟨i, hi, rfl⟩
      unfold positions
      cases i with
      | zero =>
        simp only [List.getElem?_cons_zero, Option.some.injEq] at hi
        rw [if_pos hi]
        exact List.mem_cons_self
      | succ i =>
        have hmem : k + (i + 1) ∈ positions b (k + 1) operands := ih.2 ⟨i, hi, by omega⟩
        split_ifs
        · exact List.mem_cons_of_mem _ hmem
        · exact hmem

/-- The first operand. -/
theorem operands_of_positions {p : ℕ} {ps : List ℕ} (h : positions true k operands = p :: ps) :
    ∃ n rest, operands = List.replicate n false ++ true :: rest ∧ p = k + n := by
  induction operands generalizing k with
  | nil => cases h
  | cons b operands ih =>
    cases b with
    | true => exact ⟨0, operands, rfl, (List.cons.inj h).1.symm⟩
    | false =>
      obtain ⟨n, rest, rfl, rfl⟩ := ih h
      exact ⟨n + 1, rest, rfl, by omega⟩

/-- **`getopt_long` only reorders the words.** -/
theorem order_perm (operands : List Bool) :
    (order operands).Perm (List.range' 0 (operands.length + 1)) := by
  have hperm : ∀ (k : ℕ) (operands : List Bool),
      (positions false k operands ++ positions true k operands).Perm
        (List.range' k operands.length) := by
    intro k operands
    induction operands generalizing k with
    | nil => exact .nil
    | cons b operands ih =>
      rw [List.length_cons, List.range'_succ]
      cases b with
      | false => exact (ih (k + 1)).cons k
      | true => exact List.perm_middle.trans ((ih (k + 1)).cons k)
  exact (hperm 1 operands).cons 0

theorem drop_order (operands : List Bool) :
    (order operands).drop ((positions false 1 operands).length + 1) =
      positions true 1 operands := by
  rw [order, List.drop_succ_cons, List.drop_left]

theorem operandsOf_cases {options : Options} (h : operandsOf argv operands options = .ok inv) :
    (positions false 1 operands).length + 5 = argv.length ∧ inv.operands = operands ∧
      inv.options = options ∧ (positions true 1 operands).length = 4 ∧
      (positions true 1 operands).head? = some inv.psgiApplicationPath := by
  unfold operandsOf at h
  dsimp only at h
  split_ifs at h with hlength
  rw [drop_order] at h
  split at h
  · rename_i hpositions
    split at h
    · obtain rfl := Except.ok.inj h
      exact ⟨by omega, rfl, rfl, by rw [hpositions]; rfl, by rw [hpositions]; rfl⟩
    · cases h
  · cases h

/-- **The words that `main` accepts**: the name of the program and four operands at least, the first
operand being the path of the application. -/
theorem main_cases (h : main posixlyCorrect argv = .ok inv) :
    5 ≤ argv.length ∧ inv.operands.length + 1 = argv.length ∧
      (positions true 1 inv.operands).length = 4 ∧
      ∃ n rest, inv.operands = List.replicate n false ++ true :: rest ∧
        inv.psgiApplicationPath = n + 1 := by
  unfold main at h
  split_ifs at h
  obtain ⟨⟨operands, options⟩, hscan, h⟩ := bind_eq_ok h
  obtain ⟨hlength, hoperands, -, hfour, hhead⟩ := operandsOf_cases h
  rw [hoperands]
  have hsum := length_positions 1 operands
  refine ⟨by omega, by omega, hfour, ?_⟩
  cases hpositions : positions true 1 operands with
  | nil => simp [hpositions] at hhead
  | cons p ps =>
    obtain ⟨n, rest, rfl, rfl⟩ := operands_of_positions hpositions
    rw [hpositions, List.head?_cons] at hhead
    exact ⟨n, rest, rfl, (Option.some.inj hhead).symm.trans (Nat.add_comm 1 n)⟩

end BladePSGI.Main

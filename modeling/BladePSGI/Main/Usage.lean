import BladePSGI.Main.Arguments
import Mathlib.Data.List.TakeWhile
import Mathlib.Data.Nat.Digits.Defs

/-!
# The command lines that `main` accepts

    bladepsgi [OPTION]... PSGI_APPLICATION NUM_WORKERS FASTCGI_SOCKET STATS_SOCKET

The grammar of the command line, word by word and without `getopt_long`: what an operand looks like,
how an option can be spelled (`-lVALUE`, `-l VALUE`, `--loader=VALUE`, `--loader VALUE`, with the
long name cut short at will), what `--` does, and what a number of workers is.

* `Words`: the grammar.
* `words_of_scan`, `scan_of_words`: the loop over the options accepts the words of the grammar.
* `numWorkers_ok_iff`: what is accepted as a number of workers.
* `main_ok_iff`: `main` goes on exactly with the command lines of the grammar, and with what they
  say.
-/

namespace BladePSGI.Main.Usage

open Text

/-! ## The grammar -/

/-- The options that `main` goes on with. -/
inductive Name
  | loader
  | proctitlePrefix
  deriving DecidableEq

def Name.letter : Name → Char
  | loader => 'l'
  | proctitlePrefix => 'p'

def Name.long : Name → List Byte
  | loader => bytes "loader"
  | proctitlePrefix => bytes "proctitle-prefix"

/-- An option with its value. -/
structure Given where
  name : Name
  value : CString

/-- What an option does to those before it. -/
def give (o : Options) (g : Given) : Options :=
  match g.name with
  | .loader => { o with applicationLoader := some g.value }
  | .proctitlePrefix => { o with processTitlePrefix := g.value }

/-- The long name or what is left of it, if anything. -/
structure Abbreviates (abbr : List Byte) (name : Name) : Prop where
  ne_nil : abbr ≠ []
  isPrefix : abbr <+: name.long

/-- The word gives an option together with its value. -/
inductive Joined (w : CString) (g : Given) : Prop
  | short (hvalue : g.value.bytes ≠ [])
      (h : w.bytes = byte '-' :: byte g.name.letter :: g.value.bytes)
  | long (abbr : List Byte) (habbr : Abbreviates abbr g.name)
      (h : w.bytes = byte '-' :: byte '-' :: (abbr ++ byte '=' :: g.value.bytes))

/-- The word gives an option whose value is the next word. -/
inductive Separate (w : CString) (name : Name) : Prop
  | short (h : w.bytes = [byte '-', byte name.letter])
  | long (abbr : List Byte) (habbr : Abbreviates abbr name)
      (h : w.bytes = byte '-' :: byte '-' :: abbr)

/-- The word does not look like an option. -/
def IsOperand (w : CString) : Prop := w.bytes = [byte '-'] ∨ w.bytes.head? ≠ some (byte '-')

/-- The word is `--`. -/
def IsTerminator (w : CString) : Prop := w.bytes = [byte '-', byte '-']

/-- The words of a command line, with the options and the operands that they give. -/
inductive Words (posixlyCorrect : Bool) : List CString → List Given → List CString → Prop
  | nil : Words posixlyCorrect [] [] []
  | terminator {w : CString} {rest : List CString} (h : IsTerminator w) :
      Words posixlyCorrect (w :: rest) [] rest
  /-- The first operand ends the options. -/
  | stop {w : CString} {rest : List CString} (h : IsOperand w) (hposix : posixlyCorrect = true) :
      Words posixlyCorrect (w :: rest) [] (w :: rest)
  | operand {w : CString} {rest : List CString} {gs : List Given} {operands : List CString}
      (h : IsOperand w) (hposix : posixlyCorrect = false)
      (hrest : Words posixlyCorrect rest gs operands) :
      Words posixlyCorrect (w :: rest) gs (w :: operands)
  | joined {w : CString} {rest : List CString} {g : Given} {gs : List Given}
      {operands : List CString} (h : Joined w g) (hrest : Words posixlyCorrect rest gs operands) :
      Words posixlyCorrect (w :: rest) (g :: gs) operands
  | separate {w value : CString} {rest : List CString} {name : Name} {gs : List Given}
      {operands : List CString} (h : Separate w name)
      (hrest : Words posixlyCorrect rest gs operands) :
      Words posixlyCorrect (w :: value :: rest) (⟨name, value⟩ :: gs) operands

/-! ## A word -/

variable {w value : CString} {g : Given} {name : Name} {abbr : List Byte}

theorem Name.switch_eq (name : Name) (o : Options) (value : CString) :
    switch o name.letter (some value) = .ok (give o ⟨name, value⟩) := by
  cases name <;> rfl

/-- An abbreviation stands for one option only. -/
theorem matching_of_mem (name : Name) : ∀ abbr ∈ name.long.inits, abbr ≠ [] →
    (matching abbr).map (fun o => (o.requiredArgument, o.val)) = [(true, name.letter)] ∧
      byte '=' ∉ abbr := by
  cases name <;> decide

theorem matching_of_abbreviates (h : Abbreviates abbr name) :
    (∃ o, matching abbr = [o] ∧ o.requiredArgument = true ∧ o.val = name.letter) ∧
      byte '=' ∉ abbr := by
  obtain ⟨hmap, heq⟩ := matching_of_mem name abbr ((List.mem_inits ..).2 h.isPrefix) h.ne_nil
  obtain ⟨o, hmatching, ho⟩ := List.map_eq_singleton_iff.1 hmap
  obtain ⟨hrequired, hval⟩ := Prod.mk.inj ho
  exact ⟨⟨o, hmatching, hrequired, hval⟩, heq⟩

/-- The options that `matching` finds. -/
theorem mem_matching {o : LongOption} (h : matching abbr = [o]) :
    o ∈ longOptions ∧ abbr ≠ [] ∧ abbr <+: bytes o.name := by
  unfold matching at h
  split at h
  · rename_i o' hfind
    obtain rfl := List.head_eq_of_cons_eq h
    have hname := List.find?_some hfind
    have hmem := List.mem_of_find?_eq_some hfind
    rw [decide_eq_true_eq] at hname
    subst hname
    refine ⟨hmem, ?_, List.prefix_rfl⟩
    revert hmem
    simp only [longOptions, List.mem_cons, List.not_mem_nil, or_false]
    rintro (rfl | rfl | rfl | rfl) <;> decide
  · have hmem : o ∈ longOptions.filter fun o => abbr.isPrefixOf (bytes o.name) := by
      rw [h]
      exact List.mem_cons_self
    rw [List.mem_filter, List.isPrefixOf_iff_prefix] at hmem
    refine ⟨hmem.1, ?_, hmem.2⟩
    rintro rfl
    simp [longOptions] at h

theorem abbreviates_of_matching {o : LongOption} (h : matching abbr = [o])
    (hrequired : o.requiredArgument = true) :
    ∃ name, Abbreviates abbr name ∧ o.val = name.letter := by
  obtain ⟨hmem, hne, hprefix⟩ := mem_matching h
  simp only [longOptions, List.mem_cons, List.not_mem_nil, or_false] at hmem
  rcases hmem with rfl | rfl | rfl | rfl
  · cases hrequired
  · cases hrequired
  · exact ⟨.loader, ⟨hne, hprefix⟩, rfl⟩
  · exact ⟨.proctitlePrefix, ⟨hne, hprefix⟩, rfl⟩

theorem word_of_operand (h : IsOperand w) : word w = .operand := by
  unfold word
  rcases h with h | h
  · rw [h]
  · split
    · rename_i a b rest hbytes
      rw [hbytes, List.head?_cons, ne_eq, Option.some.injEq] at h
      exact if_pos h
    · rfl

theorem word_of_terminator (h : IsTerminator w) : word w = .terminator := by
  unfold word
  rw [h]
  rfl

theorem word_long {rest : List Byte} (h : w.bytes = byte '-' :: byte '-' :: rest)
    (hne : rest ≠ []) : word w = longWord w := by
  unfold word
  rw [h]
  simp [hne]

theorem word_short {c : Byte} {rest : List Byte} (h : w.bytes = byte '-' :: c :: rest)
    (hne : c ≠ byte '-') : word w = shortWord c w := by
  unfold word
  rw [h]
  simp [hne]

theorem Name.letter_ne (name : Name) : byte name.letter ≠ byte '-' := by cases name <;> decide

theorem shortWord_letter (name : Name) (w : CString) :
    shortWord (byte name.letter) w =
      if w.bytes.length = 2 then .optionNext name.letter
      else .option name.letter (some (w.drop 2)) := by
  cases name <;> rfl

theorem takeWhile_abbr (h : byte '=' ∉ abbr) (rest : List Byte) :
    (abbr ++ byte '=' :: rest).takeWhile (· ≠ byte '=') = abbr ∧
      abbr.takeWhile (· ≠ byte '=') = abbr := by
  have hall : ∀ b ∈ abbr, decide (b ≠ byte '=') = true := by
    rintro b hb
    exact decide_eq_true fun heq => h (heq ▸ hb)
  constructor
  · rw [List.takeWhile_append_of_pos hall]
    simp
  · exact List.takeWhile_eq_self_iff.2 hall

theorem bytes_drop (w : CString) (k : ℕ) : (w.drop k).bytes = w.bytes.drop k := rfl

theorem word_of_joined (h : Joined w g) : word w = .option g.name.letter (some g.value) := by
  rcases h with ⟨hvalue, h⟩ | ⟨abbr, habbr, h⟩
  · rw [word_short h g.name.letter_ne, shortWord_letter, if_neg (by simp [h, hvalue])]
    congr 2
    exact CString.ext (by rw [bytes_drop, h]; rfl)
  · obtain ⟨⟨o, hmatching, hrequired, hval⟩, heq⟩ := matching_of_abbreviates habbr
    have hdrop : w.bytes.drop 2 = abbr ++ byte '=' :: g.value.bytes := by rw [h]; rfl
    have hlength : w.bytes.length = abbr.length + g.value.bytes.length + 3 := by
      rw [h]
      simp only [List.length_cons, List.length_append]
      omega
    rw [word_long h (by simp), longWord, hdrop, (takeWhile_abbr heq _).1]
    simp only [hmatching, hrequired, hlength]
    rw [decide_eq_true (show abbr.length + 2 < _ by omega), hval]
    refine congrArg (fun v => Word.option g.name.letter (some v)) (CString.ext ?_)
    rw [bytes_drop, h]
    simp

theorem word_of_separate (h : Separate w name) : word w = .optionNext name.letter := by
  rcases h with h | ⟨abbr, habbr, h⟩
  · rw [word_short h name.letter_ne, shortWord_letter, if_pos (by rw [h]; rfl)]
  · obtain ⟨⟨o, hmatching, hrequired, hval⟩, heq⟩ := matching_of_abbreviates habbr
    have hdrop : w.bytes.drop 2 = abbr := by rw [h]; rfl
    have hlength : w.bytes.length = abbr.length + 2 := by rw [h]; rfl
    rw [word_long h habbr.ne_nil, longWord, hdrop, (takeWhile_abbr heq []).2]
    simp only [hmatching, hrequired, hlength, Nat.lt_irrefl, decide_false, hval]

/-- What a word can be. -/
inductive Shape (w : CString) : Word → Prop
  | operand (h : IsOperand w) : Shape w .operand
  | terminator (h : IsTerminator w) : Shape w .terminator
  | joined {g : Given} (h : Joined w g) : Shape w (.option g.name.letter (some g.value))
  | separate {name : Name} (h : Separate w name) : Shape w (.optionNext name.letter)
  | refused (c : Char) : Shape w (.option c none)

theorem shape_shortWord {c : Byte} {rest : List Byte} (h : w.bytes = byte '-' :: c :: rest) :
    Shape w (shortWord c w) := by
  have hletter : ∀ name : Name, c = byte name.letter → Shape w (shortWord c w) := by
    rintro name rfl
    rw [shortWord_letter]
    split_ifs with hlength
    · refine .separate (.short ?_)
      rw [h] at hlength
      rw [h, List.length_eq_zero_iff.1 (show rest.length = 0 by simpa using hlength)]
    · refine .joined (g := ⟨name, w.drop 2⟩) (.short ?_ ?_)
      · rintro hnil
        rw [bytes_drop, h] at hnil
        change rest = [] at hnil
        simp [h, hnil] at hlength
      · rw [bytes_drop, h]
        rfl
  by_cases hl : c = byte 'l'
  · exact hletter .loader hl
  by_cases hp : c = byte 'p'
  · exact hletter .proctitlePrefix hp
  rw [shortWord, if_neg (by simp [hl, hp])]
  split_ifs
  all_goals exact .refused _

theorem shape_longWord {rest : List Byte} (h : w.bytes = byte '-' :: byte '-' :: rest) :
    Shape w (longWord w) := by
  have hdrop : w.bytes.drop 2 = rest := by rw [h]; rfl
  have hsplit : rest.takeWhile (· ≠ byte '=') ++ rest.dropWhile (· ≠ byte '=') = rest :=
    List.takeWhile_append_dropWhile
  have hbytes : w.bytes = byte '-' :: byte '-' :: (rest.takeWhile (· ≠ byte '=') ++
      rest.dropWhile (· ≠ byte '=')) := by rw [h, hsplit]
  have hlength : w.bytes.length = (rest.takeWhile (· ≠ byte '=')).length +
      (rest.dropWhile (· ≠ byte '=')).length + 2 := by
    rw [hbytes, List.length_cons, List.length_cons, List.length_append]
  unfold longWord
  rw [hdrop]
  dsimp only
  split
  · rename_i o hmatching
    split
    · rename_i hrequired hvalue
      obtain ⟨name, habbr, hval⟩ := abbreviates_of_matching hmatching hrequired
      have hnil : rest.dropWhile (· ≠ byte '=') = [] := by
        refine List.length_eq_zero_iff.1 ?_
        have := of_decide_eq_false hvalue
        omega
      rw [hval]
      rw [hnil, List.append_nil] at hbytes
      exact .separate (.long _ habbr hbytes)
    · rename_i hrequired hvalue
      obtain ⟨name, habbr, hval⟩ := abbreviates_of_matching hmatching hrequired
      rw [hval]
      refine .joined (g := ⟨name, w.drop _⟩) (.long _ habbr ?_)
      rcases hdropWhile : rest.dropWhile (· ≠ byte '=') with _ | ⟨b, value⟩
      · have := of_decide_eq_true hvalue
        rw [hdropWhile, List.length_nil] at hlength
        omega
      · have hb := List.head_dropWhile_not (· ≠ byte '=') (by rw [hdropWhile]; simp)
        simp only [hdropWhile, List.head_cons, decide_eq_false_iff_not, not_not] at hb
        rw [hdropWhile, hb] at hbytes
        have hvalue : w.bytes.drop ((rest.takeWhile (· ≠ byte '=')).length + 3) = value := by
          rw [hbytes]
          simp
        rw [bytes_drop, hvalue]
        exact hbytes
    · exact .refused _
    · exact .refused _
  · exact .refused _

theorem shape_word (w : CString) : Shape w (word w) := by
  unfold word
  split
  · rename_i a b rest h
    split_ifs with ha hb hrest
    · exact .operand (.inr (by simpa [h] using ha))
    · rw [not_not] at ha
      subst ha
      exact shape_shortWord h
    · rw [not_not] at ha hb
      exact .terminator (by rw [IsTerminator, h, ha, hb, hrest])
    · rw [not_not] at ha hb
      subst ha hb
      exact shape_longWord h
  · rename_i hshort
    refine .operand ?_
    rcases h : w.bytes with _ | ⟨a, _ | ⟨b, rest⟩⟩
    · exact .inr (by rw [h]; simp)
    · by_cases ha : a = byte '-'
      · exact .inl (by rw [h, ha])
      · exact .inr (by simpa [h] using ha)
    · exact absurd h (hshort a b rest)

/-! ## The loop over the options -/

variable {posixlyCorrect : Bool} {o o' : Options} {flags : List Bool} {ws operands : List CString}
  {gs : List Given}

/-- The words that are marked. -/
def selected : List Bool → List CString → List CString
  | true :: flags, w :: ws => w :: selected flags ws
  | false :: flags, _ :: ws => selected flags ws
  | _, _ => []

theorem selected_map_true (ws : List CString) : selected (ws.map fun _ => true) ws = ws := by
  induction ws with
  | nil => rfl
  | cons w ws ih => rw [List.map_cons, selected, ih]

/-- An option that cannot be read ends the program. -/
theorem switch_none (o : Options) (c : Char) : ∃ status, switch o c none = .error status := by
  unfold switch
  split
  · exact ⟨0, rfl⟩
  · rename_i h
    cases h
  · rename_i h
    cases h
  · exact ⟨1, rfl⟩

/-- The words that the loop accepts are of the grammar. -/
theorem words_of_scan (h : scan posixlyCorrect o ws = .ok (flags, o')) :
    ∃ gs, Words posixlyCorrect ws gs (selected flags ws) ∧ o' = gs.foldl give o ∧
      flags.length = ws.length := by
  fun_induction scan posixlyCorrect o ws generalizing flags o' with
  | case1 o =>
    obtain ⟨rfl, rfl⟩ := Prod.mk.inj (Except.ok.inj h)
    exact ⟨[], .nil, rfl, rfl⟩
  | case2 o w rest hw hposix =>
    obtain ⟨rfl, rfl⟩ := Prod.mk.inj (Except.ok.inj h)
    have hshape := shape_word w
    rw [hw] at hshape
    cases hshape with
    | operand hoperand =>
      refine ⟨[], ?_, rfl, by simp⟩
      rw [selected, selected_map_true]
      exact .stop hoperand hposix
  | case3 o w rest hw hposix ih =>
    obtain ⟨⟨flags', o'⟩, hscan, heq⟩ := bind_eq_ok h
    obtain ⟨rfl, rfl⟩ := Prod.mk.inj (Except.ok.inj heq)
    obtain ⟨gs, hwords, ho, hlength⟩ := ih hscan
    have hshape := shape_word w
    rw [hw] at hshape
    cases hshape with
    | operand hoperand =>
      exact ⟨gs, .operand hoperand (Bool.eq_false_iff.2 hposix) hwords, ho, by simp [hlength]⟩
  | case4 o w rest hw =>
    obtain ⟨rfl, rfl⟩ := Prod.mk.inj (Except.ok.inj h)
    have hshape := shape_word w
    rw [hw] at hshape
    cases hshape with
    | terminator hterminator =>
      refine ⟨[], ?_, rfl, by simp⟩
      rw [selected, selected_map_true]
      exact .terminator hterminator
  | case5 o w rest c optarg hw ih =>
    obtain ⟨o₁, hswitch, h⟩ := bind_eq_ok h
    obtain ⟨⟨flags', o'⟩, hscan, heq⟩ := bind_eq_ok h
    obtain ⟨rfl, rfl⟩ := Prod.mk.inj (Except.ok.inj heq)
    obtain ⟨gs, hwords, ho, hlength⟩ := ih o₁ hscan
    have hshape := shape_word w
    rw [hw] at hshape
    cases hshape with
    | @joined g hjoined =>
      rw [Name.switch_eq] at hswitch
      obtain rfl := Except.ok.inj hswitch
      exact ⟨g :: gs, .joined hjoined hwords, ho, by simp [hlength]⟩
    | refused =>
      obtain ⟨status, hnone⟩ := switch_none o c
      rw [hnone] at hswitch
      cases hswitch
  | case6 o w c hw =>
    obtain ⟨o₁, hswitch, -⟩ := bind_eq_ok h
    cases hswitch
  | case7 o w c hw value rest ih =>
    obtain ⟨o₁, hswitch, h⟩ := bind_eq_ok h
    obtain ⟨⟨flags', o'⟩, hscan, heq⟩ := bind_eq_ok h
    obtain ⟨rfl, rfl⟩ := Prod.mk.inj (Except.ok.inj heq)
    obtain ⟨gs, hwords, ho, hlength⟩ := ih o₁ hscan
    have hshape := shape_word w
    rw [hw] at hshape
    cases hshape with
    | @separate name hseparate =>
      rw [Name.switch_eq] at hswitch
      obtain rfl := Except.ok.inj hswitch
      exact ⟨⟨name, value⟩ :: gs, .separate hseparate hwords, ho, by simp [hlength]⟩

/-- The words of the grammar are accepted by the loop. -/
theorem scan_of_words (h : Words posixlyCorrect ws gs operands) (o : Options) :
    ∃ flags, scan posixlyCorrect o ws = .ok (flags, gs.foldl give o) ∧
      selected flags ws = operands ∧ flags.length = ws.length := by
  induction h generalizing o with
  | nil => exact ⟨[], rfl, rfl, rfl⟩
  | @terminator w rest h =>
    refine ⟨false :: rest.map fun _ => true, ?_, ?_, ?_⟩
    · rw [scan, word_of_terminator h]
      rfl
    · rw [selected, selected_map_true]
    · simp
  | @stop w rest h hposix =>
    refine ⟨true :: rest.map fun _ => true, ?_, ?_, ?_⟩
    · rw [scan, word_of_operand h]
      exact if_pos hposix
    · rw [selected, selected_map_true]
    · simp
  | operand h hposix hrest ih =>
    obtain ⟨flags, hscan, hselected, hlength⟩ := ih o
    refine ⟨true :: flags, ?_, ?_, by simp [hlength]⟩
    · rw [scan, word_of_operand h, if_neg (by simp [hposix]), hscan]
      rfl
    · rw [selected, hselected]
  | @joined w rest g gs operands h hrest ih =>
    obtain ⟨flags, hscan, hselected, hlength⟩ := ih (give o g)
    refine ⟨false :: flags, ?_, ?_, by simp [hlength]⟩
    · rw [scan, word_of_joined h]
      simp only [Name.switch_eq]
      rw [show (⟨g.name, g.value⟩ : Given) = g from rfl]
      simp only [bind, Except.bind, hscan]
      rfl
    · rw [selected, hselected]
  | @separate w value rest name gs operands h hrest ih =>
    obtain ⟨flags, hscan, hselected, hlength⟩ := ih (give o ⟨name, value⟩)
    refine ⟨false :: false :: flags, ?_, ?_, by simp [hlength]⟩
    · rw [scan, word_of_separate h]
      simp only [Name.switch_eq, bind, Except.bind, hscan]
      rfl
    · rw [selected, selected, hselected]

/-! ## The number of workers -/

/-- The bytes that `strtol` skips. -/
abbrev IsBlank (b : Byte) : Prop := b = byte ' ' ∨ 9 ≤ b.toNat ∧ b.toNat ≤ 13

abbrev IsDigit (b : Byte) : Prop := 48 ≤ b.toNat ∧ b.toNat ≤ 57

/-- The number that digits stand for, the first of them being the most significant one. -/
def decimalValue (digits : List Byte) : ℕ :=
  Nat.ofDigits 10 (digits.reverse.map fun b => b.toNat - 48)

/-- The word is a number in decimal, with nothing behind it. -/
inductive Number (n : ℕ) : List Byte → Prop
  | mk (blanks sign digits : List Byte) (hblanks : ∀ b ∈ blanks, IsBlank b)
      (hsign : sign = [] ∨ sign = [byte '+']) (hne : digits ≠ [])
      (hdigits : ∀ b ∈ digits, IsDigit b) (hn : decimalValue digits = n) :
      Number n (blanks ++ (sign ++ digits))

theorem foldl_eq_decimalValue (digits : List Byte) :
    digits.foldl (fun n b => 10 * n + (b.toNat - 48)) 0 = decimalValue digits := by
  rw [decimalValue, Nat.ofDigits_eq_foldr, List.foldr_map, List.foldr_reverse]
  simp [Nat.add_comm]

theorem IsDigit.not_blank {b : Byte} (h : IsDigit b) : ¬ IsBlank b := by
  obtain ⟨hlo, hhi⟩ := h
  rintro (rfl | ⟨-, hblank⟩)
  · exact absurd hlo (by decide)
  · omega

theorem IsDigit.ne {b : Byte} (h : IsDigit b) (c : Char) (hc : c.toNat < 48) : b ≠ byte c := by
  rintro rfl
  have hlo := h.1
  rw [byte, BitVec.toNat_ofNat, Nat.mod_eq_of_lt (by omega)] at hlo
  omega

/-- `strtol` on digits with a sign in front of them or none. -/
theorem strtol_unsigned {blanks digits : List Byte} (hblanks : ∀ b ∈ blanks, IsBlank b)
    (hne : digits ≠ []) (hdigits : ∀ b ∈ digits, IsDigit b) {sign : List Byte}
    (hsign : sign = [] ∨ sign = [byte '+']) :
    strtol (blanks ++ (sign ++ digits)) = (min (2 ^ 63 - 1) (decimalValue digits : ℤ), []) := by
  have htake : digits.takeWhile (fun b => decide (48 ≤ b.toNat ∧ b.toNat ≤ 57)) = digits :=
    List.takeWhile_eq_self_iff.2 fun b hb => decide_eq_true (hdigits b hb)
  have hdrop : digits.dropWhile (fun b => decide (48 ≤ b.toNat ∧ b.toNat ≤ 57)) = [] :=
    List.dropWhile_eq_nil_iff.2 fun b hb => decide_eq_true (hdigits b hb)
  have hblank : (blanks ++ (sign ++ digits)).dropWhile
      (fun b => decide (b = byte ' ' ∨ 9 ≤ b.toNat ∧ b.toNat ≤ 13)) = sign ++ digits := by
    rw [List.dropWhile_append_of_pos fun b hb => decide_eq_true (hblanks b hb)]
    rcases hsign with rfl | rfl
    · obtain ⟨d, ds, rfl⟩ := List.exists_cons_of_ne_nil hne
      exact List.dropWhile_cons_of_neg (by
        rw [decide_eq_true_eq]
        exact (hdigits d List.mem_cons_self).not_blank)
    · rfl
  have hunsigned : ∀ c : Char, c.toNat < 48 → digits.head? ≠ some (byte c) := by
    intro c hc hhead
    exact (hdigits _ (List.mem_of_head? hhead)).ne c hc rfl
  unfold strtol
  rw [hblank]
  rcases hsign with rfl | rfl
  · have hminus := hunsigned '-' (by decide)
    have hplus := hunsigned '+' (by decide)
    simp only [List.nil_append, hminus, hplus, or_self, if_false, htake, hdrop, hne,
      foldl_eq_decimalValue]
  · have hplus : byte '+' ≠ byte '-' := by decide
    simp only [List.cons_append, List.nil_append, List.head?_cons, Option.some.injEq, hplus,
      or_true, if_true, if_false, List.tail_cons, htake, hdrop, hne, foldl_eq_decimalValue]

/-- What `strtol` reads to the end, unless there is a minus sign. -/
theorem number_of_strtol {w : List Byte} {k : ℤ} (h : strtol w = (k, [])) (hpos : 0 < k)
    (hle : k ≤ 65536) : Number k.toNat w := by
  obtain ⟨blanks, rest, hw, hblanks, hrest⟩ : ∃ blanks rest, w = blanks ++ rest ∧
      (∀ b ∈ blanks, IsBlank b) ∧ w.dropWhile (fun b => decide (IsBlank b)) = rest :=
    ⟨w.takeWhile fun b => decide (IsBlank b), _, List.takeWhile_append_dropWhile.symm,
      fun b hb => of_decide_eq_true (List.mem_takeWhile_imp (p := fun b => decide (IsBlank b)) hb),
      rfl⟩
  unfold strtol at h
  rw [hrest] at h
  dsimp only at h
  set tail := if rest.head? = some (byte '-') ∨ rest.head? = some (byte '+') then rest.tail
    else rest with htail
  split_ifs at h with hdigits hnegative
  · obtain rfl := (Prod.mk.inj h).1
    omega
  · obtain rfl := (Prod.mk.inj h).1
    omega
  · obtain ⟨hk, hend⟩ := Prod.mk.inj h
    have hall : ∀ b ∈ tail, IsDigit b := fun b hb =>
      of_decide_eq_true (List.dropWhile_eq_nil_iff.1 hend b hb)
    rw [List.takeWhile_eq_self_iff.2 fun b hb => decide_eq_true (hall b hb)] at hdigits hk
    rw [foldl_eq_decimalValue] at hk
    obtain ⟨sign, hsign, hrest⟩ :
        ∃ sign, (sign = [] ∨ sign = [byte '+']) ∧ rest = sign ++ tail := by
      by_cases hplus : rest.head? = some (byte '+')
      · rw [if_pos (.inr hplus)] at htail
        refine ⟨[byte '+'], .inr rfl, ?_⟩
        rw [htail]
        exact (List.cons_head?_tail hplus).symm
      · rw [if_neg (by simp [hnegative, hplus])] at htail
        exact ⟨[], .inl rfl, htail.symm⟩
    rw [hw, hrest]
    exact .mk blanks sign tail hblanks hsign hdigits hall (by omega)

/-- **What is accepted as a number of workers.** -/
theorem numWorkers_ok_iff {w : List Byte} {n : WorkerCount} :
    numWorkers w = .ok n ↔ Number n.1 w := by
  obtain ⟨n, hpos, hle⟩ := n
  constructor
  · intro h
    unfold numWorkers at h
    rcases hstrtol : strtol w with ⟨k, endptr⟩
    rw [hstrtol] at h
    dsimp only at h
    split_ifs at h with hend hrange
    rw [ne_eq, not_not] at hend
    subst hend
    obtain rfl := congrArg Subtype.val (Except.ok.inj h)
    exact number_of_strtol hstrtol hrange.1 hrange.2
  · rintro ⟨blanks, sign, digits, hblanks, hsign, hne, hdigits, rfl⟩
    unfold numWorkers
    rw [strtol_unsigned hblanks hne hdigits hsign]
    have hmin : min (2 ^ 63 - 1) (decimalValue digits : ℤ) = decimalValue digits := by omega
    simp only [hmin]
    rw [if_neg (by simp), dif_pos (by omega)]
    congr 2

/-! ## The whole command line -/

/-- What a command line asks for. -/
structure Request where
  options : Options
  psgiApplicationPath : CString
  nworkers : WorkerCount
  fastcgiSocketPath : CString
  statsSocketPath : CString

/-- What `main` hands on is what has been asked for. -/
structure Asks (argv : List CString) (inv : Invocation) (r : Request) : Prop where
  options : inv.options = r.options
  psgiApplicationPath : argv[inv.psgiApplicationPath]? = some r.psgiApplicationPath
  nworkers : inv.nworkers = r.nworkers
  fastcgiSocketPath : argv[inv.fastcgiSocketPath]? = some r.fastcgiSocketPath
  statsSocketPath : argv[inv.statsSocketPath]? = some r.statsSocketPath

/-- The command line asks for this. -/
inductive CommandLine (posixlyCorrect : Bool) (r : Request) : List CString → Prop
  | mk {program nworkers : CString} {ws : List CString} {gs : List Given}
      (hhelp : helpOrVersion (program :: ws) = false)
      (hwords : Words posixlyCorrect ws gs
        [r.psgiApplicationPath, nworkers, r.fastcgiSocketPath, r.statsSocketPath])
      (hnworkers : Number r.nworkers nworkers.bytes)
      (hoptions : r.options = gs.foldl give ⟨none, blade⟩) :
      CommandLine posixlyCorrect r (program :: ws)

/-- The words that are marked, by their positions. -/
theorem map_positions {flags : List Bool} {before ws : List CString}
    (h : flags.length = ws.length) :
    (positions true before.length flags).map (fun j => (before ++ ws)[j]?) =
      (selected flags ws).map some := by
  induction flags generalizing before ws with
  | nil => simp [positions, selected]
  | cons flag flags ih =>
    cases ws with
    | nil => cases h
    | cons w ws =>
      have ih := @ih (before ++ [w]) ws (Nat.succ.inj h)
      rw [List.length_append, List.length_singleton, List.append_assoc, List.singleton_append] at ih
      cases flag with
      | true =>
        rw [positions, if_pos rfl, List.map_cons, ih, selected, List.map_cons]
        simp
      | false =>
        rw [positions, if_neg (by simp), ih, selected]

variable {argv : List CString} {program : CString} {options : Options} {inv : Invocation}
  {r : Request}

/-- Four operands have been found. -/
theorem operandsOf_eq {a n f s : ℕ} (h : flags.length = ws.length)
    (hpositions : positions true 1 flags = [a, n, f, s]) :
    operandsOf (program :: ws) flags options =
      (numWorkers (((program :: ws)[n]?.map CString.bytes).getD [])).map fun nworkers =>
        ⟨flags, options, a, nworkers, f, s⟩ := by
  have hlength := length_positions 1 flags
  rw [hpositions] at hlength
  simp only [List.length_cons, List.length_nil] at hlength
  unfold operandsOf
  dsimp only
  rw [drop_order, hpositions, if_neg (by rw [List.length_cons]; omega)]
  dsimp only
  cases numWorkers (((program :: ws)[n]?.map CString.bytes).getD []) <;> rfl

theorem operandsOf_ok_iff (h : flags.length = ws.length) :
    (∃ inv, operandsOf (program :: ws) flags options = .ok inv ∧ Asks (program :: ws) inv r) ↔
      r.options = options ∧ ∃ nworkers, selected flags ws =
          [r.psgiApplicationPath, nworkers, r.fastcgiSocketPath, r.statsSocketPath] ∧
        Number r.nworkers nworkers.bytes := by
  have hmap : (positions true 1 flags).map (fun j => (program :: ws)[j]?) =
      (selected flags ws).map some := @map_positions flags [program] ws h
  constructor
  · rintro ⟨inv, hrun, hasks⟩
    obtain ⟨a, n, f, s, hpositions⟩ := List.length_eq_four.1 (operandsOf_cases hrun).2.2.2.1
    rw [operandsOf_eq h hpositions] at hrun
    rw [hpositions] at hmap
    cases hnworkers : numWorkers (((program :: ws)[n]?.map CString.bytes).getD []) with
    | error status =>
      rw [hnworkers] at hrun
      cases hrun
    | ok nworkers =>
      rw [hnworkers] at hrun
      obtain rfl := Except.ok.inj hrun
      obtain ⟨wa, wn, wf, ws', hselected⟩ :=
        List.length_eq_four.1 (show (selected flags ws).length = 4 by
          simpa using (congrArg List.length hmap).symm)
      rw [hselected] at hmap ⊢
      simp only [List.map_cons, List.map_nil, List.cons.injEq, and_true] at hmap
      obtain ⟨ha, hn, hf, hs⟩ := hmap
      rw [hn, Option.map_some, Option.getD_some, numWorkers_ok_iff] at hnworkers
      have ha' := Option.some.inj (ha.symm.trans hasks.psgiApplicationPath)
      have hf' := Option.some.inj (hf.symm.trans hasks.fastcgiSocketPath)
      have hs' := Option.some.inj (hs.symm.trans hasks.statsSocketPath)
      refine ⟨hasks.options.symm, wn, by rw [ha', hf', hs'], ?_⟩
      rw [← hasks.nworkers]
      exact hnworkers
  · rintro ⟨rfl, wn, hselected, hnumber⟩
    rw [hselected] at hmap
    obtain ⟨a, n, f, s, hpositions⟩ := List.length_eq_four.1 (show
      (positions true 1 flags).length = 4 by simpa using congrArg List.length hmap)
    rw [hpositions] at hmap
    simp only [List.map_cons, List.map_nil, List.cons.injEq, and_true] at hmap
    obtain ⟨ha, hn, hf, hs⟩ := hmap
    refine ⟨⟨flags, r.options, a, r.nworkers, f, s⟩, ?_, rfl, ha, rfl, hf, hs⟩
    rw [operandsOf_eq h hpositions, hn, Option.map_some, Option.getD_some,
      numWorkers_ok_iff.2 hnumber]
    rfl

/-- **`main` goes on exactly with the command lines of the grammar**, and with what they say. -/
theorem main_ok_iff (posixlyCorrect : Bool) (argv : List CString) (r : Request) :
    (∃ inv, main posixlyCorrect argv = .ok inv ∧ Asks argv inv r) ↔
      CommandLine posixlyCorrect r argv := by
  constructor
  · rintro ⟨inv, hrun, hasks⟩
    obtain ⟨hlength, -⟩ := main_cases hrun
    obtain ⟨program, ws, rfl⟩ := List.exists_cons_of_ne_nil (List.ne_nil_of_length_pos
      (show 0 < argv.length by omega))
    unfold main at hrun
    split_ifs at hrun with hhelp
    obtain ⟨⟨flags, options⟩, hscan, hrun⟩ := bind_eq_ok hrun
    rw [List.tail_cons] at hscan
    obtain ⟨gs, hwords, hoptions, hflags⟩ := words_of_scan hscan
    obtain ⟨ho, nworkers, hselected, hnumber⟩ := (operandsOf_ok_iff hflags).1 ⟨inv, hrun, hasks⟩
    rw [hselected] at hwords
    exact .mk (Bool.eq_false_iff.2 hhelp) hwords hnumber (ho.trans hoptions)
  · rintro ⟨hhelp, hwords, hnumber, hoptions⟩
    obtain ⟨flags, hscan, hselected, hflags⟩ := scan_of_words hwords ⟨none, blade⟩
    obtain ⟨inv, hrun, hasks⟩ := (operandsOf_ok_iff hflags).2 ⟨hoptions, _, hselected, hnumber⟩
    refine ⟨inv, ?_, hasks⟩
    rw [main, if_neg (by rw [hhelp]; simp), List.tail_cons, hscan]
    exact hrun

end BladePSGI.Main.Usage

import BladePSGI.Foundations.CString
import BladePSGI.Foundations.Text
import BladePSGI.Process
import Mathlib.Data.List.DropRight

/-!
# The log

`BPSGIMainApplication::Log` writes a line with the local time, the severity and the message, which a
buffer of 2048 bytes cuts off. Nothing is escaped. The message is often the text of an exception, in
another buffer.

* `isSome_timestr`: no time is too long for the buffer of the time stamp.
* `log_inj`: the text of a log determines its records, unless a message contains a newline.
* `strerror_eq`: a `PerlInterpreterException` loses the newlines at its end, and the loop that takes
  them away stays in the buffer.
-/

namespace BladePSGI.Log

open Text Transition

/-! ## Padded numbers -/

/-- `%0*d` of a number that is not negative. -/
def padded (width n : ℕ) : List Byte :=
  (List.replicate (width - (Nat.toDigits 10 n).length) '0' ++ Nat.toDigits 10 n).map byte

/-- `%0*d`. -/
def paddedInt (width : ℕ) : ℤ → List Byte
  | (n : ℕ) => padded width n
  | Int.negSucc n => byte '-' :: padded (width - 1) (n + 1)

theorem isDigit_of_mem_padded {width n : ℕ} {c : Char}
    (h : c ∈ List.replicate (width - (Nat.toDigits 10 n).length) '0' ++ Nat.toDigits 10 n) :
    c.isDigit := by
  rcases List.mem_append.1 h with h | h
  · rw [List.eq_of_mem_replicate h]
    decide
  · exact isDigit_of_mem h

theorem mem_padded {width n : ℕ} {b : Byte} (h : b ∈ padded width n) :
    48 ≤ b.toNat ∧ b.toNat ≤ 57 := by
  obtain ⟨c, hc, rfl⟩ := List.mem_map.1 h
  obtain ⟨heq, hlo, hhi⟩ := toNat_byte (isDigit_of_mem_padded hc)
  rw [heq]
  exact ⟨hlo, hhi⟩

/-- A separator is not a digit. -/
theorem notMem_padded {width n : ℕ} {b : Byte} (h : b.toNat < 48 ∨ 57 < b.toNat) :
    b ∉ padded width n := by
  intro hmem
  have := mem_padded hmem
  omega

/-- **A padded number is read back.** -/
theorem padded_injective (width : ℕ) : Function.Injective (padded width) := by
  have hvalue : ∀ n, Nat.ofDigitChars 10 ((padded width n).map fun b => Char.ofNat b.toNat) 0 =
      n := by
    intro n
    have hback : (padded width n).map (fun b => Char.ofNat b.toNat) =
        List.replicate (width - (Nat.toDigits 10 n).length) '0' ++ Nat.toDigits 10 n := by
      rw [padded, List.map_map]
      refine (List.map_congr_left fun c hc => ?_).trans (List.map_id _)
      rw [Function.comp_apply, (toNat_byte (isDigit_of_mem_padded hc)).1, Char.ofNat_toNat, id]
    rw [hback, Nat.ofDigitChars_append, Nat.ofDigitChars_replicate_zero, Nat.mul_zero,
      Nat.ofDigitChars_ten_toDigits]
  intro m n h
  rw [← hvalue m, h, hvalue n]

theorem mem_paddedInt {width : ℕ} {z : ℤ} {b : Byte} (h : b ∈ paddedInt width z) :
    b = byte '-' ∨ 48 ≤ b.toNat ∧ b.toNat ≤ 57 := by
  cases z with
  | ofNat n => exact Or.inr (mem_padded h)
  | negSucc n =>
    rcases List.mem_cons.1 h with rfl | h
    · exact Or.inl rfl
    · exact Or.inr (mem_padded h)

theorem paddedInt_injective (width : ℕ) : Function.Injective (paddedInt width) := by
  have hminus : ∀ m l, padded width m ≠ byte '-' :: l := by
    intro m l h
    have hmem : byte '-' ∈ padded width m := by rw [h]; exact List.mem_cons_self
    exact notMem_padded (by decide) hmem
  intro x y h
  cases x with
  | ofNat m =>
    cases y with
    | ofNat n => exact congrArg Int.ofNat (padded_injective width h)
    | negSucc n => exact absurd h (hminus m _)
  | negSucc m =>
    cases y with
    | ofNat n => exact absurd h.symm (hminus n _)
    | negSucc n =>
      exact congrArg Int.negSucc
        (Nat.succ.inj (padded_injective (width - 1) (List.cons_eq_cons.1 h).2))

theorem length_padded_le {width n k : ℕ} (hwidth : width ≤ k) (hk : 0 < k) (h : n < 10 ^ k) :
    (padded width n).length ≤ k := by
  have hdigits := (Nat.length_toDigits_le_iff (by decide) hk).2 h
  simp only [padded, List.length_map, List.length_append, List.length_replicate]
  omega

theorem length_paddedInt_le {width k : ℕ} {z : ℤ} (hwidth : width ≤ k) (hk : 0 < k)
    (h : z.natAbs < 10 ^ k) : (paddedInt width z).length ≤ k + 1 := by
  cases z with
  | ofNat n => exact Nat.le_succ_of_le (length_padded_le hwidth hk h)
  | negSucc n =>
    exact Nat.succ_le_succ (length_padded_le (by omega) hk h)

/-! ## The time stamp -/

/-- What `localtime` tells, with `tm_year + 1900` and `tm_mon + 1`, and the milliseconds. -/
@[ext] structure Tm where
  year : ℤ
  mon : ℕ
  mday : ℕ
  hour : ℕ
  min : ℕ
  sec : ℕ
  fractional : ℕ
  year_bound : -2147483648 ≤ year ∧ year < 2147483648
  mon_lt : mon < 13
  mday_lt : mday < 32
  hour_lt : hour < 24
  min_lt : min < 60
  sec_lt : sec < 61
  fractional_lt : fractional < 1000

/-- `"%04d-%02d-%02d"`. -/
def date (tm : Tm) : List Byte :=
  paddedInt 4 tm.year ++ byte '-' :: (padded 2 tm.mon ++ byte '-' :: padded 2 tm.mday)

/-- `"%04d-%02d-%02d %02d:%02d:%02d.%03d "`. -/
def printed (tm : Tm) : List Byte :=
  date tm ++ byte ' ' :: (padded 2 tm.hour ++ byte ':' :: (padded 2 tm.min ++ byte ':' ::
    (padded 2 tm.sec ++ byte '.' :: (padded 3 tm.fractional ++ [byte ' ']))))

/-- `timestr`, `none` where `Log` throws since the buffer is too small. -/
def timestr (tm : Tm) : Option (List Byte) :=
  if 40 ≤ (printed tm).length then none else some (printed tm)

/-- **The buffer is large enough** for the longest year of an `int`. -/
theorem isSome_timestr (tm : Tm) : timestr tm = some (printed tm) := by
  obtain ⟨year, mon, mday, hour, min, sec, fractional, hyear, hmon, hmday, hhour, hmin, hsec,
    hfractional⟩ := tm
  have hy : (paddedInt 4 year).length ≤ 11 :=
    length_paddedInt_le (k := 10) (by decide) (by decide) (by omega)
  have two : ∀ n < 100, (padded 2 n).length ≤ 2 := fun n h =>
    length_padded_le (Nat.le_refl _) (by decide) h
  have hthree : (padded 3 fractional).length ≤ 3 :=
    length_padded_le (Nat.le_refl _) (by decide) hfractional
  have := two mon (by omega)
  have := two mday (by omega)
  have := two hour (by omega)
  have := two min (by omega)
  have := two sec (by omega)
  rw [timestr, if_neg]
  simp only [printed, date, List.length_append, List.length_cons, List.length_nil]
  omega

theorem notMem_date (tm : Tm) : byte ' ' ∉ date tm := by
  intro hmem
  simp only [date, List.mem_append, List.mem_cons] at hmem
  rcases hmem with hmem | hmem | hmem | hmem | hmem
  · rcases mem_paddedInt hmem with hmem | hmem
    · exact absurd hmem (by decide)
    · exact absurd hmem.1 (by decide)
  · exact absurd hmem (by decide)
  · exact notMem_padded (by decide) hmem
  · exact absurd hmem (by decide)
  · exact notMem_padded (by decide) hmem

/-- The last two fields of a date have no sign. -/
theorem date_inj {tm tm' : Tm} (h : date tm = date tm') :
    tm.year = tm'.year ∧ tm.mon = tm'.mon ∧ tm.mday = tm'.mday := by
  have hassoc : ∀ tm, date tm = (paddedInt 4 tm.year ++ byte '-' :: padded 2 tm.mon) ++
      byte '-' :: padded 2 tm.mday := by
    intro tm
    simp [date]
  rw [hassoc, hassoc] at h
  obtain ⟨h, hmday⟩ :=
    append_cons_inj_last (notMem_padded (by decide)) (notMem_padded (by decide)) h
  obtain ⟨hyear, hmon⟩ :=
    append_cons_inj_last (notMem_padded (by decide)) (notMem_padded (by decide)) h
  exact ⟨paddedInt_injective 4 hyear, padded_injective 2 hmon, padded_injective 2 hmday⟩

/-- **A time stamp is read back**, with what follows it. -/
theorem printed_inj {tm tm' : Tm} {l l' : List Byte} (h : printed tm ++ l = printed tm' ++ l') :
    tm = tm' ∧ l = l' := by
  have field : ∀ {b : Byte}, (b.toNat < 48 ∨ 57 < b.toNat) → ∀ {w m n : ℕ} {r r' : List Byte},
      padded w m ++ b :: r = padded w n ++ b :: r' → m = n ∧ r = r' := by
    intro b hb w m n r r' h
    obtain ⟨heq, hr⟩ := append_cons_inj_first (notMem_padded hb) (notMem_padded hb) h
    exact ⟨padded_injective w heq, hr⟩
  simp only [printed, List.append_assoc, List.cons_append, List.nil_append] at h
  obtain ⟨hdate, h⟩ := append_cons_inj_first (notMem_date tm) (notMem_date tm') h
  obtain ⟨hyear, hmon, hmday⟩ := date_inj hdate
  obtain ⟨hhour, h⟩ := field (by decide) h
  obtain ⟨hmin, h⟩ := field (by decide) h
  obtain ⟨hsec, h⟩ := field (by decide) h
  obtain ⟨hfractional, h⟩ := field (by decide) h
  exact ⟨Tm.ext hyear hmon hmday hhour hmin hsec hfractional, h⟩

/-! ## Lines -/

/-- `vsnprintf` into a buffer: as much as fits, and a NUL. -/
def vsnprintf (bufsize : ℕ) (s : CString) : List Byte := s.bytes.take (bufsize - 1) ++ [0]

theorem read_vsnprintf (bufsize : ℕ) (s : CString) :
    CString.read (vsnprintf bufsize s) 0 = s.bytes.take (bufsize - 1) :=
  CString.takeWhile_append (fun h => s.nul_notMem (List.mem_of_mem_take h)) []

/-- The severity in the line. -/
def severityText : LogSeverity → List Byte
  | .log => ['L', 'O', 'G', ':', ' ', ' '].map byte
  | .warning => ['W', 'A', 'R', 'N', 'I', 'N', 'G', ':', ' ', ' '].map byte
  | .error => ['E', 'R', 'R', 'O', 'R', ':', ' ', ' '].map byte
  | .fatal => ['F', 'A', 'T', 'A', 'L', ':', ' ', ' '].map byte
  | .panic => ['P', 'A', 'N', 'I', 'C', ':', ' ', ' '].map byte

/-- The severities begin differently. -/
theorem severityText_inj {severity severity' : LogSeverity} {l l' : List Byte}
    (h : severityText severity ++ l = severityText severity' ++ l') :
    severity = severity' ∧ l = l' := by
  cases severity <;> cases severity' <;>
    first
    | exact ⟨rfl, List.append_cancel_left h⟩
    | exact absurd (List.cons_eq_cons.1 h).1 (by decide)

/-- A call of `Log`, with the formatted message. -/
structure Record where
  tm : Tm
  severity : LogSeverity
  message : CString

/-- What is written to `stderr`, `none` where `Log` throws. -/
def Record.line (record : Record) : Option (List Byte) :=
  (timestr record.tm).map fun timestr =>
    timestr ++ severityText record.severity ++ CString.read (vsnprintf 2048 record.message) 0 ++
      [byte '\n']

/-- The message as far as it gets into the line. -/
def Record.printed (record : Record) : List Byte := record.message.bytes.take 2047

theorem line_eq (record : Record) : record.line =
    some (Log.printed record.tm ++ (severityText record.severity ++ (record.printed ++
      [byte '\n']))) := by
  rw [Record.line, isSome_timestr, Option.map_some, read_vsnprintf, List.append_assoc,
    List.append_assoc]
  rfl

/-- What a line tells. -/
def Record.told (record : Record) : Tm × LogSeverity × List Byte :=
  (record.tm, record.severity, record.printed)

/-- The text of a log. -/
def text (records : List Record) : List Byte :=
  records.flatMap fun record => record.line.getD []

/-- **The text of a log determines its records**, as far as they are printed, unless a message
contains a newline. -/
theorem log_inj {records records' : List Record}
    (h : ∀ record ∈ records, byte '\n' ∉ record.printed)
    (h' : ∀ record ∈ records', byte '\n' ∉ record.printed)
    (heq : text records = text records') :
    records.map Record.told = records'.map Record.told := by
  induction records generalizing records' with
  | nil =>
    cases records' with
    | nil => rfl
    | cons record' records' => simp [text, line_eq] at heq
  | cons record records ih =>
    cases records' with
    | nil => simp [text, line_eq] at heq
    | cons record' records' =>
      simp only [text, List.flatMap_cons, line_eq, Option.getD_some, List.append_assoc] at heq
      obtain ⟨htm, heq⟩ := printed_inj heq
      obtain ⟨hseverity, heq⟩ := severityText_inj heq
      obtain ⟨hprinted, heq⟩ := append_cons_inj_first (h record List.mem_cons_self)
        (h' record' List.mem_cons_self) heq
      have hrest := ih (fun r hr => h r (List.mem_cons_of_mem _ hr))
        (fun r hr => h' r (List.mem_cons_of_mem _ hr)) (by simpa [text, line_eq] using heq)
      simp [Record.told, htm, hseverity, hprinted, hrest]

/-- A message that is one byte too long. -/
def tooLong (last : Byte) (h : last ≠ 0) : Record where
  tm := ⟨2024, 2, 29, 23, 59, 60, 7, by decide, by decide, by decide, by decide, by decide,
    by decide, by decide⟩
  severity := .panic
  message := ⟨List.replicate 2047 (byte 'a') ++ [last], by
    rw [List.mem_append, List.mem_replicate, List.mem_singleton]
    exact fun hmem => hmem.elim (fun ha => absurd ha.2 (by decide)) fun heq => h heq.symm⟩

theorem printed_tooLong (last : Byte) (h : last ≠ 0) :
    (tooLong last h).printed = List.replicate 2047 (byte 'a') :=
  List.take_left' List.length_replicate

theorem log_inj_tooLong : [tooLong (byte 'b') (by decide)].map Record.told =
    [tooLong (byte 'c') (by decide)].map Record.told := by
  have hnewline : ∀ {last} (h : last ≠ 0), ∀ record ∈ [tooLong last h],
      byte '\n' ∉ record.printed := by
    intro last h record hrecord
    rw [List.mem_singleton.1 hrecord, printed_tooLong, List.mem_replicate]
    exact fun hmem => absurd hmem.2 (by decide)
  refine log_inj (hnewline _) (hnewline _) ?_
  simp only [text, List.flatMap_cons, List.flatMap_nil, line_eq, printed_tooLong]
  rfl

/-! ## The text of a `PerlInterpreterException` -/

def isEol (b : Byte) : Bool := b = byte '\r' || b = byte '\n'

/-- The loop over the end of the message, with `p + 1 - buf` for the pointer. It is `none` where the
pointer leaves the buffer. -/
def chomp (buf : List Byte) : ℕ → Option (List Byte)
  | 0 => some buf
  | n + 1 =>
    match buf[n]? with
    | none => none
    | some b => if isEol b then chomp (buf.set n 0) n else some buf

/-- What the constructor makes of the formatted message, in a buffer that ends with what `malloc`
has found there. -/
def perlInterpreterException (s : CString) (garbage : List Byte) : Option (List Byte) :=
  let buf := vsnprintf 4096 s ++ garbage
  (chomp buf (CString.strlen buf 0)).map fun buf => CString.read buf 0

/-- The loop replaces the newlines by NULs. -/
theorem chomp_append (l r : List Byte) :
    ∃ r', chomp (l ++ 0 :: r) l.length = some (l.rdropWhile isEol ++ 0 :: r') := by
  induction l using List.reverseRecOn generalizing r with
  | nil => exact ⟨r, rfl⟩
  | append_singleton l b ih =>
    have hget : (l ++ [b] ++ 0 :: r)[l.length]? = some b := by
      simp
    have hset : (l ++ [b] ++ 0 :: r).set l.length 0 = l ++ 0 :: (0 :: r) := by
      simp [List.set_append_right]
    rw [List.length_append, List.length_singleton, chomp, hget]
    dsimp only
    split_ifs with hb
    · obtain ⟨r', hr'⟩ := ih (0 :: r)
      rw [hset, hr', List.rdropWhile_concat_pos _ _ _ hb]
      exact ⟨r', rfl⟩
    · rw [List.rdropWhile_concat_neg _ _ _ hb]
      exact ⟨r, rfl⟩

/-- **The newlines at the end of the message are gone, and nothing else**, but for what does not fit
into the buffer. -/
theorem strerror_eq (s : CString) (garbage : List Byte) :
    perlInterpreterException s garbage = some ((s.bytes.take 4095).rdropWhile isEol) := by
  have hnul : 0#8 ∉ s.bytes.take 4095 := fun h => s.nul_notMem (List.mem_of_mem_take h)
  have hbuf : vsnprintf 4096 s ++ garbage = s.bytes.take 4095 ++ 0 :: garbage := by
    simp [vsnprintf]
  have hlen : CString.strlen (s.bytes.take 4095 ++ 0 :: garbage) 0 = (s.bytes.take 4095).length :=
    congrArg List.length (CString.takeWhile_append hnul garbage)
  obtain ⟨r', hr'⟩ := chomp_append (s.bytes.take 4095) garbage
  simp only [perlInterpreterException, hbuf, hlen, hr', Option.map_some]
  exact congrArg some (CString.takeWhile_append
    (fun h => hnul ((List.rdropWhile_prefix isEol _).subset h)) r')

end BladePSGI.Log

import NedoCron.Lib.Calendar
import Mathlib.Data.List.Basic

namespace NedoCron

/-!
# nedo_cron — what the sources take from C and from PostgreSQL

The part of the C library and of PostgreSQL's timestamp code that the extension calls, with
the documented behaviour of each function:

* C strings are lists of bytes without their terminator, and `int` arithmetic that may leave
  the 32-bit range goes through `toInt32` (PostgreSQL builds with `-fwrapv`);
* `vsnprintf` interprets a format; a directive without a matching argument is undefined in
  C, so what it leaves in the buffer is a parameter (`leftover`);
* a `TimestampTz` counts microseconds since 1 January 2000, 00:00:00 UTC;
* `gmtime` is the calendar of `Lib/Calendar.lean` under the field names of `struct tm`.
-/

/-! ### Bytes, integers and strings -/

/-- A NUL-terminated string, as its bytes before the terminator. -/
abbrev CString := List UInt8

/-- The bytes of an ASCII literal. -/
def ascii (s : String) : CString := s.toList.map fun c => UInt8.ofNat c.toNat

/-- `INT_MAX`. -/
def intMax : Int := 2147483647

/-- `LONG_MAX`. -/
def longMax : Int := 9223372036854775807

/-- Reduce to a 32-bit `int`, wrapping around. -/
def toInt32 (n : Int) : Int := (n + 2147483648) % 4294967296 - 2147483648

/-- A number that fits is not wrapped. -/
theorem toInt32_of_mem {n : Int} (hlo : -2147483648 ≤ n) (hhi : n ≤ intMax) : toInt32 n = n := by
  unfold toInt32
  unfold intMax at hhi
  omega

/-- `isdigit` in the C locale. -/
def isdigit (c : UInt8) : Bool := decide (48 ≤ c.toNat) && decide (c.toNat ≤ 57)

/-- `tolower` in the C locale. -/
def tolower (c : UInt8) : UInt8 :=
  if 65 ≤ c.toNat ∧ c.toNat ≤ 90 then UInt8.ofNat (c.toNat + 32) else c

/-- `strcasecmp(s, t) == 0`; PostgreSQL's `pg_strcasecmp` agrees with it on ASCII names. -/
def strcasecmpEq (s t : CString) : Bool := s.map tolower == t.map tolower

/-- The number a run of decimal digits stands for. -/
def decimal (s : CString) : Nat := s.foldl (fun n c => 10 * n + (c.toNat - 48)) 0

/-- Result of `strtol(s, &endpointer, 10)`. -/
structure StrtolResult where
  value : Int
  erange : Bool
  endpointer : CString

/-- `strtol` in base 10 on a string that starts with a digit: it reads the longest run of
    digits, and saturates with `ERANGE`. -/
def strtol (s : CString) : StrtolResult where
  value := min (decimal (s.takeWhile isdigit)) longMax
  erange := decide ((decimal (s.takeWhile isdigit) : Int) > longMax)
  endpointer := s.dropWhile isdigit

/-- `%d` and `%ld`: the decimal digits of an integer. -/
def showInt (n : Int) : CString :=
  (if n < 0 then ascii "-" else []) ++
    (Nat.toDigits 10 n.natAbs).map fun c => UInt8.ofNat c.toNat

/-- The digits of a number read as the number. -/
theorem decimal_toDigits (n : Nat) :
    decimal ((Nat.toDigits 10 n).map fun c => UInt8.ofNat c.toNat) = n := by
  induction n using Nat.strongRecOn with
  | ind n ih =>
    have hdigit : ∀ d, d < 10 → (UInt8.ofNat (Nat.digitChar d).toNat).toNat - 48 = d := by decide
    by_cases hn : n < 10
    · rw [Nat.toDigits_of_lt_base hn]
      show 10 * 0 + ((UInt8.ofNat (Nat.digitChar n).toNat).toNat - 48) = n
      rw [hdigit n hn]
      omega
    · rw [Nat.toDigits_of_base_le (by decide) (by omega), List.map_append, decimal,
        List.foldl_append]
      show 10 * decimal _ + ((UInt8.ofNat (Nat.digitChar (n % 10)).toNat).toNat - 48) = n
      rw [ih (n / 10) (by omega), hdigit _ (by omega)]
      omega

/-- A printed number is read again. -/
theorem decimal_showInt {n : Int} (h : 0 ≤ n) : (decimal (showInt n) : Int) = n := by
  unfold showInt
  rw [if_neg (by omega), List.nil_append, decimal_toDigits]
  omega

/-! ### Formatted output -/

/-- An argument of a variadic call. -/
inductive FmtArg where
  | int (n : Int)
  | str (s : CString)

/-- Interpret a format and its arguments; `none` when a directive finds no argument of its
    kind, which is undefined behaviour in C. -/
def formatArgs : CString → List FmtArg → Option CString
  | [], _ => some []
  | c :: rest, args =>
    if c ≠ 37 then (formatArgs rest args).map (c :: ·)
    else match rest, args with
      | 37 :: rest, args => (formatArgs rest args).map (37 :: ·)
      | 115 :: rest, .str s :: args => (formatArgs rest args).map (s ++ ·)
      | 100 :: rest, .int n :: args => (formatArgs rest args).map (showInt n ++ ·)
      | 108 :: 100 :: rest, .int n :: args => (formatArgs rest args).map (showInt n ++ ·)
      | _, _ => none

/-- `vsnprintf(buffer, size, fmt, args)` and then the buffer as a string: at most `size - 1`
    bytes.  `leftover` is what an undefined conversion happens to leave there. -/
def vsnprintf (leftover : CString) (size : Nat) (fmt : CString) (args : List FmtArg) : CString :=
  ((formatArgs fmt args).getD leftover).take (size - 1)

/-! ### Timestamps -/

/-- `TimestampDifference`: whole seconds and remaining microseconds from `start` to `stop`,
    and zero when `stop` is not later. -/
def timestampDifference (start stop : Int) : Int × Int :=
  let diff := stop - start
  if diff ≤ 0 then (0, 0) else (diff / 1000000, diff % 1000000)

/-- `TimestampDifferenceExceeds`: `stop` is at least `msec` milliseconds after `start`. -/
def timestampDifferenceExceeds (start stop : Int) (msec : Int) : Bool :=
  decide (stop - start ≥ msec * 1000)

/-- `TimestampTzPlusMilliseconds`. -/
def timestampTzPlusMilliseconds (tz : Int) (ms : Int) : Int := tz + ms * 1000

/-- Without a margin the test compares two times. -/
@[simp] theorem timestampDifferenceExceeds_zero (start stop : Int) :
    timestampDifferenceExceeds start stop 0 = decide (start ≤ stop) := by
  simp [timestampDifferenceExceeds]

/-- Seconds from the Unix epoch to the PostgreSQL epoch. -/
def postgresEpoch : Int := 946684800

/-- `timestamptz_to_time_t`: the C division drops the fraction of the second. -/
def timestamptzToTimeT (t : Int) : Int := t.tdiv 1000000 + postgresEpoch

/-- The Unix time of the second a timestamp lies in. -/
def unixSeconds (t : Int) : Int := t / 1000000 + postgresEpoch

/-- From the PostgreSQL epoch on, and on whole seconds before it, `timestamptz_to_time_t` is
    the Unix time. -/
theorem timestamptzToTimeT_eq {t : Int} (h : 0 ≤ t ∨ t % 1000000 = 0) :
    timestamptzToTimeT t = unixSeconds t := by
  unfold timestamptzToTimeT unixSeconds
  rcases h with h | h
  · rw [Int.tdiv_eq_ediv_of_nonneg h]
  · rw [Int.tdiv_eq_ediv_of_dvd (Int.dvd_of_emod_eq_zero h)]

/-- The fields of `struct tm` that the sources read, in their documented ranges. -/
structure Tm where
  min : Nat
  hour : Nat
  mday : Nat
  mon : Nat
  year : Int
  wday : Nat
  min_lt : min < 60
  hour_lt : hour < 24
  mday_pos : 1 ≤ mday
  mday_le : mday ≤ 31
  mon_lt : mon < 12
  wday_lt : wday < 7

/-- `struct tm` of a civil date and time: months count from 0, years from 1900. -/
def Tm.ofDateTime (c : Calendar.DateTime) : Tm where
  min := c.minute
  hour := c.hour
  mday := c.date.day
  mon := c.date.month - 1
  year := c.date.year - 1900
  wday := c.date.weekday
  min_lt := c.minute_lt
  hour_lt := c.hour_lt
  mday_pos := c.date.day_pos
  mday_le := le_trans c.date.day_le (Calendar.monthLength_le _ _)
  mon_lt := by have := c.date.month_pos; have := c.date.month_le; omega
  wday_lt := by unfold Calendar.Date.weekday; omega

/-- `gmtime`. -/
def gmtime (t : Int) : Tm := Tm.ofDateTime (Calendar.ofUnix t)

end NedoCron

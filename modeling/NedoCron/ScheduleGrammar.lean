import NedoCron.CronParser
import Mathlib.Data.Set.Basic

namespace NedoCron

/-!
# nedo_cron — what a schedule text means

The grammar of a schedule text and the meaning of each of its items, stated without reference
to how the parser walks through the text:

* `Item` — the shapes of an item of a field, and `Writes`, the texts of a shape;
* `Item.values` — the values an item selects, an arithmetic progression;
* `FieldReading` — a field read as a comma list of items, and `Reading`, a schedule text
  read as five fields;
* `Reading.Denotes` — the schedule whose bits and flags are exactly those of the reading.
-/

/-! ### Items -/

/-- The shapes of an item. -/
inductive Item where
  /-- `*` -/
  | star
  /-- `$` -/
  | lastDom
  /-- a single value -/
  | value (a : Int)
  /-- `a-b` -/
  | range (a b : Int)
  /-- `a-$` -/
  | toLast (a : Int)
  /-- `*/n` -/
  | starStep (n : Int)
  /-- `$/n` -/
  | lastDomStep (n : Int)
  /-- `a-b/n` -/
  | rangeStep (a b n : Int)
  /-- `a-$/n` -/
  | toLastStep (a n : Int)
  deriving DecidableEq

/-- The text is a run of decimal digits with the given value, at most `INT_MAX`. -/
def IsInteger (s : CString) (v : Int) : Prop :=
  s ≠ [] ∧ (∀ c ∈ s, isdigit c = true) ∧ (decimal s : Int) = v ∧ v ≤ intMax

/-- The text is one of the names, ignoring case. -/
def IsName (names : List CronName) (s : CString) (v : Int) : Prop :=
  ∃ n ∈ names, strcasecmpEq n.name s = true ∧ n.value = v

/-- The texts of a value: digits everywhere, names of months and of days in their fields. -/
def WritesValue (type : FieldType) (s : CString) (v : Int) : Prop :=
  IsInteger s v ∨ (type = .m ∧ IsName monthNames s v) ∨ (type = .dow ∧ IsName dowNames s v)

/-- The texts of an item of a field. -/
def Writes (type : FieldType) (s : CString) : Item → Prop
  | .star => s = star
  | .lastDom => type = .dom ∧ s = lastDomToken
  | .value a => WritesValue type s a
  | .range a b =>
    a ≤ b ∧ ∃ x y, s = x ++ rangeOfNumbersDelimiter :: y ∧ WritesValue type x a ∧
      WritesValue type y b
  | .toLast a =>
    type = .dom ∧ a ≤ maxDaysInMonth ∧
      ∃ x, s = x ++ rangeOfNumbersDelimiter :: lastDomToken ∧ WritesValue type x a
  | .starStep n => 0 < n ∧ ∃ z, s = star ++ stepDelimiter :: z ∧ IsInteger z n
  | .lastDomStep n =>
    type = .dom ∧ 0 < n ∧ ∃ z, s = lastDomToken ++ stepDelimiter :: z ∧ IsInteger z n
  | .rangeStep a b n =>
    0 < n ∧ a ≤ b ∧ ∃ x y z, s = (x ++ rangeOfNumbersDelimiter :: y) ++ stepDelimiter :: z ∧
      WritesValue type x a ∧ WritesValue type y b ∧ IsInteger z n
  | .toLastStep a n =>
    type = .dom ∧ 0 < n ∧ a ≤ maxDaysInMonth ∧
      ∃ x z, s = (x ++ rangeOfNumbersDelimiter :: lastDomToken) ++ stepDelimiter :: z ∧
        WritesValue type x a ∧ IsInteger z n

/-! ### Meaning -/

/-- `start, start + step, start + 2·step, …` up to `finish`. -/
def progression (start finish step : Int) : Set Int :=
  {v | ∃ k : Nat, v = start + k * step ∧ v ≤ finish}

/-- The values an item selects in a field; the bare `$` selects none, it raises a flag. -/
def Item.values (type : FieldType) : Item → Set Int
  | .star => progression (getBounds type).1 (getBounds type).2 1
  | .lastDom => ∅
  | .value a => {a}
  | .range a b => progression a b 1
  | .toLast a => progression a maxDaysInMonth 1
  | .starStep n => progression (getBounds type).1 (getBounds type).2 n
  | .lastDomStep n => progression (getBounds type).1 (getBounds type).2 n
  | .rangeStep a b n => progression a b n
  | .toLastStep a n => progression a maxDaysInMonth n

/-- The bit a value is stored in: 7 is folded to 0 in the day-of-week field. -/
def foldValue (type : FieldType) (v : Int) : Int := if type = .dow ∧ v = 7 then 0 else v

/-- The bits of a schedule, by field. -/
def CronSchedule.bit (s : CronSchedule) (type : FieldType) (n : Nat) : Bool :=
  match type with
  | .minute => s.minute[n]?.getD false
  | .hour => s.hour[n]?.getD false
  | .dom => s.dayOfMonth[n]?.getD false
  | .m => s.month[n]?.getD false
  | .dow => s.dayOfWeek[n]?.getD false

/-- The star flag of a field; the month field has none. -/
def CronSchedule.starFlag (s : CronSchedule) : FieldType → Bool
  | .minute => s.minStar
  | .hour => s.hourStar
  | .dom => s.domStar
  | .dow => s.dowStar
  | .m => false

/-! ### Fields and schedules -/

/-- A field read as a comma list of items. -/
structure FieldReading (type : FieldType) (field : CString) where
  texts : List CString
  items : List Item
  joined : field = [arrayOfNumbersDelimiter].intercalate texts
  separate : ∀ t ∈ texts, t ≠ [] ∧ arrayOfNumbersDelimiter ∉ t
  nonempty : texts ≠ []
  written : List.Forall₂ (Writes type) texts items

/-- The bits of a field: the union of the progressions of its items. -/
def FieldReading.selects {type : FieldType} {field : CString} (r : FieldReading type field)
    (n : Nat) : Prop :=
  ∃ item ∈ r.items, ∃ v ∈ item.values type, (n : Int) = foldValue type v

/-- The five fields, in the order in which a schedule text has them. -/
def fieldTypes : List FieldType := [.minute, .hour, .dom, .m, .dow]

/-- A schedule text read as five fields separated by single spaces. -/
structure Reading (s : CString) where
  text : FieldType → CString
  joined : s = [spaceDelimiter].intercalate (fieldTypes.map text)
  separate : ∀ type, spaceDelimiter ∉ text type
  field : ∀ type, FieldReading type (text type)

/-- The schedule has exactly the bits and flags of the reading. -/
structure Reading.Denotes {s : CString} (r : Reading s) (schedule : CronSchedule) : Prop where
  bits : ∀ type n, schedule.bit type n = true ↔ (r.field type).selects n
  stars : ∀ type, type ≠ .m → (schedule.starFlag type = true ↔ star ∈ (r.field type).texts)
  lastDom : schedule.lastDom = true ↔ lastDomToken ∈ (r.field .dom).texts
  seconds : schedule.seconds = false
  secondsInterval : schedule.secondsInterval = 0

/-- The text is `N seconds`, with `N` between 1 and 59. -/
def WritesSeconds (s : CString) (n : Int) : Prop :=
  ∃ count unit, s = count ++ spaceDelimiter :: unit ∧ spaceDelimiter ∉ count ∧
    spaceDelimiter ∉ unit ∧ strcasecmpEq unit secondsIdentifier = true ∧
    IsInteger count n ∧ 1 ≤ n ∧ n ≤ 59

end NedoCron

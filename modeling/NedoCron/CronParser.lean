import NedoCron.Runtime
import Mathlib.Data.List.Basic

namespace NedoCron

/-!
# nedo_cron — the schedule parser (`cron_parser.c`)

The parser as the sources have it: splitting strings, parsing one item of a cron field into
bits and flags of the schedule, a field as a comma list of items, and a schedule as five
fields or `N seconds`.  Functions that fill the schedule and report errors run in `Parse`,
over the schedule under construction and the caller's error record; `none` there is the
`NULL` a caller may pass, for which `set_parse_error` does nothing.
-/

/-! ### Data -/

/-- `FieldType`. -/
inductive FieldType where
  | minute
  | hour
  | dom
  | m
  | dow
  deriving DecidableEq

/-- `CronSchedule`: one bit for each value of each field, and the flags. -/
structure CronSchedule where
  minute : Vector Bool 60
  hour : Vector Bool 24
  dayOfMonth : Vector Bool 32
  month : Vector Bool 13
  dayOfWeek : Vector Bool 7
  minStar : Bool
  hourStar : Bool
  dowStar : Bool
  domStar : Bool
  lastDom : Bool
  seconds : Bool
  secondsInterval : Int
  deriving DecidableEq

/-- `CronSchedule temp = {0}`. -/
def CronSchedule.zero : CronSchedule where
  minute := Vector.replicate 60 false
  hour := Vector.replicate 24 false
  dayOfMonth := Vector.replicate 32 false
  month := Vector.replicate 13 false
  dayOfWeek := Vector.replicate 7 false
  minStar := false
  hourStar := false
  dowStar := false
  domStar := false
  lastDom := false
  seconds := false
  secondsInterval := 0

/-- `CronName`: a three-letter name and its value. -/
structure CronName where
  name : CString
  value : Int

/-- `month_names`. -/
def monthNames : List CronName :=
  [⟨ascii "JAN", 1⟩, ⟨ascii "FEB", 2⟩, ⟨ascii "MAR", 3⟩, ⟨ascii "APR", 4⟩, ⟨ascii "MAY", 5⟩,
    ⟨ascii "JUN", 6⟩, ⟨ascii "JUL", 7⟩, ⟨ascii "AUG", 8⟩, ⟨ascii "SEP", 9⟩, ⟨ascii "OCT", 10⟩,
    ⟨ascii "NOV", 11⟩, ⟨ascii "DEC", 12⟩]

/-- `dow_names`. -/
def dowNames : List CronName :=
  [⟨ascii "SUN", 0⟩, ⟨ascii "MON", 1⟩, ⟨ascii "TUE", 2⟩, ⟨ascii "WED", 3⟩, ⟨ascii "THU", 4⟩,
    ⟨ascii "FRI", 5⟩, ⟨ascii "SAT", 6⟩]

/-- `CronParseError`: at most 255 bytes of message and 63 of token. -/
structure CronParseError where
  message : CString
  token : CString
  fieldIndex : Int
  tokenIndex : Int
  deriving DecidableEq

/-! ### Delimiters and tokens -/

/-- `ARRAY_OF_NUMBERS_DELIMITER`, the comma. -/
def arrayOfNumbersDelimiter : UInt8 := 44
/-- `RANGE_OF_NUMBERS_DELIMITER`, the hyphen. -/
def rangeOfNumbersDelimiter : UInt8 := 45
/-- `SPACE_DELIMITER`. -/
def spaceDelimiter : UInt8 := 32
/-- `STEP_DELIMITER`, the slash. -/
def stepDelimiter : UInt8 := 47
/-- `STAR`. -/
def star : CString := [42]
/-- `LAST_DOM_TOKEN`, the dollar sign. -/
def lastDomToken : CString := [36]
/-- `MAX_DAYS_IN_MONTH`. -/
def maxDaysInMonth : Int := 31
/-- `SECONDS_IDENTIFIER`. -/
def secondsIdentifier : CString := ascii "seconds"

/-! ### The error record -/

/-- `clear_parse_error`. -/
def clearParseError (error : Option CronParseError) : Option CronParseError :=
  error.map fun _ => ⟨[], [], 0, 0⟩

/-- `set_parse_error`: the token is kept when the caller passes `NULL` for it.  Every format
    used here is a literal with its arguments, so no conversion is ever left over. -/
def setParseError (error : Option CronParseError) (fieldIndex tokenIndex : Int)
    (token : Option CString) (fmt : CString) (args : List FmtArg) : Option CronParseError :=
  error.map fun e =>
    { message := vsnprintf [] 256 fmt args
      token := match token with
        | some t => t.take 63
        | none => e.token
      fieldIndex := fieldIndex
      tokenIndex := tokenIndex }

/-- `field_name`. -/
def fieldName : FieldType → CString
  | .minute => ascii "minute"
  | .hour => ascii "hour"
  | .dom => ascii "day-of-month"
  | .m => ascii "month"
  | .dow => ascii "day-of-week"

/-- What the filling functions work on. -/
structure ParseState where
  scheduler : CronSchedule
  error : Option CronParseError

/-- A function that fills `*scheduler` and may write `*error`. -/
abbrev Parse := StateM ParseState

/-- `set_parse_error` on the error record at hand. -/
def reportError (fieldIndex tokenIndex : Int) (token fmt : CString) (args : List FmtArg) :
    Parse Unit :=
  modify fun st =>
    { st with error := setParseError st.error fieldIndex tokenIndex (some token) fmt args }

/-! ### Splitting -/

/-- Two neighbouring bytes are both the delimiter. -/
def hasAdjacent (delimiter : UInt8) : CString → Bool
  | a :: b :: rest => (a == delimiter && b == delimiter) || hasAdjacent delimiter (b :: rest)
  | _ => false

/-- `has_empty_part`: the string is empty, starts or ends with the delimiter, or has two of
    them in a row. -/
def hasEmptyPart (s : CString) (delimiter : UInt8) : Bool :=
  s == [] || (s.head? == some delimiter || s.getLast? == some delimiter) ||
    hasAdjacent delimiter s

/-- The copying scan of `str_split`; `part` is what lies between `start` and `p`. -/
def strSplitLoop (delim : UInt8) : (part p : CString) → List CString
  | part, [] => [part]
  | part, c :: p =>
    if c = delim then part :: strSplitLoop delim [] p else strSplitLoop delim (part ++ [c]) p

/-- `str_split`: the parts between delimiters, empty ones kept. -/
def strSplit (str : CString) (delim : UInt8) : List CString := strSplitLoop delim [] str

/-- The counting scan of `str_split`, which sizes the array of parts. -/
def strSplitCount (delim : UInt8) : CString → Nat
  | [] => 1
  | c :: p => if c = delim then strSplitCount delim p + 1 else strSplitCount delim p

/-! ### Values -/

/-- `parse_integer`: decimal digits only, at most `INT_MAX`. -/
def parseInteger (string : CString) : Option Int :=
  if string = [] then none
  else if string.all isdigit = false then none
  else
    let r := strtol string
    if r.erange = true ∨ r.endpointer ≠ [] ∨ r.value > intMax then none else some r.value

/-- `isStar`. -/
def isStar (string : CString) : Bool := string == star

/-- `is_last_dom_token`. -/
def isLastDomToken (token : CString) : Bool := token == lastDomToken

/-- `search_for_cron_name`: the first name equal to the token, ignoring case. -/
def searchForCronName : List CronName → CString → Option Int
  | [], _ => none
  | n :: names, token =>
    if strcasecmpEq n.name token then some n.value else searchForCronName names token

/-- `parse_field_value`: a number, or a name in the two fields that have names. -/
def parseFieldValue (type : FieldType) (token : CString) : Option Int :=
  match parseInteger token with
  | some value => some value
  | none =>
    match type with
    | .m => searchForCronName monthNames token
    | .dow => searchForCronName dowNames token
    | _ => none

/-- `parse_range`: `A-B`, and `A-$` in the day-of-month field. -/
def parseRange (type : FieldType) (string : CString) : Option (Int × Int) :=
  if hasEmptyPart string rangeOfNumbersDelimiter then none
  else match strSplit string rangeOfNumbersDelimiter with
    | [first, second] =>
      match parseFieldValue type first with
      | none => none
      | some start =>
        -- `$` as an end is the 31st, whatever the month
        if type = .dom ∧ isLastDomToken second = true then some (start, maxDaysInMonth)
        else (parseFieldValue type second).map fun finish => (start, finish)
    | _ => none

/-- `get_bounds`. -/
def getBounds : FieldType → Int × Int
  | .minute => (0, 59)
  | .hour => (0, 23)
  | .m => (1, 12)
  | .dom => (1, 31)
  | .dow => (0, 7)

/-! ### Filling the schedule -/

/-- Set the bit of a value within the bounds of its field; 7 is Sunday too. -/
def CronSchedule.mark (s : CronSchedule) (type : FieldType) (value : Int)
    (h : (getBounds type).1 ≤ value ∧ value ≤ (getBounds type).2) : CronSchedule :=
  match type with
  | .minute => { s with minute := s.minute.set value.toNat true (by simp [getBounds] at h; omega) }
  | .hour => { s with hour := s.hour.set value.toNat true (by simp [getBounds] at h; omega) }
  | .m => { s with month := s.month.set value.toNat true (by simp [getBounds] at h; omega) }
  | .dom =>
    { s with dayOfMonth := s.dayOfMonth.set value.toNat true (by simp [getBounds] at h; omega) }
  | .dow =>
    { s with
      dayOfWeek := s.dayOfWeek.set (if value = 7 then 0 else value).toNat true
        (by simp [getBounds] at h; split <;> omega) }

/-- `set_field_value`. -/
def setFieldValue (type : FieldType) (value fieldIndex tokenIndex : Int) (token : CString) :
    Parse Bool := do
  if h : (getBounds type).1 ≤ value ∧ value ≤ (getBounds type).2 then
    modify fun st => { st with scheduler := st.scheduler.mark type value h }
    return true
  else
    reportError fieldIndex tokenIndex token (ascii "%s must be %d-%d")
      [.str (fieldName type), .int (getBounds type).1, .int (getBounds type).2]
    return false

/-- The loop `for (value = start; value <= finish; value += step)` of `set_field_range`, with
    its `int` addition.  The first argument bounds the number of turns; 62 are enough, since
    at most 60 values lie within any field's bounds (`setFieldRangeLoop_enough`). -/
def setFieldRangeLoop (type : FieldType) (finish step fieldIndex tokenIndex : Int)
    (token : CString) : Nat → Int → Parse Bool
  | 0, _ => pure false
  | fuel + 1, value => do
    if value ≤ finish then
      if (← setFieldValue type value fieldIndex tokenIndex token) then
        setFieldRangeLoop type finish step fieldIndex tokenIndex token fuel
          -- the step is added before the end is tested, and may wrap
          (toInt32 (value + step))
      else return false
    else return true

/-- `set_field_range`. -/
def setFieldRange (type : FieldType) (start finish step fieldIndex tokenIndex : Int)
    (token : CString) : Parse Bool := do
  if step ≤ 0 then
    reportError fieldIndex tokenIndex token (ascii "step must be greater than 0") []
    return false
  else if start > finish then
    reportError fieldIndex tokenIndex token
      (ascii "range start must be less than or equal to range end") []
    return false
  else setFieldRangeLoop type finish step fieldIndex tokenIndex token 62 start

/-- `mark_star_field`; the month field has no such flag. -/
def markStarField (s : CronSchedule) : FieldType → CronSchedule
  | .minute => { s with minStar := true }
  | .hour => { s with hourStar := true }
  | .dom => { s with domStar := true }
  | .dow => { s with dowStar := true }
  | .m => s

/-- The branch of `parse_field_item` for an item with a `/`. -/
def parseStepItem (item : CString) (type : FieldType) (fieldIndex tokenIndex : Int) :
    Parse Bool := do
  if hasEmptyPart item stepDelimiter then
    reportError fieldIndex tokenIndex item (ascii "invalid step syntax") []
    return false
  else match strSplit item stepDelimiter with
    | [base, stepText] =>
      match parseInteger stepText with
      | none =>
        reportError fieldIndex tokenIndex item (ascii "step must be a positive integer") []
        return false
      | some step =>
        if step ≤ 0 then
          reportError fieldIndex tokenIndex item (ascii "step must be a positive integer") []
          return false
        -- a star with a step selects the values but does not mark the field as a star
        else if isStar base then
          setFieldRange type (getBounds type).1 (getBounds type).2 step fieldIndex tokenIndex item
        else if type = .dom ∧ isLastDomToken base = true then
          setFieldRange type (getBounds type).1 (getBounds type).2 step fieldIndex tokenIndex item
        else if base.contains rangeOfNumbersDelimiter then
          match parseRange type base with
          | none =>
            reportError fieldIndex tokenIndex item (ascii "invalid %s range")
              [.str (fieldName type)]
            return false
          | some (start, finish) =>
            setFieldRange type start finish step fieldIndex tokenIndex item
        else
          reportError fieldIndex tokenIndex item (ascii "invalid step base for %s")
            [.str (fieldName type)]
          return false
    | _ =>
      reportError fieldIndex tokenIndex item (ascii "invalid step syntax") []
      return false

/-- `parse_field_item`. -/
def parseFieldItem (item : CString) (type : FieldType) (fieldIndex tokenIndex : Int) :
    Parse Bool := do
  if item = [] then
    reportError fieldIndex tokenIndex item (ascii "empty %s value") [.str (fieldName type)]
    return false
  else if isLastDomToken item then
    if type ≠ .dom then
      reportError fieldIndex tokenIndex item (ascii "$ is only allowed in day-of-month") []
      return false
    else
      modify fun st => { st with scheduler := { st.scheduler with lastDom := true } }
      return true
  else if isStar item then
    let ok ← setFieldRange type (getBounds type).1 (getBounds type).2 1 fieldIndex tokenIndex item
    if ok then
      modify fun st => { st with scheduler := markStarField st.scheduler type }
    return ok
  else if item.contains stepDelimiter then
    parseStepItem item type fieldIndex tokenIndex
  else if item.contains rangeOfNumbersDelimiter then
    match parseRange type item with
    | none =>
      reportError fieldIndex tokenIndex item (ascii "invalid %s range") [.str (fieldName type)]
      return false
    | some (start, finish) => setFieldRange type start finish 1 fieldIndex tokenIndex item
  else
    match parseFieldValue type item with
    | some number => setFieldValue type number fieldIndex tokenIndex item
    | none =>
      reportError fieldIndex tokenIndex item (ascii "invalid %s value") [.str (fieldName type)]
      return false

/-- The loop of `parse_cron_field` over the items of a list, from the `i`-th on.  An item
    that fails without a message gets one here. -/
def parseItems (type : FieldType) (fieldIndex : Int) : List CString → Int → Parse Bool
  | [], _ => pure true
  | item :: items, i => do
    if (← parseFieldItem item type fieldIndex i) then parseItems type fieldIndex items (i + 1)
    else
      if (← get).error.any fun e => e.message == [] then
        reportError fieldIndex i item (ascii "invalid %s value") [.str (fieldName type)]
      return false

/-- `parse_cron_field`. -/
def parseCronField (field : CString) (type : FieldType) (fieldIndex : Int) : Parse Bool := do
  if hasEmptyPart field arrayOfNumbersDelimiter then
    reportError fieldIndex 0 field (ascii "invalid list syntax") []
    return false
  else if (strSplit field arrayOfNumbersDelimiter).length = 0 then
    reportError fieldIndex 0 field (ascii "empty %s field") [.str (fieldName type)]
    return false
  else parseItems type fieldIndex (strSplit field arrayOfNumbersDelimiter) 1

/-- The five fields in order, stopping at the first that is rejected. -/
def parseCronFields (minute hour dom month dow : CString) : Parse Bool := do
  if !(← parseCronField minute .minute 1) then return false
  if !(← parseCronField hour .hour 2) then return false
  if !(← parseCronField dom .dom 3) then return false
  if !(← parseCronField month .m 4) then return false
  parseCronField dow .dow 5

/-- The `N seconds` branch of `parse_with_error`. -/
def parseSeconds (count : CString) (error : Option CronParseError) :
    Option CronSchedule × Option CronParseError :=
  let rejected := (none, setParseError error 1 1 (some count)
    (ascii "seconds interval must be 1-59") [])
  match parseInteger count with
  | none => rejected
  | some seconds =>
    if seconds < 1 ∨ seconds > 59 then rejected
    else (some { CronSchedule.zero with seconds := true, secondsInterval := seconds }, error)

/-- `parse_with_error`: the schedule, if there is one, and the error record afterwards. -/
def parseWithError (command : CString) (error : Option CronParseError) :
    Option CronSchedule × Option CronParseError :=
  let error := clearParseError error
  let wrongCount := (none, setParseError error 0 0 none
    (ascii "expected 5 cron fields or \"N seconds\"") [])
  if command = [] then (none, setParseError error 0 0 none (ascii "schedule is empty") [])
  else match strSplit command spaceDelimiter with
    | [count, unit] =>
      if strcasecmpEq unit secondsIdentifier then parseSeconds count error else wrongCount
    | [minute, hour, dom, month, dow] =>
      match (parseCronFields minute hour dom month dow).run ⟨CronSchedule.zero, error⟩ with
      | (true, st) => (some st.scheduler, st.error)
      | (false, st) => (none, st.error)
    | _ => wrongCount

/-- `parse`. -/
def parse (command : CString) : Option CronSchedule := (parseWithError command none).1

example : parse (ascii "5 seconds")
    = some { CronSchedule.zero with seconds := true, secondsInterval := 5 } := by decide

end NedoCron

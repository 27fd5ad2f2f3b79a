import NedoCron.CronTask
import NedoCron.Lib.Heap

namespace NedoCron.Memory

/-!
# nedo_cron — the parser and its memory (`cron_parser.c`)

The functions of the parser once more, this time over a heap: strings are pointers, the parts of
a split string are blocks of their own behind an array with a `NULL` at its end, and every
function frees what it allocated on each of its ways out.  `palloc0` reports an error instead of
returning `NULL`, so the branches for a `NULL` from it are left out.  A function that only reads
a string passes its bytes to the function of the same name in `CronParser`.
-/

open Heap

/-! ### Blocks -/

/-- The contexts a block is allocated in: those of the loaded jobs and of the tasks, or any
    other. -/
inductive MemoryContext where
  | cronJobContext
  | cronTaskContext
  | otherContext
  deriving DecidableEq

/-- `CronJob` with its strings as pointers. -/
structure LoadedJob where
  jobId : Int
  scheduleText : Nat
  schedule : CronSchedule
  command : Nat
  nodeName : Nat
  nodePort : Int
  database : Nat
  userName : Nat

/-- What a block holds.  A hash table with its entries is one block, and so is a list with its
    cells, however many pieces they are laid out in. -/
inductive Content where
  /-- A string with its terminator. -/
  | string (s : CString)
  /-- A `char **`: a pointer or `NULL` in each slot. -/
  | array (slots : List (Option Nat))
  /-- A `CronSchedule`. -/
  | schedule (s : CronSchedule)
  /-- `CronJobHashTable` -/
  | jobTable (jobs : Table Int LoadedJob)
  /-- `CronTaskHashTable` -/
  | taskTable (tasks : Table Int CronTask)
  /-- A `List` of pointers to entries of the job table, which begin with their keys. -/
  | jobList (jobs : List Int)

structure Block where
  context : MemoryContext
  content : Content

/-- A program over these blocks. -/
abbrev Mem := Prog Block

/-- `palloc0` in the given context, and what is written to the block next. -/
def palloc (context : MemoryContext) (content : Content) : Mem Nat := alloc ⟨context, content⟩

/-- `pfree`. -/
def pfree (p : Nat) : Mem Unit := free p

/-- Read a string up to its terminator. -/
def loadString (p : Nat) : Mem CString := do
  match (← load p).content with
  | .string s => pure s
  | _ => undefined

/-- Read an array of pointers. -/
def loadSlots (array : Nat) : Mem (List (Option Nat)) := do
  match (← load array).content with
  | .array slots => pure slots
  | _ => undefined

/-- `array[i]`, which is undefined past the last slot. -/
def loadSlot (array i : Nat) : Mem (Option Nat) := do
  match (← loadSlots array)[i]? with
  | some slot => pure slot
  | none => undefined

/-- `array[i] = slot`, which is undefined past the last slot. -/
def storeSlot (array i : Nat) (slot : Option Nat) : Mem Unit := do
  let block ← load array
  match block.content with
  | .array slots =>
    if i < slots.length then store array { block with content := .array (slots.set i slot) }
    else undefined
  | _ => undefined

/-- The string behind `array[i]`, which may not be `NULL`. -/
def part (array i : Nat) : Mem Nat := do
  match ← loadSlot array i with
  | some p => pure p
  | none => undefined

/-! ### Splitting -/

/-- The loop of `free_string_array` from the `i`-th slot on.  The first argument counts the slots
    that are left: past the last of them the loop would read beyond the array. -/
def freeStrings (array : Nat) : Nat → Nat → Mem Unit
  | 0, _ => undefined
  | left + 1, i => do
    match ← loadSlot array i with
    | none => pure ()
    | some p =>
      pfree p
      freeStrings array left (i + 1)

/-- `free_string_array`. -/
def freeStringArray (array : Nat) : Mem Unit := do
  let slots ← loadSlots array
  freeStrings array slots.length 0
  pfree array

/-- The loop of `charArrayLength` from the `i`-th slot on; `left` is as in `freeStrings`. -/
def countStrings (array : Nat) : Nat → Nat → Mem Nat
  | 0, _ => undefined
  | left + 1, i => do
    match ← loadSlot array i with
    | none => pure i
    | some _ => countStrings array left (i + 1)

/-- `charArrayLength`. -/
def charArrayLength (array : Nat) : Mem Nat := do
  let slots ← loadSlots array
  countStrings array slots.length 0

/-- The copying scan of `str_split`: `copied` is what lies between `start` and `p`. -/
def copyParts (context : MemoryContext) (result : Nat) (delim : UInt8) :
    (copied p : CString) → (idx : Nat) → Mem Unit
  | copied, [], idx => do
    let part ← palloc context (.string copied)
    storeSlot result idx (some part)
    storeSlot result (idx + 1) none
  | copied, c :: p, idx =>
    if c = delim then do
      let part ← palloc context (.string copied)
      storeSlot result idx (some part)
      copyParts context result delim [] p (idx + 1)
    else copyParts context result delim (copied ++ [c]) p idx

/-- `str_split`: an array one longer than the number of parts, all of it `NULL` at first. -/
def strSplit (context : MemoryContext) (str : Nat) (delim : UInt8) : Mem Nat := do
  let text ← loadString str
  let result ← palloc context (.array (List.replicate (strSplitCount delim text + 1) none))
  copyParts context result delim [] text 0
  return result

/-! ### The parser -/

/-- `parse_range`. -/
def parseRange (context : MemoryContext) (type : FieldType) (string : Nat) :
    Mem (Option (Int × Int)) := do
  let text ← loadString string
  if hasEmptyPart text rangeOfNumbersDelimiter then
    return none
  else
    let splittedString ← strSplit context string rangeOfNumbersDelimiter
    if (← charArrayLength splittedString) ≠ 2 then
      freeStringArray splittedString
      return none
    else
      match parseFieldValue type (← loadString (← part splittedString 0)) with
      | none =>
        freeStringArray splittedString
        return none
      | some start =>
        let second ← loadString (← part splittedString 1)
        if type = .dom ∧ isLastDomToken second = true then
          freeStringArray splittedString
          return some (start, maxDaysInMonth)
        else
          match parseFieldValue type second with
          | none =>
            freeStringArray splittedString
            return none
          | some finish =>
            freeStringArray splittedString
            return some (start, finish)

/-- A function that fills `*scheduler`, may write `*error`, and uses the heap. -/
abbrev Parse := StateT ParseState Mem

/-- `set_parse_error`, which copies the token from where it is stored. -/
def setParseError (fieldIndex tokenIndex : Int) (token : Nat) (fmt : CString)
    (args : List FmtArg) : Parse Unit := do
  let text ← liftHeap (loadString token)
  liftState (reportError fieldIndex tokenIndex text fmt args)

/-- `set_field_range`, whose token is read where it is stored. -/
def setFieldRange (type : FieldType) (start finish step fieldIndex tokenIndex : Int)
    (token : Nat) : Parse Bool := do
  let text ← liftHeap (loadString token)
  liftState (NedoCron.setFieldRange type start finish step fieldIndex tokenIndex text)

/-- `set_field_value`, likewise. -/
def setFieldValue (type : FieldType) (value fieldIndex tokenIndex : Int) (token : Nat) :
    Parse Bool := do
  let text ← liftHeap (loadString token)
  liftState (NedoCron.setFieldValue type value fieldIndex tokenIndex text)

/-- The branch of `parse_field_item` for an item with a `/`. -/
def parseStepItem (context : MemoryContext) (item : Nat) (type : FieldType)
    (fieldIndex tokenIndex : Int) : Parse Bool := do
  let text ← liftHeap (loadString item)
  if hasEmptyPart text stepDelimiter then
    setParseError fieldIndex tokenIndex item (ascii "invalid step syntax") []
    return false
  else
    let stepParts ← liftHeap (strSplit context item stepDelimiter)
    let count ← liftHeap (charArrayLength stepParts)
    if count ≠ 2 then
      setParseError fieldIndex tokenIndex item (ascii "invalid step syntax") []
      liftHeap (freeStringArray stepParts)
      return false
    else
      let stepText ← liftHeap (part stepParts 1 >>= loadString)
      match parseInteger stepText with
      | none =>
        setParseError fieldIndex tokenIndex item (ascii "step must be a positive integer") []
        liftHeap (freeStringArray stepParts)
        return false
      | some step =>
        if step ≤ 0 then
          setParseError fieldIndex tokenIndex item (ascii "step must be a positive integer") []
          liftHeap (freeStringArray stepParts)
          return false
        else
          let base ← liftHeap (part stepParts 0)
          let baseText ← liftHeap (loadString base)
          if isStar baseText then
            let ok ← setFieldRange type (getBounds type).1 (getBounds type).2 step fieldIndex
              tokenIndex item
            liftHeap (freeStringArray stepParts)
            return ok
          else if type = .dom ∧ isLastDomToken baseText = true then
            let ok ← setFieldRange type (getBounds type).1 (getBounds type).2 step fieldIndex
              tokenIndex item
            liftHeap (freeStringArray stepParts)
            return ok
          else if baseText.contains rangeOfNumbersDelimiter then
            let range ← liftHeap (parseRange context type base)
            match range with
            | none =>
              setParseError fieldIndex tokenIndex item (ascii "invalid %s range")
                [.str (fieldName type)]
              liftHeap (freeStringArray stepParts)
              return false
            | some (start, finish) =>
              let ok ← setFieldRange type start finish step fieldIndex tokenIndex item
              liftHeap (freeStringArray stepParts)
              return ok
          else
            setParseError fieldIndex tokenIndex item (ascii "invalid step base for %s")
              [.str (fieldName type)]
            liftHeap (freeStringArray stepParts)
            return false

/-- `parse_field_item`. -/
def parseFieldItem (context : MemoryContext) (item : Nat) (type : FieldType)
    (fieldIndex tokenIndex : Int) : Parse Bool := do
  let text ← liftHeap (loadString item)
  if text = [] then
    setParseError fieldIndex tokenIndex item (ascii "empty %s value") [.str (fieldName type)]
    return false
  else if isLastDomToken text then
    if type ≠ .dom then
      setParseError fieldIndex tokenIndex item (ascii "$ is only allowed in day-of-month") []
      return false
    else
      liftState (modify fun st => { st with scheduler := { st.scheduler with lastDom := true } })
      return true
  else if isStar text then
    let ok ← setFieldRange type (getBounds type).1 (getBounds type).2 1 fieldIndex tokenIndex item
    if ok then
      liftState (modify fun st => { st with scheduler := markStarField st.scheduler type })
    return ok
  else if text.contains stepDelimiter then
    parseStepItem context item type fieldIndex tokenIndex
  else if text.contains rangeOfNumbersDelimiter then
    let range ← liftHeap (parseRange context type item)
    match range with
    | none =>
      setParseError fieldIndex tokenIndex item (ascii "invalid %s range") [.str (fieldName type)]
      return false
    | some (start, finish) => setFieldRange type start finish 1 fieldIndex tokenIndex item
  else
    match parseFieldValue type text with
    | some number => setFieldValue type number fieldIndex tokenIndex item
    | none =>
      setParseError fieldIndex tokenIndex item (ascii "invalid %s value") [.str (fieldName type)]
      return false

/-- The loop of `parse_cron_field` from the `i`-th item on, with `left` items to go; on both ways
    out of it the list is freed. -/
def parseItems (context : MemoryContext) (items : Nat) (type : FieldType) (fieldIndex : Int) :
    Nat → Nat → Parse Bool
  | 0, _ => do
    liftHeap (freeStringArray items)
    return true
  | left + 1, i => do
    let item ← liftHeap (part items i)
    if (← parseFieldItem context item type fieldIndex (i + 1)) then
      parseItems context items type fieldIndex left (i + 1)
    else
      if (← get).error.any fun e => e.message == [] then
        setParseError fieldIndex (i + 1) item (ascii "invalid %s value") [.str (fieldName type)]
      liftHeap (freeStringArray items)
      return false

/-- `parse_cron_field`. -/
def parseCronField (context : MemoryContext) (field : Nat) (type : FieldType) (fieldIndex : Int) :
    Parse Bool := do
  let text ← liftHeap (loadString field)
  if hasEmptyPart text arrayOfNumbersDelimiter then
    setParseError fieldIndex 0 field (ascii "invalid list syntax") []
    return false
  else
    let items ← liftHeap (strSplit context field arrayOfNumbersDelimiter)
    let count ← liftHeap (charArrayLength items)
    if count = 0 then
      setParseError fieldIndex 0 field (ascii "empty %s field") [.str (fieldName type)]
      liftHeap (freeStringArray items)
      return false
    else parseItems context items type fieldIndex count 0

/-- The five fields of `parse_with_error`, in order. -/
def parseCronFields (context : MemoryContext) (fields : Nat) : Parse Bool := do
  if !(← parseCronField context (← liftHeap (part fields 0)) .minute 1) then return false
  if !(← parseCronField context (← liftHeap (part fields 1)) .hour 2) then return false
  if !(← parseCronField context (← liftHeap (part fields 2)) .dom 3) then return false
  if !(← parseCronField context (← liftHeap (part fields 3)) .m 4) then return false
  parseCronField context (← liftHeap (part fields 4)) .dow 5

/-- The test for the `N seconds` format, which reads the second field only if there are two. -/
def isSecondsFormat (fields countFields : Nat) : Mem Bool := do
  if countFields = 2 then
    return strcasecmpEq (← loadString (← part fields 1)) secondsIdentifier
  else return false

/-- The `N seconds` branch of `parse_with_error`. -/
def parseSeconds (context : MemoryContext) (fields : Nat) (error : Option CronParseError) :
    Mem (Option Nat × Option CronParseError) := do
  let count ← loadString (← part fields 0)
  let rejected := NedoCron.setParseError error 1 1 (some count)
    (ascii "seconds interval must be 1-59") []
  match parseInteger count with
  | none =>
    freeStringArray fields
    return (none, rejected)
  | some seconds =>
    if seconds < 1 ∨ seconds > 59 then
      freeStringArray fields
      return (none, rejected)
    else
      let scheduler ← palloc context
        (.schedule { CronSchedule.zero with seconds := true, secondsInterval := seconds })
      freeStringArray fields
      return (some scheduler, error)

/-- `parse_with_error`: the address of the schedule, or `NULL`, and the error record afterwards. -/
def parseWithError (context : MemoryContext) (command : Option Nat)
    (error : Option CronParseError) : Mem (Option Nat × Option CronParseError) := do
  let error := clearParseError error
  let empty := NedoCron.setParseError error 0 0 none (ascii "schedule is empty") []
  match command with
  | none => return (none, empty)
  | some command =>
    if (← loadString command) = [] then return (none, empty)
    else
      let fields ← strSplit context command spaceDelimiter
      let countFields ← charArrayLength fields
      if (← isSecondsFormat fields countFields) then parseSeconds context fields error
      else if countFields ≠ 5 then
        freeStringArray fields
        return (none, NedoCron.setParseError error 0 0 none
          (ascii "expected 5 cron fields or \"N seconds\"") [])
      else
        match ← (parseCronFields context fields).run ⟨CronSchedule.zero, error⟩ with
        | (true, st) =>
          let scheduler ← palloc context (.schedule st.scheduler)
          freeStringArray fields
          return (some scheduler, st.error)
        | (false, st) =>
          freeStringArray fields
          return (none, st.error)

/-- `free_cron_schedule`. -/
def freeCronSchedule : Option Nat → Mem Unit
  | none => pure ()
  | some schedule => pfree schedule

end NedoCron.Memory

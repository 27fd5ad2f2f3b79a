import NedoCron.ParserVerdict

namespace NedoCron

/-!
# nedo_cron — splitting loses nothing

`str_split` scans its string twice: once to count the delimiters, which sizes the array, and once
to copy the parts into it.  `has_empty_part` scans it a third time.  The three scans agree.

* `strSplitArray` — `str_split` with its array of `count + 1` slots, where a store outside of the
  array is undefined;
* `IsSplit` — lists of parts that join to the string;
* `strSplitArray_eq` — the array is filled exactly, with the parts and their terminator;
* `strSplit_lossless` — the parts are the only split of the string, and one of them is empty just
  when `has_empty_part` says so.
-/

/-! ### The array -/

/-- The slots of an array of strings; `none` is `NULL`. -/
abbrev Slots := List (Option CString)

/-- `result[idx] = slot`; outside of the array this is undefined. -/
def storeSlot (result : Slots) (idx : Nat) (slot : Option CString) : Option Slots :=
  if idx < result.length then some (result.set idx slot) else none

/-- The copying scan of `str_split`, with `rest` left of the string at the offset `p`.  The part
    that is being read began at the offset `start`, and `idx` parts are in the array. -/
def fillSlots (str : CString) (delim : UInt8) :
    (rest : CString) → (p start idx : Nat) → Slots → Option Slots
  | [], p, start, idx, result =>
    (storeSlot result idx (some ((str.drop start).take (p - start)))).bind fun result =>
      storeSlot result (idx + 1) none
  | c :: rest, p, start, idx, result =>
    if c = delim then
      (storeSlot result idx (some ((str.drop start).take (p - start)))).bind
        (fillSlots str delim rest (p + 1) (p + 1) (idx + 1))
    else fillSlots str delim rest (p + 1) start idx result

/-- The array `str_split` returns: `count + 1` slots, all `NULL` at first. -/
def strSplitArray (str : CString) (delim : UInt8) : Option Slots :=
  fillSlots str delim str 0 0 0 (List.replicate (strSplitCount delim str + 1) none)

/-- `charArrayLength`: the slots before the first `NULL`.  Without one the scan leaves the array,
    which is undefined. -/
def charArrayLength : Slots → Option Nat
  | [] => none
  | none :: _ => some 0
  | some _ :: slots => (charArrayLength slots).map (· + 1)

/-! ### The scans -/

/-- The first free slot takes the next part. -/
theorem storeSlot_next (parts : List CString) (slot : Option CString) (free : Slots) :
    storeSlot (parts.map some ++ none :: free) parts.length slot =
      some (parts.map some ++ slot :: free) := by
  rw [storeSlot, if_pos (by simp)]
  simp

/-- What `memcpy` copies is the part. -/
theorem take_part {str part rest : CString} {start : Nat} (h : str.drop start = part ++ rest) :
    (str.drop start).take (start + part.length - start) = part := by
  rw [h, Nat.add_sub_cancel_left, List.take_left]

/-- **The copying scan**, on an array with a free slot for every part to come and one for the
    terminator, which is what the counting scan provides. -/
theorem fillSlots_eq (str : CString) (delim : UInt8) {part rest : CString} {start : Nat}
    (h : str.drop start = part ++ rest) (parts : List CString) :
    fillSlots str delim rest (start + part.length) start parts.length
        (parts.map some ++ List.replicate (strSplitCount delim rest + 1) none) =
      some ((parts ++ strSplitLoop delim part rest).map some ++ [none]) := by
  induction rest generalizing part parts start with
  | nil =>
    rw [fillSlots, take_part h, strSplitCount, List.replicate_succ, storeSlot_next,
      Option.bind_some]
    have hlast := storeSlot_next (parts ++ [part]) none []
    simpa [strSplitLoop] using hlast
  | cons c rest ih =>
    rw [fillSlots, take_part h, strSplitLoop, strSplitCount]
    split
    · -- the next part begins after the delimiter
      have hnext : str.drop (start + part.length + 1) = [] ++ rest := by
        rw [Nat.add_assoc, ← List.drop_drop, h]
        simp
      rw [List.replicate_succ, storeSlot_next, Option.bind_some]
      have hrest := ih hnext (parts ++ [part])
      simpa using hrest
    · have hlonger : str.drop start = (part ++ [c]) ++ rest := by simpa using h
      have hrest := ih hlonger parts
      simpa [Nat.add_assoc] using hrest

/-- **`str_split` fills its array exactly**: the parts, then the terminator. -/
theorem strSplitArray_eq (str : CString) (delim : UInt8) :
    strSplitArray str delim = some ((strSplit str delim).map some ++ [none]) :=
  fillSlots_eq str delim (show str.drop 0 = [] ++ str by simp) []

example : strSplitArray (ascii ",ab,,c") arrayOfNumbersDelimiter =
    some [some [], some (ascii "ab"), some [], some (ascii "c"), none] := by decide

/-- The counting scan counts the delimiters, and one more. -/
theorem strSplitCount_eq (delim : UInt8) (s : CString) :
    strSplitCount delim s = s.count delim + 1 := by
  induction s with
  | nil => rfl
  | cons c s ih =>
    rw [strSplitCount, List.count_cons]
    split
    · rename_i hc
      rw [ih, if_pos (by simpa using hc)]
    · rename_i hc
      rw [ih, if_neg (by simpa using hc), Nat.add_zero]

/-- The copying scan finds as many parts as the counting scan has counted. -/
theorem length_strSplitLoop (delim : UInt8) (part p : CString) :
    (strSplitLoop delim part p).length = strSplitCount delim p := by
  induction p generalizing part with
  | nil => rfl
  | cons c p ih =>
    rw [strSplitLoop, strSplitCount]
    split
    · rw [List.length_cons, ih]
    · rw [ih]

/-- `char_array_length` counts the parts of an array that ends in `NULL`. -/
theorem charArrayLength_eq (parts : List CString) :
    charArrayLength (parts.map some ++ [none]) = some parts.length := by
  induction parts with
  | nil => rfl
  | cons t parts ih =>
    rw [List.map_cons, List.cons_append, charArrayLength, ih]
    rfl

/-! ### Splits -/

/-- The parts, at least one and none with the delimiter, join to the string. -/
structure IsSplit (s : CString) (delim : UInt8) (parts : List CString) : Prop where
  nonempty : parts ≠ []
  separate : ∀ t ∈ parts, delim ∉ t
  joined : [delim].intercalate parts = s

/-- A string has exactly one split. -/
theorem isSplit_iff {s : CString} {delim : UInt8} {parts : List CString} :
    IsSplit s delim parts ↔ parts = strSplit s delim := by
  constructor
  · rintro ⟨hnonempty, hseparate, rfl⟩
    exact (strSplit_intercalate hnonempty hseparate).symm
  · rintro rfl
    exact ⟨strSplit_ne_nil s delim, fun t => not_mem_of_mem_strSplit, intercalate_strSplit s delim⟩

/-- **Splitting loses nothing.**  For every string and delimiter, `str_split` returns, in an array
    of `count + 1` slots that it fills exactly, the only parts without the delimiter that join to
    the string; `charArrayLength` is one more than the number of delimiters; and one of the parts
    is empty just when `has_empty_part` says so. -/
theorem strSplit_lossless (s : CString) (delim : UInt8) :
    (∀ parts, IsSplit s delim parts ↔ parts = strSplit s delim) ∧
    strSplitArray s delim = some ((strSplit s delim).map some ++ [none]) ∧
    ((strSplit s delim).map some ++ [none]).length = strSplitCount delim s + 1 ∧
    charArrayLength ((strSplit s delim).map some ++ [none]) = some (s.count delim + 1) ∧
    (hasEmptyPart s delim = true ↔ [] ∈ strSplit s delim) := by
  have hlength : (strSplit s delim).length = strSplitCount delim s :=
    length_strSplitLoop delim [] s
  refine ⟨fun parts => isSplit_iff, strSplitArray_eq s delim, ?_, ?_, hasEmptyPart_iff s delim⟩
  · simp [hlength]
  · rw [charArrayLength_eq, hlength, strSplitCount_eq]

end NedoCron

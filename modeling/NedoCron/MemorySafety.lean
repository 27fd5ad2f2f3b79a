import NedoCron.Memory

namespace NedoCron.Memory

/-!
# nedo_cron — what the parser does to the heap

The parser over the heap against the parser of `CronParser`, function by function: each returns
the same, never touches a block that is not in use or a slot past the end of an array, and frees
every block it allocated but for the schedule it returns.
-/

open Heap

variable {context : MemoryContext} {P : Assertion Block}

/-! ### Strings and arrays -/

/-- The strings `ss` are stored at the addresses `ps`. -/
def stringsAt (context : MemoryContext) : List Nat → List CString → Assertion Block
  | [], [] => emp
  | p :: ps, s :: ss => sep (pointsTo p ⟨context, .string s⟩) (stringsAt context ps ss)
  | _, _ => fun _ => False

/-- What `str_split` returns: the array of the addresses, with a `NULL` at the end, and the
    strings themselves. -/
def stringArray (context : MemoryContext) (array : Nat) (ps : List Nat) (ss : List CString) :
    Assertion Block :=
  sep (pointsTo array ⟨context, .array (ps.map some ++ [none])⟩) (stringsAt context ps ss)

theorem tidy_loadString {p : Nat} {s : CString} (h : Holds P p ⟨context, .string s⟩) :
    Tidy P (loadString p) s := (tidy_load h).bind (tidy_pure P s)

theorem tidy_loadSlots {array : Nat} {slots : List (Option Nat)}
    (h : Holds P array ⟨context, .array slots⟩) : Tidy P (loadSlots array) slots :=
  (tidy_load h).bind (tidy_pure P slots)

theorem tidy_loadSlot {array i : Nat} {slots : List (Option Nat)} {slot : Option Nat}
    (h : Holds P array ⟨context, .array slots⟩) (hi : slots[i]? = some slot) :
    Tidy P (loadSlot array i) slot := by
  refine (tidy_loadSlots h).bind ?_
  rw [hi]
  exact tidy_pure P slot

/-- Reading a pointer of an array. -/
theorem tidy_part {array i p : Nat} {slots : List (Option Nat)}
    (h : Holds P array ⟨context, .array slots⟩) (hi : slots[i]? = some (some p)) :
    Tidy P (part array i) p := (tidy_loadSlot h hi).bind (tidy_pure P p)

/-- Writing one slot of an array. -/
theorem triple_storeSlot {array i : Nat} {slots : List (Option Nat)} (hi : i < slots.length)
    (slot : Option Nat) :
    Triple (sep (pointsTo array ⟨context, .array slots⟩) P) (storeSlot array i slot)
      fun _ => sep (pointsTo array ⟨context, .array (slots.set i slot)⟩) P := by
  refine (tidy_load ((holds_pointsTo _ _).left P)).then_triple ?_
  dsimp only
  rw [if_pos hi]
  exact triple_store _ _ _

/-- A string allocated last is the last of the strings. -/
theorem stringsAt_snoc {ps : List Nat} {ss : List CString} (hlength : ps.length = ss.length)
    (p : Nat) (s : CString) :
    stringsAt context (ps ++ [p]) (ss ++ [s]) =
      sep (pointsTo p ⟨context, .string s⟩) (stringsAt context ps ss) := by
  induction ps generalizing ss with
  | nil =>
    cases ss with
    | nil => rfl
    | cons s' ss => cases hlength
  | cons p' ps ih =>
    cases ss with
    | nil => cases hlength
    | cons s' ss =>
      show sep _ (stringsAt context (ps ++ [p]) (ss ++ [s])) = sep _ (sep _ _)
      rw [ih (Nat.succ.inj hlength), sep_left_comm]

/-- A string of the array is where its slot says. -/
theorem holds_stringsAt {ps : List Nat} {ss : List CString} {i p : Nat} {s : CString}
    (hp : ps[i]? = some p) (hs : ss[i]? = some s) :
    Holds (stringsAt context ps ss) p ⟨context, .string s⟩ := by
  induction i generalizing ps ss with
  | zero =>
    cases ps with
    | nil => cases hp
    | cons p' ps =>
      cases ss with
      | nil => cases hs
      | cons s' ss =>
        obtain rfl := Option.some.inj hp
        obtain rfl := Option.some.inj hs
        exact (holds_pointsTo _ _).left _
  | succ i ih =>
    cases ps with
    | nil => cases hp
    | cons p' ps =>
      cases ss with
      | nil => cases hs
      | cons s' ss => exact (ih (by simpa using hp) (by simpa using hs)).right _

/-! ### `str_split` and its counterparts -/

section Arrays

variable {array : Nat} {ps : List Nat} {ss : List CString}

/-- The array itself is in use. -/
theorem holds_array :
    Holds (sep (stringArray context array ps ss) P) array
      ⟨context, .array (ps.map some ++ [none])⟩ :=
  ((holds_pointsTo _ _).left _).left _

/-- The slot of a part points to it. -/
theorem slot_eq {i : Nat} (hi : i < ps.length) :
    (ps.map some ++ [none])[i]? = some (some (ps.get ⟨i, hi⟩)) := by
  rw [List.getElem?_append_left (by simpa using hi)]
  simp

/-- The loop counts the slots up to `NULL`; `left` slots are ahead. -/
theorem tidy_countStrings {left i : Nat}
    (h : Holds P array ⟨context, .array (ps.map some ++ [none])⟩)
    (hleft : i + left = ps.length + 1) (hi : i ≤ ps.length) :
    Tidy P (countStrings array left i) ps.length := by
  induction left generalizing i with
  | zero => omega
  | succ left ih =>
    by_cases hlast : i = ps.length
    · subst hlast
      have hlast : (ps.map some ++ [none])[ps.length]? = some none := by
        rw [List.getElem?_append_right (by simp)]
        simp
      exact (tidy_loadSlot h hlast).bind (tidy_pure P _)
    · exact (tidy_loadSlot h (slot_eq (by omega))).bind (ih (by omega) (by omega))

/-- `char_array_length` counts the parts. -/
theorem tidy_charArrayLength :
    Tidy (sep (stringArray context array ps ss) P) (charArrayLength array) ps.length := by
  refine (tidy_loadSlots holds_array).bind (tidy_countStrings holds_array ?_ (Nat.zero_le _))
  simp

/-- The strings from the `i`-th slot on are freed, the array itself is not. -/
theorem triple_freeStrings (done : List Nat) :
    Triple (sep (pointsTo array ⟨context, .array (done.map some ++ (ps.map some ++ [none]))⟩)
        (sep (stringsAt context ps ss) P))
      (freeStrings array (ps.length + 1) done.length)
      fun _ =>
        sep (pointsTo array ⟨context, .array (done.map some ++ (ps.map some ++ [none]))⟩) P := by
  -- the slot the loop looks at: the first of those that are left
  have hslot : ∀ {slot rest}, ps.map some ++ [none] = slot :: rest →
      (done.map some ++ (ps.map some ++ [none]))[done.length]? = some slot := by
    intro slot rest hcons
    rw [hcons, List.getElem?_append_right (by simp)]
    simp
  induction ps generalizing ss done with
  | nil =>
    cases ss with
    | nil =>
      refine (tidy_loadSlot ((holds_pointsTo _ _).left _) (hslot rfl)).then_triple ?_
      refine triple_pure fun f hf => ?_
      change sep _ (sep emp P) f at hf
      rwa [emp_sep] at hf
    | cons s ss =>
      -- there are as many pointers as strings
      rintro h ⟨_, _, _, _, _, _, _, hfalse, _⟩
      exact hfalse.elim
  | cons p ps ih =>
    cases ss with
    | nil =>
      rintro h ⟨_, _, _, _, _, _, _, hfalse, _⟩
      exact hfalse.elim
    | cons s ss =>
      refine (tidy_loadSlot ((holds_pointsTo _ _).left _) (hslot rfl)).then_triple ?_
      -- the string is given back, and the loop goes on with one slot more behind it
      have hfree := triple_free (P := sep (pointsTo array ⟨context, .array
        (done.map some ++ ((p :: ps).map some ++ [none]))⟩) (sep (stringsAt context ps ss) P))
        p ⟨context, .string s⟩
      refine triple_bind (triple_pre hfree fun f hf => ?_) fun _ => ?_
      · change sep _ (sep (sep _ _) _) f at hf
        rwa [sep_assoc, sep_left_comm] at hf
      · have hrest := @ih ss (done ++ [p]) ?_
        · simpa [List.append_assoc] using hrest
        · intro slot rest hcons
          rw [hcons, List.getElem?_append_right (by simp)]
          simp

/-- **`free_string_array`** frees what `str_split` has allocated. -/
theorem triple_freeStringArray :
    Triple (sep (stringArray context array ps ss) P) (freeStringArray array) fun _ => P := by
  refine (tidy_loadSlots holds_array).then_triple ?_
  rw [List.length_append, List.length_map, stringArray, sep_assoc]
  exact triple_bind (triple_freeStrings []) fun _ => triple_free array _

/-! ### `str_split` -/

theorem length_snoc (hlength : ps.length = ss.length) (p : Nat) (s : CString) :
    (ps ++ [p]).length = (ss ++ [s]).length := by
  rw [List.length_append, List.length_append, hlength]
  rfl

/-- A part that has just been allocated goes into the first free slot. -/
theorem triple_storePart {n q : Nat} {s : CString} (hlength : ps.length = ss.length) :
    Triple (sep (pointsTo q ⟨context, .string s⟩)
        (sep (pointsTo array ⟨context, .array (ps.map some ++ List.replicate (n + 1) none)⟩)
          (sep (stringsAt context ps ss) P)))
      (storeSlot array ps.length (some q))
      fun _ =>
        sep (pointsTo array ⟨context, .array ((ps ++ [q]).map some ++ List.replicate n none)⟩)
          (sep (stringsAt context (ps ++ [q]) (ss ++ [s])) P) := by
  rw [sep_left_comm]
  refine triple_post (triple_storeSlot (by simp) (some q)) fun _ f hf => ?_
  have hslots : (ps.map some ++ List.replicate (n + 1) none).set ps.length (some q) =
      (ps ++ [q]).map some ++ List.replicate n none := by
    rw [List.set_append_right _ _ (by simp)]
    simp [List.replicate_succ]
  rw [hslots] at hf
  rwa [stringsAt_snoc hlength, sep_assoc]

/-- The scan fills the slots from the first free one on, and leaves one `NULL` at the end. -/
theorem triple_copyParts {delim : UInt8} (copied : CString) {p : CString}
    (hlength : ps.length = ss.length) :
    Triple (sep (pointsTo array ⟨context,
        .array (ps.map some ++ List.replicate (strSplitCount delim p + 1) none)⟩)
        (sep (stringsAt context ps ss) P))
      (copyParts context array delim copied p ps.length)
      fun _ f => ∃ qs, qs.length = (ss ++ strSplitLoop delim copied p).length ∧
        sep (stringArray context array qs (ss ++ strSplitLoop delim copied p)) P f := by
  induction p generalizing copied ps ss with
  | nil =>
    have hcount : strSplitCount delim [] = 1 := rfl
    -- the end of the text: the last part is copied, and `NULL` follows
    rw [hcount]
    refine triple_bind (triple_alloc _) fun q => triple_bind (triple_storePart hlength) fun _ => ?_
    refine triple_post (triple_storeSlot (by simp) none) fun _ f hf =>
      ⟨ps ++ [q], by simp [strSplitLoop, hlength], ?_⟩
    have hslots : ((ps ++ [q]).map some ++ List.replicate 1 none).set (ps.length + 1) none =
        (ps ++ [q]).map some ++ [none] := by
      rw [List.set_append_right _ _ (by simp)]
      simp
    rw [hslots] at hf
    rwa [stringArray, sep_assoc]
  | cons c p ih =>
    unfold copyParts strSplitLoop
    -- a delimiter ends a part; any other character is added to it
    by_cases hc : c = delim
    · rw [if_pos hc, if_pos hc, strSplitCount, if_pos hc]
      refine triple_bind (triple_alloc _) fun q =>
        triple_bind (triple_storePart hlength) fun _ => ?_
      have hrest := ih [] (length_snoc hlength q copied)
      rwa [List.length_append, List.append_assoc] at hrest
    · rw [if_neg hc, if_neg hc, strSplitCount, if_neg hc]
      exact ih (copied ++ [c]) hlength

/-- **`str_split`** stays within its array, and returns the parts of the string. -/
theorem triple_strSplit {str : Nat} {s : CString} (h : Holds P str ⟨context, .string s⟩)
    (context' : MemoryContext) (delim : UInt8) :
    Triple P (strSplit context' str delim) fun array f =>
      ∃ ps, ps.length = (NedoCron.strSplit s delim).length ∧
        sep (stringArray context' array ps (NedoCron.strSplit s delim)) P f := by
  refine (tidy_loadString h).then_triple (triple_bind (triple_alloc _) fun array => ?_)
  have hempty : ([] : List Nat).length = ([] : List CString).length := rfl
  refine triple_bind (triple_pre (triple_copyParts [] hempty) fun f hf => ?_) fun _ =>
    triple_pure fun f hf => hf
  change sep _ (sep emp P) f
  rwa [emp_sep]

/-- A part of the array is in use. -/
theorem holds_part {i p : Nat} {s : CString} (hp : ps[i]? = some p) (hs : ss[i]? = some s) :
    Holds (sep (stringArray context array ps ss) P) p ⟨context, .string s⟩ :=
  ((holds_stringsAt hp hs).right _).left P

/-- The string in a slot. -/
theorem tidy_loadPart {i p : Nat} {s : CString} (hp : ps[i]? = some p) (hs : ss[i]? = some s) :
    Tidy (sep (stringArray context array ps ss) P) (loadString p) s :=
  tidy_loadString (holds_part hp hs)

theorem tidy_slot {i p : Nat} (hp : ps[i]? = some p) :
    Tidy (sep (stringArray context array ps ss) P) (part array i) p := by
  obtain ⟨hi, rfl⟩ := List.getElem?_eq_some_iff.mp hp
  exact tidy_part holds_array (slot_eq hi)

/-- What follows a split may use the array, and must free it. -/
theorem tidy_split {α : Type} {str : Nat} {s : CString} {context' : MemoryContext} {delim : UInt8}
    {k : Nat → Mem α} {v : α} (h : Holds P str ⟨context', .string s⟩)
    (hk : ∀ array ps, ps.length = (NedoCron.strSplit s delim).length →
      Triple (sep (stringArray context array ps (NedoCron.strSplit s delim)) P) (k array)
        fun r f => r = v ∧ P f) :
    Tidy P (strSplit context str delim >>= k) v :=
  triple_bind (triple_strSplit h context delim) fun array =>
    triple_exists fun ps => triple_of_fact (hk array ps)

/-- A program that goes on with the parts of a split string. -/
theorem refines_split {σ α : Type} {str : Nat} {s : CString} {context' : MemoryContext}
    {delim : UInt8} {k : Nat → StateT σ Mem α} {f : StateM σ α}
    (h : Holds P str ⟨context', .string s⟩)
    (hk : ∀ array ps, ps.length = (NedoCron.strSplit s delim).length →
      Refines (sep (stringArray context array ps (NedoCron.strSplit s delim)) P) P (k array) f) :
    Refines P P (liftHeap (strSplit context str delim) >>= k) f :=
  refines_step (triple_strSplit h context delim) fun array =>
    refines_exists fun ps st => triple_of_fact fun hlength => hk array ps hlength st

/-- Freeing an array of strings gives every block back. -/
theorem triple_close {α : Type} (v : α) :
    Triple (sep (stringArray context array ps ss) P) (freeStringArray array >>= fun _ => pure v)
      fun r f => r = v ∧ P f :=
  triple_bind triple_freeStringArray fun _ => triple_pure fun _ h => ⟨rfl, h⟩

end Arrays

/-! ### Values -/

/-- **`parse_range`** on the heap. -/
theorem tidy_parseRange {string : Nat} {s : CString} {context' : MemoryContext}
    (h : Holds P string ⟨context', .string s⟩) (type : FieldType) :
    Tidy P (parseRange context type string) (NedoCron.parseRange type s) := by
  refine (tidy_loadString h).bind ?_
  unfold NedoCron.parseRange
  by_cases hempty : hasEmptyPart s rangeOfNumbersDelimiter = true
  · rw [if_pos hempty, if_pos hempty]
    exact tidy_pure P _
  rw [if_neg hempty, if_neg hempty]
  refine tidy_split h fun array ps hps => ?_
  refine tidy_charArrayLength.then_triple ?_
  rw [hps]
  generalize NedoCron.strSplit s rangeOfNumbersDelimiter = parts at hps ⊢
  -- only two parts are a range; every way out frees them
  rcases parts with _ | ⟨first, _ | ⟨second, _ | ⟨_, _⟩⟩⟩
  · exact triple_close _
  · exact triple_close _
  · rw [if_neg (by simp)]
    obtain ⟨p, q, rfl⟩ := List.length_eq_two.mp hps
    refine (tidy_slot (i := 0) rfl).then_triple ?_
    refine (tidy_loadPart (i := 0) rfl rfl).then_triple ?_
    dsimp only
    -- the second value is read after the first, and `l` is a value of the days of month
    cases parseFieldValue type first with
    | none => exact triple_close _
    | some start =>
      refine (tidy_slot (i := 1) rfl).then_triple ?_
      refine (tidy_loadPart (i := 1) rfl rfl).then_triple ?_
      dsimp only
      by_cases hlast : type = .dom ∧ isLastDomToken second = true
      · rw [if_pos hlast, if_pos hlast]
        exact triple_close _
      · rw [if_neg hlast, if_neg hlast]
        cases parseFieldValue type second <;> exact triple_close _
  · rw [if_pos (by simp)]
    exact triple_close _

/-! ### Items -/

section Items

variable {item : Nat} {text : CString} {context' : MemoryContext} {type : FieldType}
  {fieldIndex tokenIndex : Int}

/-- The error of a text in use. -/
theorem refines_setParseError (h : Holds P item ⟨context', .string text⟩) (fmt : CString)
    (args : List FmtArg) :
    Refines P P (setParseError fieldIndex tokenIndex item fmt args)
      (reportError fieldIndex tokenIndex text fmt args) :=
  (tidy_loadString h).then_refines (refines_lift P _)

theorem refines_setFieldRange (h : Holds P item ⟨context', .string text⟩)
    (start finish step : Int) :
    Refines P P (setFieldRange type start finish step fieldIndex tokenIndex item)
      (NedoCron.setFieldRange type start finish step fieldIndex tokenIndex text) :=
  (tidy_loadString h).then_refines (refines_lift P _)

theorem refines_setFieldValue (h : Holds P item ⟨context', .string text⟩) (value : Int) :
    Refines P P (setFieldValue type value fieldIndex tokenIndex item)
      (NedoCron.setFieldValue type value fieldIndex tokenIndex text) :=
  (tidy_loadString h).then_refines (refines_lift P _)

/-- An error is reported, and the item rejected. -/
theorem refines_reject (h : Holds P item ⟨context', .string text⟩) (fmt : CString)
    (args : List FmtArg) :
    Refines P P (setParseError fieldIndex tokenIndex item fmt args >>= fun _ => pure false)
      (reportError fieldIndex tokenIndex text fmt args >>= fun _ => pure false) :=
  refines_bind (refines_setParseError h fmt args) fun _ => refines_pure fun _ hb => hb

/-- The same while an array of parts is still to be freed. -/
theorem refines_rejectParts {array : Nat} {ps : List Nat} {ss : List CString}
    (h : Holds P item ⟨context', .string text⟩) (fmt : CString) (args : List FmtArg) :
    Refines (sep (stringArray context array ps ss) P) P
      (setParseError fieldIndex tokenIndex item fmt args >>= fun _ =>
        liftHeap (freeStringArray array) >>= fun _ => pure false)
      (reportError fieldIndex tokenIndex text fmt args >>= fun _ => pure false) :=
  refines_bind (refines_setParseError (h.right _) fmt args) fun _ =>
    refines_step triple_freeStringArray fun _ => refines_pure fun _ hb => hb

/-- A range is filled while an array of parts is still to be freed. -/
theorem refines_fillParts {array : Nat} {ps : List Nat} {ss : List CString}
    (h : Holds P item ⟨context', .string text⟩) (start finish step : Int) :
    Refines (sep (stringArray context array ps ss) P) P
      (setFieldRange type start finish step fieldIndex tokenIndex item >>= fun ok =>
        liftHeap (freeStringArray array) >>= fun _ => pure ok)
      (NedoCron.setFieldRange type start finish step fieldIndex tokenIndex text) :=
  (refines_setFieldRange (h.right _) start finish step).finally triple_freeStringArray

/-- **Items with a step.** -/
theorem refines_parseStepItem (h : Holds P item ⟨context', .string text⟩) :
    Refines P P (parseStepItem context item type fieldIndex tokenIndex)
      (NedoCron.parseStepItem text type fieldIndex tokenIndex) := by
  unfold parseStepItem NedoCron.parseStepItem
  refine (tidy_loadString h).then_refines ?_
  by_cases hempty : hasEmptyPart text stepDelimiter = true
  · rw [if_pos hempty, if_pos hempty]
    exact refines_reject h _ _
  rw [if_neg hempty, if_neg hempty]
  refine refines_split h fun array ps hps => ?_
  refine tidy_charArrayLength.then_refines ?_
  rw [hps]
  generalize NedoCron.strSplit text stepDelimiter = parts at hps ⊢
  -- only two parts are an item with a step; every way out frees them
  rcases parts with _ | ⟨base, _ | ⟨stepText, _ | ⟨_, _⟩⟩⟩
  · exact refines_rejectParts h _ _
  · exact refines_rejectParts h _ _
  · rw [if_neg (by simp)]
    obtain ⟨p, q, rfl⟩ := List.length_eq_two.mp hps
    refine ((tidy_slot (i := 1) rfl).bind (tidy_loadPart (i := 1) rfl rfl)).then_refines ?_
    dsimp only
    cases parseInteger stepText with
    | none => exact refines_rejectParts h _ _
    | some step =>
      dsimp only
      by_cases hstep : step ≤ 0
      · rw [if_pos hstep, if_pos hstep]
        exact refines_rejectParts h _ _
      rw [if_neg hstep, if_neg hstep]
      refine (tidy_slot (i := 0) rfl).then_refines ?_
      refine (tidy_loadPart (i := 0) rfl rfl).then_refines ?_
      -- the base: a star, the last day, a range, or an error
      by_cases hstar : isStar base = true
      · rw [if_pos hstar, if_pos hstar]
        exact refines_fillParts h _ _ _
      rw [if_neg hstar, if_neg hstar]
      by_cases hlast : type = .dom ∧ isLastDomToken base = true
      · rw [if_pos hlast, if_pos hlast]
        exact refines_fillParts h _ _ _
      rw [if_neg hlast, if_neg hlast]
      by_cases hrange : base.contains rangeOfNumbersDelimiter = true
      · rw [if_pos hrange, if_pos hrange]
        refine (tidy_parseRange (holds_part (i := 0) rfl rfl) type).then_refines ?_
        cases NedoCron.parseRange type base with
        | none => exact refines_rejectParts h _ _
        | some range => exact refines_fillParts h _ _ _
      · rw [if_neg hrange, if_neg hrange]
        exact refines_rejectParts h _ _
  · rw [if_pos (by simp)]
    exact refines_rejectParts h _ _

/-- **Items.** -/
theorem refines_parseFieldItem (h : Holds P item ⟨context', .string text⟩) :
    Refines P P (parseFieldItem context item type fieldIndex tokenIndex)
      (NedoCron.parseFieldItem text type fieldIndex tokenIndex) := by
  unfold parseFieldItem NedoCron.parseFieldItem
  refine (tidy_loadString h).then_refines ?_
  -- the kinds of items, in the order the parser tries them
  by_cases hempty : text = []
  · rw [if_pos hempty, if_pos hempty]
    exact refines_reject h _ _
  rw [if_neg hempty, if_neg hempty]
  by_cases hlast : isLastDomToken text = true
  · rw [if_pos hlast, if_pos hlast]
    by_cases hdom : type ≠ .dom
    · rw [if_pos hdom, if_pos hdom]
      exact refines_reject h _ _
    · rw [if_neg hdom, if_neg hdom]
      exact refines_bind (refines_lift P _) fun _ => refines_pure fun _ hb => hb
  rw [if_neg hlast, if_neg hlast]
  by_cases hstar : isStar text = true
  · rw [if_pos hstar, if_pos hstar]
    refine refines_bind (refines_setFieldRange h _ _ _) fun ok => ?_
    cases ok with
    | false => exact refines_pure fun _ hb => hb
    | true => exact refines_bind (refines_lift P _) fun _ => refines_pure fun _ hb => hb
  rw [if_neg hstar, if_neg hstar]
  by_cases hstep : text.contains stepDelimiter = true
  · rw [if_pos hstep, if_pos hstep]
    exact refines_parseStepItem h
  rw [if_neg hstep, if_neg hstep]
  by_cases hrange : text.contains rangeOfNumbersDelimiter = true
  · rw [if_pos hrange, if_pos hrange]
    refine (tidy_parseRange h type).then_refines ?_
    cases NedoCron.parseRange type text with
    | none => exact refines_reject h _ _
    | some range => exact refines_setFieldRange h _ _ _
  · rw [if_neg hrange, if_neg hrange]
    cases parseFieldValue type text with
    | none => exact refines_reject h _ _
    | some number => exact refines_setFieldValue h _

end Items

/-! ### Fields -/

/-- The loop over the items of a field, which frees the list of items on both ways out. -/
theorem refines_parseItems {items : Nat} {ps : List Nat} {ss : List CString} {type : FieldType}
    {fieldIndex : Int} (hlength : ps.length = ss.length) {left i : Nat}
    (hleft : i + left = ss.length) :
    Refines (sep (stringArray context items ps ss) P) P
      (parseItems context items type fieldIndex left i)
      (NedoCron.parseItems type fieldIndex (ss.drop i) (i + 1)) := by
  induction left generalizing i with
  | zero =>
    rw [List.drop_of_length_le (by omega)]
    exact refines_step triple_freeStringArray fun _ => refines_pure fun _ hb => hb
  | succ left ih =>
    -- the item of this turn, and its pointer
    have hi : i < ss.length := by omega
    have hp : ps[i]? = some (ps.get ⟨i, by omega⟩) := List.getElem?_eq_getElem (by omega)
    have hs : ss[i]? = some (ss.get ⟨i, hi⟩) := List.getElem?_eq_getElem hi
    have hitem : Holds (sep (stringArray context items ps ss) P) _ _ := holds_part hp hs
    have hdrop : ss.drop i = ss.get ⟨i, hi⟩ :: ss.drop (i + 1) :=
      List.drop_eq_getElem_cons hi
    rw [hdrop]
    refine (tidy_slot hp).then_refines ?_
    refine refines_bind (refines_parseFieldItem hitem) fun ok => ?_
    -- the loop goes on, or the items are freed
    cases ok with
    | true => exact ih (by omega)
    | false =>
      rw [if_neg Bool.false_ne_true, if_neg Bool.false_ne_true]
      refine refines_bind (refines_get _) fun st => ?_
      split
      · exact refines_bind (refines_setParseError hitem _ _) fun _ =>
          refines_step triple_freeStringArray fun _ => refines_pure fun _ hb => hb
      · exact refines_step triple_freeStringArray fun _ => refines_pure fun _ hb => hb

/-- **Fields.** -/
theorem refines_parseCronField {field : Nat} {text : CString} {context' : MemoryContext}
    (h : Holds P field ⟨context', .string text⟩) (type : FieldType) (fieldIndex : Int) :
    Refines P P (parseCronField context field type fieldIndex)
      (NedoCron.parseCronField text type fieldIndex) := by
  unfold parseCronField NedoCron.parseCronField
  refine (tidy_loadString h).then_refines ?_
  by_cases hempty : hasEmptyPart text arrayOfNumbersDelimiter = true
  · rw [if_pos hempty, if_pos hempty]
    exact refines_reject h _ _
  rw [if_neg hempty, if_neg hempty]
  refine refines_split h fun array ps hps => ?_
  refine tidy_charArrayLength.then_refines ?_
  rw [hps]
  split
  · exact refines_rejectParts h _ _
  · exact refines_parseItems hps (by omega)

/-- A field whose string lies in the array of fields. -/
theorem refines_field {fields i p : Nat} {ps : List Nat} {ss : List CString} {text : CString}
    (hp : ps[i]? = some p) (hs : ss[i]? = some text) (type : FieldType) (fieldIndex : Int) :
    Refines (sep (stringArray context fields ps ss) P) (sep (stringArray context fields ps ss) P)
      (liftHeap (part fields i) >>= fun p => parseCronField context p type fieldIndex)
      (NedoCron.parseCronField text type fieldIndex) :=
  (tidy_slot hp).then_refines (refines_parseCronField (holds_part hp hs) type fieldIndex)

/-- A field that is rejected ends the parse, and otherwise the fields after it follow. -/
theorem refines_fieldThen {fields i p : Nat} {ps : List Nat} {ss : List CString} {text : CString}
    (hp : ps[i]? = some p) (hs : ss[i]? = some text) (type : FieldType) (fieldIndex : Int)
    {k : Parse Bool} {l : NedoCron.Parse Bool}
    (hk : Refines (sep (stringArray context fields ps ss) P)
      (sep (stringArray context fields ps ss) P) k l) :
    Refines (sep (stringArray context fields ps ss) P) (sep (stringArray context fields ps ss) P)
      (liftHeap (part fields i) >>= fun p => parseCronField context p type fieldIndex >>= fun ok =>
        if (!ok) = true then pure false else k)
      (NedoCron.parseCronField text type fieldIndex >>= fun ok =>
        if (!ok) = true then pure false else l) := by
  refine (tidy_slot hp).then_refines
    (refines_bind (refines_parseCronField (holds_part hp hs) type fieldIndex) fun ok => ?_)
  cases ok with
  | false => exact refines_pure fun _ hb => hb
  | true => exact hk

/-- The five fields in order, up to the first that is rejected. -/
theorem refines_parseCronFields {fields p q r s t : Nat} {minute hour dom month dow : CString} :
    Refines (sep (stringArray context fields [p, q, r, s, t] [minute, hour, dom, month, dow]) P)
      (sep (stringArray context fields [p, q, r, s, t] [minute, hour, dom, month, dow]) P)
      (parseCronFields context fields) (NedoCron.parseCronFields minute hour dom month dow) := by
  refine refines_fieldThen (i := 0) rfl rfl _ _ ?_
  refine refines_fieldThen (i := 1) rfl rfl _ _ ?_
  refine refines_fieldThen (i := 2) rfl rfl _ _ ?_
  refine refines_fieldThen (i := 3) rfl rfl _ _ ?_
  exact refines_field (i := 4) rfl rfl _ _

/-! ### Schedules -/

/-- What `parse_with_error` leaves behind: the block of the schedule, or nothing. -/
def Parsed (context : MemoryContext) (P : Assertion Block)
    (result : Option CronSchedule × Option CronParseError)
    (r : Option Nat × Option CronParseError) : Assertion Block :=
  fun f => r.2 = result.2 ∧
    ((r.1 = none ∧ result.1 = none ∧ P f) ∨
      ∃ p schedule, r.1 = some p ∧ result.1 = some schedule ∧
        sep (pointsTo p ⟨context, .schedule schedule⟩) P f)

/-- What follows the parser has to cope with both outcomes. -/
theorem triple_ofParsed {α : Type} {result : Option CronSchedule × Option CronParseError}
    {r : Option Nat × Option CronParseError} {m : Mem α} {Q : α → Assertion Block}
    (hrejected : r.1 = none → result.1 = none → Triple P m Q)
    (haccepted : ∀ p schedule, r.1 = some p → result.1 = some schedule →
      Triple (sep (pointsTo p ⟨context, .schedule schedule⟩) P) m Q) :
    Triple (Parsed context P result r) m Q := by
  rintro h ⟨-, ⟨hnone, hresult, hP⟩ | ⟨p, schedule, hsome, hresult, hP⟩⟩
  · exact hrejected hnone hresult h hP
  · exact haccepted p schedule hsome hresult h hP

section Schedules

variable {array : Nat} {ps : List Nat} {ss : List CString} {error : Option CronParseError}

/-- The parts are freed, and there is no schedule. -/
theorem triple_rejected :
    Triple (sep (stringArray context array ps ss) P)
      (freeStringArray array >>= fun _ => pure (none, error))
      (Parsed context P (none, error)) :=
  triple_bind triple_freeStringArray fun _ => triple_pure fun _ h => ⟨rfl, Or.inl ⟨rfl, rfl, h⟩⟩

/-- The schedule is allocated, the parts are freed, and the schedule is returned. -/
theorem triple_accepted (schedule : CronSchedule) :
    Triple (sep (stringArray context array ps ss) P)
      (palloc context (.schedule schedule) >>= fun p =>
        freeStringArray array >>= fun _ => pure (some p, error))
      (Parsed context P (some schedule, error)) := by
  refine triple_bind (triple_alloc _) fun p => ?_
  rw [sep_left_comm]
  exact triple_bind triple_freeStringArray fun _ =>
    triple_pure fun _ h => ⟨rfl, Or.inr ⟨p, schedule, rfl, rfl, h⟩⟩

/-- **`N seconds`.** -/
theorem triple_parseSeconds {count : CString} (hp : ps.length = ss.length)
    (hs : ss[0]? = some count) :
    Triple (sep (stringArray context array ps ss) P) (parseSeconds context array error)
      (Parsed context P (NedoCron.parseSeconds count error)) := by
  have hpos : 0 < ps.length := by
    rw [hp]
    exact (List.getElem?_eq_some_iff.mp hs).1
  have hslot : ps[0]? = some (ps.get ⟨0, hpos⟩) := List.getElem?_eq_getElem hpos
  refine (tidy_slot hslot).then_triple ((tidy_loadPart hslot hs).then_triple ?_)
  unfold NedoCron.parseSeconds
  dsimp only
  cases parseInteger count with
  | none => exact triple_rejected
  | some seconds =>
    dsimp only
    by_cases hrange : seconds < 1 ∨ seconds > 59
    · rw [if_pos hrange, if_pos hrange]
      exact triple_rejected
    · rw [if_neg hrange, if_neg hrange]
      exact triple_accepted _

/-- Without two parts there is no seconds format, and none of them is read. -/
theorem tidy_isSecondsFormat_ne {n : Nat} (hn : n ≠ 2) :
    Tidy P (isSecondsFormat array n) false := by
  unfold isSecondsFormat
  rw [if_neg hn]
  exact tidy_pure P false

/-- A text with another number of fields is rejected. -/
theorem triple_wrongCount {n : Nat} {k : Mem (Option Nat × Option CronParseError)}
    {m : Mem (Option Nat × Option CronParseError)} (htwo : n ≠ 2) (hfive : n ≠ 5) :
    Triple (sep (stringArray context array ps ss) P)
      (isSecondsFormat array n >>= fun seconds =>
        if seconds = true then m
        else if n ≠ 5 then freeStringArray array >>= fun _ => pure (none, error) else k)
      (Parsed context P (none, error)) := by
  refine (tidy_isSecondsFormat_ne htwo).then_triple ?_
  rw [if_neg Bool.false_ne_true, if_pos hfive]
  exact triple_rejected

/-- **The parser on the heap** returns what the parser returns, and leaves the block of the
    schedule. -/
theorem triple_parseWithError {command : Nat} {text : CString} {context' : MemoryContext}
    (h : Holds P command ⟨context', .string text⟩) (error : Option CronParseError) :
    Triple P (parseWithError context (some command) error)
      (Parsed context P (NedoCron.parseWithError text error)) := by
  unfold parseWithError NedoCron.parseWithError
  dsimp only
  refine (tidy_loadString h).then_triple ?_
  by_cases hempty : text = []
  · rw [if_pos hempty, if_pos hempty]
    exact triple_pure fun f hf => ⟨rfl, Or.inl ⟨rfl, rfl, hf⟩⟩
  rw [if_neg hempty, if_neg hempty]
  refine triple_bind (triple_strSplit h context spaceDelimiter) fun fields =>
    triple_exists fun ps => triple_of_fact fun hps => ?_
  refine tidy_charArrayLength.then_triple ?_
  rw [hps]
  generalize NedoCron.strSplit text spaceDelimiter = parts at hps ⊢
  -- two parts may be the seconds format, five are the fields, any other number is an error
  rcases parts with _ | ⟨p₁, _ | ⟨p₂, _ | ⟨p₃, _ | ⟨p₄, _ | ⟨p₅, _ | ⟨p₆, rest⟩⟩⟩⟩⟩⟩
  · exact triple_wrongCount (by simp) (by simp)
  · exact triple_wrongCount (by simp) (by simp)
  · obtain ⟨q₁, q₂, rfl⟩ := List.length_eq_two.mp hps
    -- the second part is compared with `seconds`
    have hformat : Tidy (sep (stringArray context fields [q₁, q₂] [p₁, p₂]) P)
        (isSecondsFormat fields 2) (strcasecmpEq p₂ secondsIdentifier) :=
      (tidy_slot (i := 1) rfl).bind ((tidy_loadPart (i := 1) rfl rfl).bind (tidy_pure _ _))
    refine hformat.then_triple ?_
    by_cases hseconds : strcasecmpEq p₂ secondsIdentifier = true
    · rw [if_pos hseconds]
      dsimp only
      rw [if_pos hseconds]
      exact triple_parseSeconds rfl rfl
    · rw [if_neg hseconds, if_pos (by simp)]
      dsimp only
      rw [if_neg hseconds]
      exact triple_rejected
  · exact triple_wrongCount (by simp) (by simp)
  · exact triple_wrongCount (by simp) (by simp)
  · have hfive : ∃ q₁ q₂ q₃ q₄ q₅, ps = [q₁, q₂, q₃, q₄, q₅] := by
      rcases ps with _ | ⟨q₁, _ | ⟨q₂, _ | ⟨q₃, _ | ⟨q₄, _ | ⟨q₅, _ | ⟨_, _⟩⟩⟩⟩⟩⟩ <;>
        simp at hps ⊢
    obtain ⟨q₁, q₂, q₃, q₄, q₅, rfl⟩ := hfive
    refine (tidy_isSecondsFormat_ne (by simp)).then_triple ?_
    rw [if_neg Bool.false_ne_true, if_neg (by simp)]
    -- the fields leave the heap as it was, so the schedule is allocated last
    refine triple_bind (refines_parseCronFields _) fun r => triple_of_fact ?_
    rintro rfl
    dsimp only
    generalize (NedoCron.parseCronFields p₁ p₂ p₃ p₄ p₅).run
      ⟨CronSchedule.zero, clearParseError error⟩ = r
    obtain ⟨ok, st⟩ := r
    cases ok with
    | false => exact triple_rejected
    | true => exact triple_accepted _
  · exact triple_wrongCount (by simp) (by simp)

end Schedules

/-! ### Whole heaps -/

/-- **The parser cleans up.**  For every heap and every string on it, or `NULL`: the parser is
    defined, that is, it touches no block that is not in use and no slot past the end of an array;
    it returns what the parser of `CronParser` returns; and the blocks in use afterwards are those
    from before, with one more for the schedule if the text is accepted.  `free_cron_schedule` of
    what was returned gives back exactly the blocks from before. -/
theorem parseWithError_cleansUp (h : State Block) (context : MemoryContext) (command : Option Nat)
    (text : CString) (error : Option CronParseError)
    (hcommand : (command = none ∧ text = []) ∨
      ∃ p context', command = some p ∧ h.blocks p = some ⟨context', .string text⟩) :
    ∃ schedule h',
      parseWithError context command error h =
        some ((schedule, (NedoCron.parseWithError text error).2), h') ∧
      ((NedoCron.parseWithError text error).1 = none → schedule = none ∧ h'.blocks = h.blocks) ∧
      (∀ s, (NedoCron.parseWithError text error).1 = some s →
        ∃ p, schedule = some p ∧ h.blocks p = none ∧
          h'.blocks = Function.update h.blocks p (some ⟨context, .schedule s⟩)) ∧
      ∃ h'', freeCronSchedule schedule h' = some ((), h'') ∧ h''.blocks = h.blocks := by
  have htriple : Triple (fun f => f = h.blocks) (parseWithError context command error)
      (Parsed context (fun f => f = h.blocks) (NedoCron.parseWithError text error)) := by
    rcases hcommand with ⟨rfl, rfl⟩ | ⟨p, context', rfl, hp⟩
    · exact triple_pure fun f hf => ⟨rfl, Or.inl ⟨rfl, rfl, hf⟩⟩
    · exact triple_parseWithError (fun f hf => hf ▸ hp) error
  obtain ⟨⟨schedule, error'⟩, h', hrun, herror, hleft⟩ := htriple h rfl
  cases herror
  refine ⟨schedule, h', hrun, ?_⟩
  rcases hleft with ⟨hnone, hresult, hblocks⟩ | ⟨p, s, hsome, hresult, g, k, hj, rfl, rfl⟩
  · subst hnone
    rw [hresult]
    exact ⟨fun _ => ⟨rfl, hblocks⟩, fun s hs => absurd hs (by simp), h', rfl, hblocks⟩
  · subst hsome
    rw [hresult]
    refine ⟨fun hs => absurd hs (by simp), fun s' hs => ?_, ?_⟩
    · obtain rfl := Option.some.inj hs
      exact ⟨p, rfl, hj.disjoint (Function.update_self ..), hj.eq_update⟩
    · obtain ⟨⟨⟩, h'', hfree, hblocks⟩ :=
        triple_free (P := fun f => f = h.blocks) p _ h' ⟨_, _, hj, rfl, rfl⟩
      exact ⟨h'', hfree, hblocks⟩

/-- A heap with the text `5 seconds` on it. -/
def secondsHeap : State Block where
  blocks p := if p = 0 then some ⟨.otherContext, .string (ascii "5 seconds")⟩ else none
  next := 1
  fresh p hp := if_neg (by omega)

/-- The theorem at that text. -/
theorem parseWithError_cleansUp_seconds : ∃ p h',
    parseWithError .otherContext (some 0) none secondsHeap = some ((some p, none), h') ∧
      secondsHeap.blocks p = none := by
  obtain ⟨schedule, h', hrun, -, haccepted, -⟩ := parseWithError_cleansUp secondsHeap .otherContext
    (some 0) (ascii "5 seconds") none (Or.inr ⟨0, .otherContext, rfl, rfl⟩)
  obtain ⟨p, rfl, hfresh, -⟩ := haccepted
    { CronSchedule.zero with seconds := true, secondsInterval := 5 } (by decide)
  exact ⟨p, h', hrun, hfresh⟩

end NedoCron.Memory

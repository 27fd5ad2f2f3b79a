import NedoCron.ParserVerdict

namespace NedoCron

/-!
# nedo_cron — where a parse error is

A rejected schedule text is reported by the field and the item at fault: the leftmost field
that `parse_cron_field` rejects on its own, and in it the first item that `parse_field_item`
rejects on its own.

* `FieldFault` — what is wrong with a field, and `ErrorPlace` with a schedule text;
* `parseErrors_located` — the error record names the place.
-/

/-! ### Fields -/

/-- The answer of a parsing function that is run on its own. -/
def acceptsAlone (x : Parse Bool) : Bool := (x.run ⟨CronSchedule.zero, none⟩).1

/-- `parse_field_item` accepts the item on its own. -/
def itemAlone (type : FieldType) (item : CString) : Bool :=
  acceptsAlone (parseFieldItem item type 1 1)

/-- `parse_cron_field` accepts the field on its own. -/
def fieldAlone (f : FieldType × CString) : Bool := acceptsAlone (parseCronField f.2 f.1 1)

/-- An item by itself is accepted if its verdict says so. -/
theorem itemAlone_eq (type : FieldType) : itemAlone type = acceptsItem type :=
  funext fun item => (judges_parseFieldItem type item 1 1).answer _

/-- The fault of a rejected field: the index and the text of the token at fault. -/
inductive FieldFault (type : FieldType) (field : CString) : Int → CString → Prop where
  /-- a comma part is empty: the whole field is at fault -/
  | emptyPart (h : [] ∈ strSplit field arrayOfNumbersDelimiter) : FieldFault type field 0 field
  /-- the first item that is rejected -/
  | item (h : [] ∉ strSplit field arrayOfNumbersDelimiter) {n : Nat} {item : CString}
      (hfirst : FirstRejected (itemAlone type) (strSplit field arrayOfNumbersDelimiter) n item) :
      FieldFault type field (n + 1) item

/-- The verdict on a field: it passes, or the fault is the one reported. -/
theorem parseCronField_verdict (type : FieldType) (field : CString) (fieldIndex : Int) :
    (acceptsField type field = true ∧ Passes (parseCronField field type fieldIndex)) ∨
    (acceptsField type field = false ∧ ∃ tokenIndex token, FieldFault type field tokenIndex token ∧
      Judges (parseCronField field type fieldIndex) false fieldIndex tokenIndex token) := by
  unfold parseCronField acceptsField
  by_cases hempty : hasEmptyPart field arrayOfNumbersDelimiter = true
  · rw [if_pos hempty, hempty]
    refine Or.inr ⟨rfl, 0, field, .emptyPart ((hasEmptyPart_iff _ _).mp hempty), ?_⟩
    apply judges_reported
    decide +kernel
  · have hparts : [] ∉ strSplit field arrayOfNumbersDelimiter := fun hmem =>
      hempty ((hasEmptyPart_iff _ _).mpr hmem)
    -- the check for no parts never fires: a split has at least one
    have hlength : (strSplit field arrayOfNumbersDelimiter).length ≠ 0 := fun hzero =>
      strSplit_ne_nil field arrayOfNumbersDelimiter (List.length_eq_zero_iff.mp hzero)
    rw [if_neg hempty, if_neg hlength, Bool.not_eq_true _ |>.mp hempty]
    rcases parseItems_verdict type fieldIndex (strSplit field arrayOfNumbersDelimiter) 1 with
      ⟨hall, hpasses⟩ | ⟨n, item, hfirst, hjudges⟩
    · exact Or.inl ⟨by rw [hall]; rfl, hpasses⟩
    · refine Or.inr ⟨?_, 1 + n, item, ?_, hjudges⟩
      · rw [Bool.not_false, Bool.true_and, List.all_eq_false]
        exact ⟨item, List.mem_of_getElem? hfirst.1, by rw [hfirst.2.1]; simp⟩
      · rw [Int.add_comm]
        rw [← itemAlone_eq] at hfirst
        exact .item hparts hfirst

/-- A field by itself is accepted if its verdict says so. -/
theorem fieldAlone_eq (type : FieldType) (field : CString) :
    fieldAlone (type, field) = acceptsField type field := by
  show ((parseCronField field type 1).run ⟨CronSchedule.zero, none⟩).1 = _
  rcases parseCronField_verdict type field 1 with ⟨haccepts, hpasses⟩ | ⟨hrejects, _, _, -, hjudges⟩
  · rw [(hpasses _).1, haccepts]
  · rw [hjudges.answer, hrejects]

/-- A list of fields with their types, and a function that parses them from the `i`-th on. -/
def FieldsVerdict (fields : List (FieldType × CString)) (i : Int) (x : Parse Bool) : Prop :=
  ((∀ f ∈ fields, fieldAlone f = true) ∧ Passes x) ∨
  ∃ n f tokenIndex token,
    FirstRejected fieldAlone fields n f ∧ FieldFault f.1 f.2 tokenIndex token ∧
      Judges x false (i + n) tokenIndex token

/-- The verdict on a single field. -/
theorem fieldsVerdict_single (type : FieldType) (field : CString) (i : Int) :
    FieldsVerdict [(type, field)] i (parseCronField field type i) := by
  rcases parseCronField_verdict type field i with
    ⟨haccepts, hpasses⟩ | ⟨hrejects, tokenIndex, token, hfault, hjudges⟩
  · rw [← fieldAlone_eq] at haccepts
    exact Or.inl ⟨by simpa using haccepts, hpasses⟩
  · rw [← fieldAlone_eq] at hrejects
    refine Or.inr ⟨0, (type, field), tokenIndex, token,
      firstRejected_head (x := (type, field)) hrejects [], hfault, ?_⟩
    rw [show i + ((0 : Nat) : Int) = i by omega]
    exact hjudges

/-- The fields after one more field. -/
theorem FieldsVerdict.cons {fields : List (FieldType × CString)} {i : Int} {y : Parse Bool}
    (hy : FieldsVerdict fields (i + 1) y) (type : FieldType) (field : CString) :
    FieldsVerdict ((type, field) :: fields) i (do
      if !(← parseCronField field type i) then return false
      y) := by
  rcases parseCronField_verdict type field i with
    ⟨haccepts, hpasses⟩ | ⟨hrejects, tokenIndex, token, hfault, hjudges⟩
  · rw [← fieldAlone_eq] at haccepts
    -- the field passes: the verdict is that on the others, one field later
    have hrun : ∀ st, (do
        if !(← parseCronField field type i) then return false
        y : Parse Bool).run st = y.run ((parseCronField field type i).run st).2 := by
      intro st
      rw [run_bind, (hpasses st).1]
      rfl
    rcases hy with ⟨hall, hrest⟩ | ⟨n, f, tokenIndex, token, hfirst, hfault, hrest⟩
    · refine Or.inl ⟨by simpa [haccepts] using hall, fun st => ?_⟩
      rw [hrun st]
      exact ⟨(hrest _).1, (hrest _).2.trans (hpasses st).2⟩
    · obtain ⟨message, hmessage, herror⟩ := hrest.rejects rfl
      refine Or.inr ⟨n + 1, f, tokenIndex, token, hfirst.cons haccepts, hfault,
        fun st => by rw [hrun st]; exact hrest.answer _, fun h => absurd h (by simp),
        fun _ => ⟨message, hmessage, fun st => ?_⟩⟩
      rw [hrun st, herror, (hpasses st).2,
        show i + 1 + (n : Int) = i + ((n + 1 : Nat) : Int) by omega]
  · rw [← fieldAlone_eq] at hrejects
    -- the field is rejected: the others are not looked at
    have hrun : ∀ st, (do
        if !(← parseCronField field type i) then return false
        y : Parse Bool).run st = (false, ((parseCronField field type i).run st).2) := by
      intro st
      rw [run_bind, hjudges.answer st]
      rfl
    obtain ⟨message, hmessage, herror⟩ := hjudges.rejects rfl
    refine Or.inr ⟨0, (type, field), tokenIndex, token,
      firstRejected_head (x := (type, field)) hrejects fields, hfault,
      fun st => by rw [hrun st], fun h => absurd h (by simp),
      fun _ => ⟨message, hmessage, fun st => ?_⟩⟩
    rw [hrun st, herror st, show i + ((0 : Nat) : Int) = i by omega]

/-- The five fields with their types. -/
def typedFields (minute hour dom month dow : CString) : List (FieldType × CString) :=
  [(.minute, minute), (.hour, hour), (.dom, dom), (.m, month), (.dow, dow)]

/-- The verdict on the five fields. -/
theorem parseCronFields_verdict (minute hour dom month dow : CString) :
    FieldsVerdict (typedFields minute hour dom month dow) 1
      (parseCronFields minute hour dom month dow) :=
  ((((fieldsVerdict_single .dow dow 5).cons .m month).cons .dom dom).cons .hour hour).cons
    .minute minute

/-! ### Schedules -/

/-- Where the error of a rejected schedule text is: field index, token index and token. -/
inductive ErrorPlace (s : CString) : Int → Int → CString → Prop where
  | empty (h : s = []) : ErrorPlace s 0 0 []
  /-- neither five fields nor two with the second one `seconds` -/
  | count (hfive : (strSplit s spaceDelimiter).length ≠ 5)
      (hseconds : ∀ count unit, strSplit s spaceDelimiter = [count, unit] →
        strcasecmpEq unit secondsIdentifier = false) : ErrorPlace s 0 0 []
  /-- `N seconds` with a bad `N` -/
  | seconds {count unit : CString} (hsplit : strSplit s spaceDelimiter = [count, unit])
      (hunit : strcasecmpEq unit secondsIdentifier = true)
      (hbad : ∀ n, IsInteger count n → ¬(1 ≤ n ∧ n ≤ 59)) : ErrorPlace s 1 1 (count.take 63)
  /-- the leftmost field that is rejected on its own -/
  | field {minute hour dom month dow : CString}
      (hsplit : strSplit s spaceDelimiter = [minute, hour, dom, month, dow]) {n : Nat}
      {type : FieldType} {field : CString}
      (hfirst : FirstRejected fieldAlone (typedFields minute hour dom month dow) n (type, field))
      {tokenIndex : Int} {token : CString} (hfault : FieldFault type field tokenIndex token) :
      ErrorPlace s (n + 1) tokenIndex (token.take 63)

/-- The texts that are accepted. -/
def acceptsText (s : CString) : Bool :=
  if s = [] then false
  else match strSplit s spaceDelimiter with
    | [count, unit] => strcasecmpEq unit secondsIdentifier &&
        (parseInteger count).any fun n => decide (1 ≤ n ∧ n ≤ 59)
    | [minute, hour, dom, month, dow] =>
      (typedFields minute hour dom month dow).all fun f => acceptsField f.1 f.2
    | _ => false

/-- The outcome of parsing a text: accepted with a cleared record, or rejected with a message
    about the place of the error. -/
def Settled (s : CString) (r : Option CronSchedule × Option CronParseError)
    (error : Option CronParseError) : Prop :=
  (acceptsText s = true ∧ r.1.isSome = true ∧ r.2 = clearParseError error) ∨
  (acceptsText s = false ∧ r.1 = none ∧ ∃ message fieldIndex tokenIndex token, message ≠ [] ∧
    ErrorPlace s fieldIndex tokenIndex token ∧
    r.2 = error.map fun _ => ⟨message, token, fieldIndex, tokenIndex⟩)

/-- A text of a count and a unit is settled by the count. -/
theorem settled_parseSeconds {s count unit : CString} (hne : s ≠ [])
    (hsplit : strSplit s spaceDelimiter = [count, unit])
    (hunit : strcasecmpEq unit secondsIdentifier = true) (error : Option CronParseError) :
    Settled s (parseSeconds count (clearParseError error)) error := by
  have htext : acceptsText s = (parseInteger count).any fun n => decide (1 ≤ n ∧ n ≤ 59) := by
    rw [acceptsText, if_neg hne, hsplit]
    dsimp only
    rw [hunit, Bool.true_and]
  -- both failures of the count end alike
  have hrejected : (∀ n, IsInteger count n → ¬(1 ≤ n ∧ n ≤ 59)) →
      Settled s (none, setParseError (clearParseError error) 1 1 (some count)
        (ascii "seconds interval must be 1-59") []) error := by
    intro hbad
    have hnone : acceptsText s = false := by
      rw [htext, Option.any_eq_false]
      intro n hn
      simpa using hbad n (parseInteger_eq_some.mp hn)
    refine Or.inr ⟨hnone, rfl, vsnprintf [] 256 (ascii "seconds interval must be 1-59") [], 1, 1,
      count.take 63, by decide +kernel, .seconds hsplit hunit hbad, ?_⟩
    cases error <;> rfl
  unfold parseSeconds
  dsimp only
  split
  · rename_i hnone
    apply hrejected
    intro n hn
    rw [parseInteger_eq_some.mpr hn] at hnone
    exact absurd hnone (by simp)
  · rename_i seconds hsome
    split
    · rename_i hrange
      apply hrejected
      intro n hn
      obtain rfl := Option.some.inj (hsome.symm.trans (parseInteger_eq_some.mpr hn))
      omega
    · refine Or.inl ⟨?_, rfl, rfl⟩
      rw [htext, hsome]
      simpa using by omega

/-- A text of five fields is settled by the fields. -/
theorem settled_fields {s minute hour dom month dow : CString} (hne : s ≠ [])
    (hsplit : strSplit s spaceDelimiter = [minute, hour, dom, month, dow])
    (error : Option CronParseError) : Settled s (parseWithError s error) error := by
  have htext : acceptsText s = (typedFields minute hour dom month dow).all fieldAlone := by
    rw [acceptsText, if_neg hne, hsplit]
    exact congrArg (List.all _) (funext fun f => (fieldAlone_eq f.1 f.2).symm)
  -- the two branches of the caller, for whatever the fields leave behind
  have hparse : ∀ result, (parseCronFields minute hour dom month dow).run
      ⟨CronSchedule.zero, clearParseError error⟩ = result →
        parseWithError s error =
          (if result.1 then some result.2.scheduler else none, result.2.error) := by
    rintro ⟨answer, st⟩ hrun
    unfold parseWithError
    rw [if_neg hne, hsplit]
    dsimp only
    rw [hrun]
    cases answer <;> rfl
  rw [hparse _ rfl]
  rcases parseCronFields_verdict minute hour dom month dow with
    ⟨hall, hpasses⟩ | ⟨n, ⟨type, field⟩, tokenIndex, token, hfirst, hfault, hjudges⟩
  · obtain ⟨hanswer, hrecord⟩ := hpasses ⟨CronSchedule.zero, clearParseError error⟩
    rw [hanswer, hrecord]
    exact Or.inl ⟨by rw [htext, List.all_eq_true]; exact hall, rfl, rfl⟩
  · obtain ⟨message, hmessage, herror⟩ := hjudges.rejects rfl
    have hanswer := hjudges.answer ⟨CronSchedule.zero, clearParseError error⟩
    have hrecord := herror ⟨CronSchedule.zero, clearParseError error⟩
    have hnone : acceptsText s = false := by
      rw [htext, List.all_eq_false]
      exact ⟨(type, field), List.mem_of_getElem? hfirst.1, by rw [hfirst.2.1]; simp⟩
    rw [hanswer, hrecord]
    refine Or.inr ⟨hnone, rfl, message, n + 1, tokenIndex, token.take 63, hmessage,
      .field hsplit hfirst hfault, ?_⟩
    rw [Int.add_comm 1]
    cases error <;> rfl

/-- A list of five. -/
theorem eq_five_of_length {α : Type} {l : List α} (h : l.length = 5) :
    ∃ a b c d e, l = [a, b, c, d, e] := by
  obtain ⟨a, l, rfl⟩ := List.exists_cons_of_length_eq_add_one h
  obtain ⟨b, l, rfl⟩ := List.exists_cons_of_length_eq_add_one (Nat.succ.inj h)
  obtain ⟨c, d, e, rfl⟩ := List.length_eq_three.mp (Nat.succ.inj (Nat.succ.inj h))
  exact ⟨a, b, c, d, e, rfl⟩

/-- **Every text is settled**: accepted without an error, or rejected with the error of the leftmost
    failure.  The cases are the numbers of parts the text splits into. -/
theorem settled_parseWithError (s : CString) (error : Option CronParseError) :
    Settled s (parseWithError s error) error := by
  -- a wrong number of parts
  have hcount : acceptsText s = false → (strSplit s spaceDelimiter).length ≠ 5 →
      (∀ count unit, strSplit s spaceDelimiter = [count, unit] →
        strcasecmpEq unit secondsIdentifier = false) →
      Settled s (none, setParseError (clearParseError error) 0 0 none
        (ascii "expected 5 cron fields or \"N seconds\"") []) error := by
    intro hnone hfive hseconds
    refine Or.inr ⟨hnone, rfl, vsnprintf [] 256
      (ascii "expected 5 cron fields or \"N seconds\"") [], 0, 0, [], by decide +kernel,
      .count hfive hseconds, ?_⟩
    cases error <;> rfl
  by_cases hempty : s = []
  · have hparse : parseWithError s error =
        (none, setParseError (clearParseError error) 0 0 none (ascii "schedule is empty") []) := by
      rw [parseWithError, if_pos hempty]
    rw [hparse]
    refine Or.inr ⟨by rw [acceptsText, if_pos hempty], rfl,
      vsnprintf [] 256 (ascii "schedule is empty") [], 0, 0, [], by decide +kernel,
      .empty hempty, ?_⟩
    cases error <;> rfl
  -- the branches are those of `parse_with_error` on the parts of the text
  · have hfields := fun minute hour dom month dow
      (hsplit : strSplit s spaceDelimiter = [minute, hour, dom, month, dow]) =>
        settled_fields hempty hsplit error
    unfold parseWithError at hfields ⊢
    rw [if_neg hempty] at hfields ⊢
    split
    · rename_i count unit hsplit
      -- two parts: the seconds format, or a wrong number
      cases hunit : strcasecmpEq unit secondsIdentifier with
      | true => exact settled_parseSeconds hempty hsplit hunit error
      | false =>
        refine hcount ?_ (by rw [hsplit]; simp) fun count' unit' h => ?_
        · rw [acceptsText, if_neg hempty, hsplit]
          dsimp only
          rw [hunit]
          rfl
        · rw [hsplit] at h
          obtain ⟨-, rfl⟩ : count = count' ∧ unit = unit' := by simpa using h
          exact hunit
    · -- five parts: the fields decide
      rename_i minute hour dom month dow hsplit
      have hfive := hfields minute hour dom month dow hsplit
      rw [hsplit] at hfive
      exact hfive
    · rename_i htwo hfive
      -- any other number of parts
      refine hcount ?_ (fun hlength => ?_) fun count unit h => absurd h (htwo count unit)
      · rw [acceptsText, if_neg hempty]
        split
        · exact absurd ‹_› (htwo _ _)
        · exact absurd ‹_› (hfive _ _ _ _ _)
        · rfl
      · obtain ⟨minute, hour, dom, month, dow, hparts⟩ := eq_five_of_length hlength
        exact hfive minute hour dom month dow hparts

/-- **The parser accepts the texts `acceptsText` accepts**, with or without an error record. -/
theorem isSome_parseWithError (s : CString) (error : Option CronParseError) :
    (parseWithError s error).1.isSome = acceptsText s := by
  rcases settled_parseWithError s error with ⟨htext, haccepted, -⟩ | ⟨htext, hrejected, -⟩
  · rw [htext, haccepted]
  · rw [htext, hrejected]
    rfl

/-- **Parse errors are located.** With an error record, the text is rejected exactly when there
    is a message afterwards, and just as without a record (`parse`).  The record of a rejected
    text says where the error is, that of an accepted one is zero. -/
theorem parseErrors_located (s : CString) (error : CronParseError) :
    ∃ error', (parseWithError s (some error)).2 = some error' ∧
      ((parseWithError s (some error)).1 = none ↔ error'.message ≠ []) ∧
      (parseWithError s (some error)).1.isSome = (parse s).isSome ∧
      ((parseWithError s (some error)).1 = none →
        ErrorPlace s error'.fieldIndex error'.tokenIndex error'.token) ∧
      ((parseWithError s (some error)).1.isSome = true → error' = ⟨[], [], 0, 0⟩) := by
  have hsame : (parseWithError s (some error)).1.isSome = (parse s).isSome := by
    rw [isSome_parseWithError, parse, isSome_parseWithError]
  rcases settled_parseWithError s (some error) with ⟨-, haccepted, hrecord⟩ |
    ⟨-, hrejected, message, fieldIndex, tokenIndex, token, hmessage, hplace, hrecord⟩
  · refine ⟨⟨[], [], 0, 0⟩, hrecord, ⟨fun hnone => ?_, fun hne => absurd rfl hne⟩, hsame,
      fun hnone => ?_, fun _ => rfl⟩
    · rw [hnone] at haccepted
      exact absurd haccepted (by simp)
    · rw [hnone] at haccepted
      exact absurd haccepted (by simp)
  · refine ⟨⟨message, token, fieldIndex, tokenIndex⟩, hrecord,
      ⟨fun _ => hmessage, fun _ => hrejected⟩, hsame, fun _ => hplace, fun hsome => ?_⟩
    rw [hrejected] at hsome
    exact absurd hsome (by simp)

end NedoCron

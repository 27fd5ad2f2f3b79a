import NedoCron.ErrorText
import NedoCron.ParseErrors
import NedoCron.Lib.Utf8

namespace NedoCron

/-!
# nedo_cron — error texts are cut by bytes

`SetTaskError` keeps the first 1023 bytes of a text, and `set_parse_error` the first 63 of a token
and 255 of a message.  None of them looks where the characters of the text end.

* `storedText_valid_iff` — what `SetTaskError` stores for a text of libpq;
* `tokenAtFault` — the token of a rejected schedule text, before it is cut (`ErrorPlace.token_eq`);
* `plain_parseWithError` — the messages of the parser are ASCII, so that no cut can hurt them;
* `errorTexts_valid_iff` — the texts that are kept stay texts just when no cut is in a character.
-/

/-! ### The texts of a task -/

/-- Only `%` are taken out, so that a text stays a text. -/
theorem valid_collapsePairs {seen text : CString} (hpaired : percentPaired text = true)
    (h : Utf8.Valid (seen ++ text)) : Utf8.Valid (seen ++ collapsePairs text) := by
  induction text using percentPaired.induct generalizing seen with
  | case1 => exact h
  | case2 c => exact h
  | case3 d rest ih =>
    rcases percentPaired_cases hpaired with hne | ⟨-, rest, heq, hrest⟩
    · exact absurd rfl hne
    · obtain ⟨rfl, rfl⟩ := List.cons.inj heq
      obtain ⟨hseen, hmore⟩ := Utf8.valid_split_ascii (by decide) h
      rw [collapsePairs_pair]
      -- the second `%` of the pair starts what follows the first
      have htail : Utf8.Valid ([percent] ++ rest) := hmore
      exact hseen.append (ih hrest htail)
  | case4 c d rest hc ih =>
    rw [percentPaired_cons hc] at hpaired
    rw [collapsePairs_cons hc, List.append_cons]
    exact ih hpaired (List.append_cons seen c (d :: rest) ▸ h)

/-- A byte that continues a character is not a text of its own. -/
theorem not_valid_continuation : ¬Utf8.Valid [0x80] := by
  intro h
  have hboundary := (Utf8.valid_take_iff h 0).mp Utf8.valid_nil
  exact absurd hboundary (by decide)

/-- **The text of an error of libpq** is stored as a text, whatever an undefined directive leaves
    in the buffer, just when its `%` come in pairs and the cut is not in a character. -/
theorem storedText_valid_iff {text : CString} (h : Utf8.Valid text) :
    (∀ leftover, Utf8.Valid (storedText leftover text)) ↔
      text = [] ∨ percentPaired text = true ∧ Utf8.Boundary 1023 (collapsePairs text) := by
  by_cases hne : text = []
  · -- the message that stands for the empty text
    subst hne
    refine ⟨fun _ => Or.inl rfl, fun _ leftover => ?_⟩
    have hstored : storedText leftover [] = ascii "unknown error, message text = '\\0'" := by
      rw [storedText, if_pos rfl, vsnprintf, formatArgs_nil]
      rfl
    rw [hstored]
    have hplain : Utf8.Ascii (ascii "unknown error, message text = '\\0'") := by decide
    exact hplain.valid
  · rw [or_iff_right hne]
    cases hpaired : percentPaired text with
    | false =>
      refine ⟨fun hall => ?_, fun hboth => absurd hboth.1 (by simp)⟩
      have hleft := hall [0x80]
      rw [storedText_unpaired hne hpaired] at hleft
      exact absurd hleft not_valid_continuation
    | true =>
      have hcollapsed : Utf8.Valid (collapsePairs text) :=
        valid_collapsePairs hpaired (show Utf8.Valid ([] ++ text) from h)
      rw [← Utf8.valid_take_iff hcollapsed]
      refine ⟨fun hall => ⟨rfl, ?_⟩, fun hboth leftover => ?_⟩
      · rw [← storedText_paired hne hpaired []]
        exact hall []
      · rw [storedText_paired hne hpaired]
        exact hboth.2

/-- A text from a format and its arguments is only cut. -/
theorem setTaskError_formatted {fmt text : CString} {args : List FmtArg} (hne : fmt ≠ [])
    (h : formatArgs fmt args = some text) (leftover : CString) (task : CronTask) :
    (setTaskError leftover task fmt args).errorMessage = some (text.take 1023) := by
  unfold setTaskError
  dsimp only
  rw [if_neg hne, vsnprintf, h]
  rfl

/-! ### The token of a parse error -/

/-- The part of a field that is at fault: the field itself if a part of it is empty, else its first
    item that is rejected on its own. -/
def itemAtFault (type : FieldType) (field : CString) : CString :=
  if hasEmptyPart field arrayOfNumbersDelimiter then field
  else ((strSplit field arrayOfNumbersDelimiter).find? fun item => !itemAlone type item).getD []

/-- The token of a rejected schedule text, in full. -/
def tokenAtFault (s : CString) : CString :=
  match strSplit s spaceDelimiter with
  | [count, unit] => if strcasecmpEq unit secondsIdentifier then count else []
  | [minute, hour, dom, month, dow] =>
    (((typedFields minute hour dom month dow).find? fun f => !fieldAlone f).map fun f =>
      itemAtFault f.1 f.2).getD []
  | _ => []

/-- The first that is rejected is what a search finds. -/
theorem FirstRejected.find?_eq {α : Type} {accepts : α → Bool} {xs : List α} {n : Nat} {x : α}
    (h : FirstRejected accepts xs n x) : (xs.find? fun y => !accepts y) = some x := by
  obtain ⟨hx, hrejected, hbefore⟩ := h
  obtain ⟨hn, heq⟩ := List.getElem?_eq_some_iff.mp hx
  rw [List.find?_eq_some_iff_getElem]
  refine ⟨by simpa using hrejected, n, hn, heq, fun m hm => ?_⟩
  simpa using hbefore m xs[m] hm (List.getElem?_eq_getElem (Nat.lt_trans hm hn))

/-- The token of a fault is the item at fault. -/
theorem FieldFault.token_eq {type : FieldType} {field : CString} {tokenIndex : Int}
    {token : CString} (h : FieldFault type field tokenIndex token) :
    token = itemAtFault type field := by
  unfold itemAtFault
  cases h with
  | emptyPart hempty => rw [if_pos ((hasEmptyPart_iff _ _).mpr hempty)]
  | item hempty hfirst =>
    rw [if_neg fun h => hempty ((hasEmptyPart_iff _ _).mp h), hfirst.find?_eq, Option.getD_some]

/-- **The record keeps the first 63 bytes of the token at fault.** -/
theorem ErrorPlace.token_eq {s : CString} {fieldIndex tokenIndex : Int} {token : CString}
    (h : ErrorPlace s fieldIndex tokenIndex token) : token = (tokenAtFault s).take 63 := by
  unfold tokenAtFault
  cases h with
  | empty hempty =>
    subst hempty
    rfl
  | count hfive hseconds =>
    -- neither a wrong number of parts nor an empty text has a token
    split
    · rename_i count unit hsplit
      rw [hseconds count unit hsplit, if_neg Bool.false_ne_true, List.take_nil]
    · rename_i hsplit
      exact absurd (by rw [hsplit]; rfl) hfive
    · rw [List.take_nil]
  | seconds hsplit hunit _ =>
    rw [hsplit]
    dsimp only
    rw [if_pos hunit]
  | field hsplit hfirst hfault =>
    rw [hsplit]
    dsimp only
    rw [hfirst.find?_eq, Option.map_some, Option.getD_some, hfault.token_eq]

/-- The parts of a text between ASCII delimiters are texts. -/
theorem valid_strSplitLoop {delim : UInt8} (hdelim : delim < 128) {part p : CString}
    (h : Utf8.Valid (part ++ p)) : ∀ token ∈ strSplitLoop delim part p, Utf8.Valid token := by
  induction p generalizing part with
  | nil =>
    rw [List.append_nil] at h
    intro token htoken
    rw [strSplitLoop, List.mem_singleton] at htoken
    exact htoken ▸ h
  | cons c p ih =>
    rw [strSplitLoop]
    split
    · rename_i hc
      subst hc
      obtain ⟨hpart, hrest⟩ := Utf8.valid_split_ascii hdelim h
      intro token htoken
      rcases List.mem_cons.mp htoken with rfl | htoken
      · exact hpart
      · exact ih (show Utf8.Valid ([] ++ p) from hrest) token htoken
    · exact ih (List.append_cons part c p ▸ h)

/-- Splitting at an ASCII delimiter cuts no character. -/
theorem valid_strSplit {delim : UInt8} (hdelim : delim < 128) {s : CString}
    (h : Utf8.Valid s) : ∀ token ∈ strSplit s delim, Utf8.Valid token :=
  valid_strSplitLoop hdelim h

/-- What a search finds is a text if all of what it searches are. -/
theorem valid_find {xs : List CString} (h : ∀ x ∈ xs, Utf8.Valid x) (p : CString → Bool) :
    Utf8.Valid ((xs.find? p).getD []) := by
  cases hfound : xs.find? p with
  | none => exact Utf8.valid_nil
  | some x => exact h x (List.mem_of_find?_eq_some hfound)

/-- So the item at fault is valid. -/
theorem valid_itemAtFault (type : FieldType) {field : CString} (h : Utf8.Valid field) :
    Utf8.Valid (itemAtFault type field) := by
  unfold itemAtFault
  split
  · exact h
  · exact valid_find (valid_strSplit (by decide) h) _

/-- The token that is reported is valid. -/
theorem valid_tokenAtFault {s : CString} (h : Utf8.Valid s) : Utf8.Valid (tokenAtFault s) := by
  have hparts := @valid_strSplit spaceDelimiter (by decide) s h
  unfold tokenAtFault
  split
  · rename_i count unit hsplit
    rw [hsplit] at hparts
    split
    · exact hparts count List.mem_cons_self
    · exact Utf8.valid_nil
  · rename_i minute hour dom month dow hsplit
    rw [hsplit] at hparts
    cases hfound : (typedFields minute hour dom month dow).find? fun f => !fieldAlone f with
    | none => exact Utf8.valid_nil
    | some f =>
      -- the fields are the parts of the text
      have hmem : f.2 ∈ [minute, hour, dom, month, dow] :=
        List.mem_map_of_mem (f := Prod.snd) (List.mem_of_find?_eq_some hfound)
      exact valid_itemAtFault f.1 (hparts f.2 hmem)
  · exact Utf8.valid_nil

/-! ### Formatted ASCII -/

/-- A printed number is ASCII. -/
theorem ascii_showInt (n : Int) : Utf8.Ascii (showInt n) := by
  have hsign : Utf8.Ascii (if n < 0 then ascii "-" else []) := by
    split <;> decide
  refine hsign.append fun b hb => ?_
  obtain ⟨c, hc, rfl⟩ := List.mem_map.mp hb
  have hdigit := Char.isDigit_iff_toNat.mp (Nat.isDigit_of_mem_toDigits (by decide) (by decide) hc)
  have hlt : c.toNat < 58 := Nat.lt_of_le_of_lt hdigit.2 (by decide)
  rw [UInt8.lt_iff_toNat_lt, UInt8.toNat_ofNat_of_lt' (Nat.lt_trans hlt (by decide))]
  exact Nat.lt_trans hlt (by decide)

/-- The texts among the arguments are ASCII. -/
def ArgsAscii (args : List FmtArg) : Prop := ∀ s, FmtArg.str s ∈ args → Utf8.Ascii s

theorem argsAscii_nil : ArgsAscii [] := fun _ hs => by cases hs

theorem ArgsAscii.tail {arg : FmtArg} {args : List FmtArg} (h : ArgsAscii (arg :: args)) :
    ArgsAscii args := fun s hs => h s (List.mem_cons_of_mem arg hs)

/-- A number is always printed in ASCII. -/
theorem argsAscii_int {args : List FmtArg} (h : ArgsAscii args) (n : Int) :
    ArgsAscii (.int n :: args) := by
  intro s hs
  rcases List.mem_cons.mp hs with heq | hs
  · cases heq
  · exact h s hs

/-- The name of a field, and other arguments. -/
theorem argsAscii_fieldName {args : List FmtArg} (h : ArgsAscii args) (type : FieldType) :
    ArgsAscii (.str (fieldName type) :: args) := by
  intro s hs
  rcases List.mem_cons.mp hs with heq | hs
  · obtain rfl := FmtArg.str.inj heq
    cases type <;> decide
  · exact h s hs

/-- The arguments of most messages. -/
theorem argsAscii_name (type : FieldType) : ArgsAscii [.str (fieldName type)] :=
  argsAscii_fieldName argsAscii_nil type

/-- The arguments of the message about the bounds. -/
theorem argsAscii_bounds (type : FieldType) :
    ArgsAscii [.str (fieldName type), .int (getBounds type).1, .int (getBounds type).2] :=
  argsAscii_fieldName (argsAscii_int (argsAscii_int argsAscii_nil _) _) type

/-- A piece of the format in front. -/
theorem ascii_map_append {piece text : CString} {formatted : Option CString}
    (hpiece : Utf8.Ascii piece) (hrest : ∀ rest, formatted = some rest → Utf8.Ascii rest)
    (h : formatted.map (piece ++ ·) = some text) : Utf8.Ascii text := by
  obtain ⟨rest, heq, rfl⟩ := Option.map_eq_some_iff.mp h
  exact hpiece.append (hrest rest heq)

/-- **An ASCII format with ASCII arguments** gives ASCII. -/
theorem ascii_formatArgs {fmt text : CString} {args : List FmtArg} (hfmt : Utf8.Ascii fmt)
    (hargs : ArgsAscii args) (h : formatArgs fmt args = some text) : Utf8.Ascii text := by
  induction fmt, args using formatArgs.induct generalizing text with
  | case1 args =>
    obtain rfl : [] = text := Option.some.inj h
    decide
  | case2 c rest args hc ih =>
    rw [formatArgs_plain hc] at h
    have hpiece : Utf8.Ascii [c] := fun b hb => by
      obtain rfl := List.mem_singleton.mp hb
      exact hfmt b List.mem_cons_self
    exact ascii_map_append hpiece (fun _ => ih hfmt.tail hargs) h
  -- `%%`, `%s`, `%d` and `%ld`
  | case3 c hc rest args ih =>
    rw [formatArgs, if_neg hc] at h
    have hpiece : Utf8.Ascii [37] := by decide
    exact ascii_map_append hpiece (fun _ => ih hfmt.tail.tail hargs) h
  | case4 c hc rest s args ih =>
    rw [formatArgs, if_neg hc] at h
    exact ascii_map_append (hargs s List.mem_cons_self)
      (fun _ => ih hfmt.tail.tail hargs.tail) h
  | case5 c hc rest n args ih =>
    rw [formatArgs, if_neg hc] at h
    exact ascii_map_append (ascii_showInt n) (fun _ => ih hfmt.tail.tail hargs.tail) h
  | case6 c hc rest n args ih =>
    rw [formatArgs, if_neg hc] at h
    exact ascii_map_append (ascii_showInt n)
      (fun _ => ih hfmt.tail.tail.tail hargs.tail) h
  -- a directive that finds no argument of its kind
  | case7 c rest args hc =>
    rw [formatArgs, if_neg hc] at h
    · cases h
    all_goals assumption

/-! ### The messages of the parser -/

/-- The message of an error record, if there is one, is ASCII. -/
def RecordsPlain (error : Option CronParseError) : Prop := ∀ e ∈ error, Utf8.Ascii e.message

/-- A function that writes no other messages. -/
def KeepsPlain {α : Type} (x : Parse α) : Prop :=
  ∀ st, RecordsPlain st.error → RecordsPlain (x.run st).2.error

theorem keepsPlain_pure {α : Type} (a : α) : KeepsPlain (pure a) := fun _ h => h

/-- One part of the parser after another records plain errors. -/
theorem KeepsPlain.bind {α β : Type} {x : Parse α} {f : α → Parse β} (hx : KeepsPlain x)
    (hf : ∀ a, KeepsPlain (f a)) : KeepsPlain (x >>= f) := by
  intro st hst
  rw [run_bind]
  exact hf _ _ (hx st hst)

/-- Changing the schedule only. -/
theorem keepsPlain_fill (g : CronSchedule → CronSchedule) :
    KeepsPlain (modify fun st => { st with scheduler := g st.scheduler }) := fun _ h => h

/-- A message is ASCII if its format and its arguments are. -/
theorem recordsPlain_setParseError {fmt : CString} {args : List FmtArg}
    (hfmt : Utf8.Ascii fmt) (hargs : ArgsAscii args) (error : Option CronParseError)
    (fieldIndex tokenIndex : Int) (token : Option CString) :
    RecordsPlain (setParseError error fieldIndex tokenIndex token fmt args) := by
  intro e he
  obtain ⟨old, -, rfl⟩ := Option.mem_map.mp he
  show Utf8.Ascii (vsnprintf [] 256 fmt args)
  unfold vsnprintf
  cases hformat : formatArgs fmt args with
  | none => decide
  | some text => exact (ascii_formatArgs hfmt hargs hformat).take 255

/-- Likewise inside the parser, and so for every error the parser reports. -/
theorem keepsPlain_reportError {fmt : CString} {args : List FmtArg}
    (hfmt : Utf8.Ascii fmt) (hargs : ArgsAscii args) (fieldIndex tokenIndex : Int)
    (token : CString) : KeepsPlain (reportError fieldIndex tokenIndex token fmt args) :=
  fun st _ => recordsPlain_setParseError hfmt hargs st.error fieldIndex tokenIndex (some token)

/-- Reporting an error and giving up. -/
theorem keepsPlain_reported {fmt : CString} {args : List FmtArg}
    (hfmt : Utf8.Ascii fmt) (hargs : ArgsAscii args) (fieldIndex tokenIndex : Int)
    (token : CString) :
    KeepsPlain (do reportError fieldIndex tokenIndex token fmt args; return false) :=
  (keepsPlain_reportError hfmt hargs fieldIndex tokenIndex token).bind fun _ =>
    keepsPlain_pure false

theorem keepsPlain_setFieldValue (type : FieldType) (value fieldIndex tokenIndex : Int)
    (token : CString) : KeepsPlain (setFieldValue type value fieldIndex tokenIndex token) := by
  unfold setFieldValue
  split
  · rename_i h
    exact (keepsPlain_fill fun s => s.mark type value h).bind fun _ => keepsPlain_pure true
  · exact keepsPlain_reported (by decide) (argsAscii_bounds type) _ _ _

/-- The loop itself reports nothing; only setting a value does. -/
theorem keepsPlain_setFieldRangeLoop (type : FieldType)
    (finish step fieldIndex tokenIndex : Int) (token : CString) (fuel : Nat) (value : Int) :
    KeepsPlain (setFieldRangeLoop type finish step fieldIndex tokenIndex token fuel value) := by
  induction fuel generalizing value with
  | zero => exact keepsPlain_pure false
  | succ fuel ih =>
    rw [setFieldRangeLoop]
    split
    · refine (keepsPlain_setFieldValue type value fieldIndex tokenIndex token).bind fun ok => ?_
      split
      · exact ih _
      · exact keepsPlain_pure false
    · exact keepsPlain_pure true

theorem keepsPlain_setFieldRange (type : FieldType)
    (start finish step fieldIndex tokenIndex : Int) (token : CString) :
    KeepsPlain (setFieldRange type start finish step fieldIndex tokenIndex token) := by
  unfold setFieldRange
  split
  · exact keepsPlain_reported (by decide) argsAscii_nil _ _ _
  · split
    · exact keepsPlain_reported (by decide) argsAscii_nil _ _ _
    · exact keepsPlain_setFieldRangeLoop type _ _ _ _ _ 62 start

/-- The messages about an item with a step are ASCII; only the field's name is filled in. -/
theorem keepsPlain_parseStepItem (item : CString) (type : FieldType)
    (fieldIndex tokenIndex : Int) :
    KeepsPlain (parseStepItem item type fieldIndex tokenIndex) := by
  unfold parseStepItem
  split
  · exact keepsPlain_reported (by decide) argsAscii_nil _ _ _
  · split
    · split
      · exact keepsPlain_reported (by decide) argsAscii_nil _ _ _
      · split
        · exact keepsPlain_reported (by decide) argsAscii_nil _ _ _
        · split
          · exact keepsPlain_setFieldRange type _ _ _ _ _ _
          · split
            · exact keepsPlain_setFieldRange type _ _ _ _ _ _
            · split
              · split
                · exact keepsPlain_reported (by decide) (argsAscii_name type) _ _ _
                · exact keepsPlain_setFieldRange type _ _ _ _ _ _
              · exact keepsPlain_reported (by decide) (argsAscii_name type) _ _ _
    · exact keepsPlain_reported (by decide) argsAscii_nil _ _ _

/-- An item without a step reports in ASCII on each of its ways out, too. -/
theorem keepsPlain_parseFieldItem (item : CString) (type : FieldType)
    (fieldIndex tokenIndex : Int) :
    KeepsPlain (parseFieldItem item type fieldIndex tokenIndex) := by
  unfold parseFieldItem
  split
  · exact keepsPlain_reported (by decide) (argsAscii_name type) _ _ _
  · split
    · split
      · exact keepsPlain_reported (by decide) argsAscii_nil _ _ _
      · exact (keepsPlain_fill fun s => { s with lastDom := true }).bind fun _ =>
          keepsPlain_pure true
    · split
      · refine (keepsPlain_setFieldRange type _ _ _ _ _ _).bind fun ok => ?_
        cases ok with
        | true => exact (keepsPlain_fill fun s => markStarField s type).bind fun _ =>
            keepsPlain_pure true
        | false => exact keepsPlain_pure false
      · split
        · exact keepsPlain_parseStepItem item type fieldIndex tokenIndex
        · split
          · split
            · exact keepsPlain_reported (by decide) (argsAscii_name type) _ _ _
            · exact keepsPlain_setFieldRange type _ _ _ _ _ _
          · split
            · exact keepsPlain_setFieldValue type _ _ _ _
            · exact keepsPlain_reported (by decide) (argsAscii_name type) _ _ _

theorem keepsPlain_parseItems (type : FieldType) (fieldIndex : Int) (items : List CString)
    (i : Int) : KeepsPlain (parseItems type fieldIndex items i) := by
  induction items generalizing i with
  | nil => exact keepsPlain_pure true
  | cons item items ih =>
    rw [parseItems]
    refine (keepsPlain_parseFieldItem item type fieldIndex i).bind fun ok => ?_
    split
    · exact ih (i + 1)
    · refine KeepsPlain.bind (fun _ hst => hst) fun st => ?_
      -- an item that failed without a message gets one here
      split
      · exact (keepsPlain_reportError (by decide) (argsAscii_name type) _ _ _).bind fun _ =>
          keepsPlain_pure false
      · exact keepsPlain_pure false

/-- A field is parsed item by item. -/
theorem keepsPlain_parseCronField (field : CString) (type : FieldType) (fieldIndex : Int) :
    KeepsPlain (parseCronField field type fieldIndex) := by
  unfold parseCronField
  split
  · exact keepsPlain_reported (by decide) argsAscii_nil _ _ _
  · split
    · exact keepsPlain_reported (by decide) (argsAscii_name type) _ _ _
    · exact keepsPlain_parseItems type fieldIndex _ 1

/-- One field more. -/
theorem KeepsPlain.andThen {x y : Parse Bool} (hx : KeepsPlain x) (hy : KeepsPlain y) :
    KeepsPlain (do
      if !(← x) then return false
      y) := by
  refine hx.bind fun ok => ?_
  cases ok with
  | true => exact hy
  | false => exact keepsPlain_pure false

theorem keepsPlain_parseCronFields (minute hour dom month dow : CString) :
    KeepsPlain (parseCronFields minute hour dom month dow) :=
  (keepsPlain_parseCronField minute .minute 1).andThen <|
    (keepsPlain_parseCronField hour .hour 2).andThen <|
      (keepsPlain_parseCronField dom .dom 3).andThen <|
        (keepsPlain_parseCronField month .m 4).andThen (keepsPlain_parseCronField dow .dow 5)

/-- The seconds form has but one message. -/
theorem plain_parseSeconds (count : CString) {error : Option CronParseError}
    (h : RecordsPlain error) : RecordsPlain (parseSeconds count error).2 := by
  have hrejected : RecordsPlain (setParseError error 1 1 (some count)
      (ascii "seconds interval must be 1-59") []) :=
    recordsPlain_setParseError (by decide) argsAscii_nil _ _ _ _
  unfold parseSeconds
  dsimp only
  split
  · exact hrejected
  · split
    · exact hrejected
    · exact h

/-- **The messages of the parser are ASCII.** -/
theorem plain_parseWithError (s : CString) (error : Option CronParseError) :
    RecordsPlain (parseWithError s error).2 := by
  -- each message of its own is ASCII; the others come from the seconds or the fields
  have hcleared : RecordsPlain (clearParseError error) := by
    intro e he
    obtain ⟨old, -, rfl⟩ := Option.mem_map.mp he
    decide
  have hempty : RecordsPlain (setParseError (clearParseError error) 0 0 none
      (ascii "schedule is empty") []) :=
    recordsPlain_setParseError (by decide) argsAscii_nil _ _ _ _
  have hcount : RecordsPlain (setParseError (clearParseError error) 0 0 none
      (ascii "expected 5 cron fields or \"N seconds\"") []) :=
    recordsPlain_setParseError (by decide) argsAscii_nil _ _ _ _
  unfold parseWithError
  dsimp only
  split
  · exact hempty
  · split
    · rename_i count unit _
      split
      · exact plain_parseSeconds count hcleared
      · exact hcount
    · rename_i minute hour dom month dow _
      have hfields := keepsPlain_parseCronFields minute hour dom month dow
        ⟨CronSchedule.zero, clearParseError error⟩ hcleared
      split
      · rename_i st hrun
        rw [hrun] at hfields
        exact hfields
      · rename_i st hrun
        rw [hrun] at hfields
        exact hfields
    · exact hcount

/-! ### Texts that are cut -/

/-- The text that is kept for the task, if there is one, is UTF-8. -/
def CronTask.ErrorValid (task : CronTask) : Prop :=
  ∀ message ∈ task.errorMessage, Utf8.Valid message

/-- The texts of the error record are UTF-8. -/
def CronParseError.Valid (e : CronParseError) : Prop :=
  Utf8.Valid e.token ∧ Utf8.Valid e.message

/-- A stored message is valid if its text comes out valid. -/
theorem errorValid_setTaskError (leftover : CString) (task : CronTask) (text : CString) :
    (setTaskError leftover task text []).ErrorValid ↔ Utf8.Valid (storedText leftover text) := by
  refine ⟨fun h => h _ rfl, fun h message hmessage => ?_⟩
  obtain rfl : storedText leftover text = message := Option.some.inj hmessage
  exact h

/-- **The record of a rejected schedule text** stays valid just when the cut is not in a character
    of the token at fault. -/
theorem record_valid_iff {s : CString} (h : Utf8.Valid s) (error : CronParseError)
    (hrejected : (parseWithError s (some error)).1 = none) :
    ∃ e, (parseWithError s (some error)).2 = some e ∧
      (e.Valid ↔ Utf8.Boundary 63 (tokenAtFault s)) := by
  rcases settled_parseWithError s (some error) with ⟨-, haccepted, -⟩ |
    ⟨-, -, message, fieldIndex, tokenIndex, token, -, hplace, hrecord⟩
  · rw [hrejected] at haccepted
    cases haccepted
  · have hmessage : Utf8.Ascii message := plain_parseWithError s (some error) _ hrecord
    refine ⟨⟨message, token, fieldIndex, tokenIndex⟩, hrecord, ?_⟩
    rw [CronParseError.Valid, and_iff_left hmessage.valid, hplace.token_eq,
      Utf8.valid_take_iff (valid_tokenAtFault h)]

/-- **Truncated error texts.**  For a text that is UTF-8: as an error of libpq it is stored as
    UTF-8 exactly if it is empty, or its `%` come in pairs and byte 1023 of what it formats to does
    not fall inside a character; as what a format of the worker gives, exactly if its own byte 1023
    does not; and as a rejected schedule text it leaves UTF-8 in the error record exactly if byte 63
    of its token at fault does not. -/
theorem errorTexts_valid_iff (text : CString) (h : Utf8.Valid text) :
    ((∀ leftover task, (setTaskError leftover task text []).ErrorValid) ↔
      text = [] ∨ percentPaired text = true ∧ Utf8.Boundary 1023 (collapsePairs text)) ∧
    (∀ fmt args, fmt ≠ [] → formatArgs fmt args = some text → ∀ leftover task,
      (setTaskError leftover task fmt args).ErrorValid ↔ Utf8.Boundary 1023 text) ∧
    ∀ error, (parseWithError text (some error)).1 = none →
      ∃ e, (parseWithError text (some error)).2 = some e ∧
        (e.Valid ↔ Utf8.Boundary 63 (tokenAtFault text)) := by
  refine ⟨?_, fun fmt args hne hformat leftover task => ?_, record_valid_iff h⟩
  · rw [← storedText_valid_iff h]
    constructor
    · intro hall leftover
      exact (errorValid_setTaskError leftover clearedEntry text).mp (hall leftover clearedEntry)
    · intro hall leftover task
      exact (errorValid_setTaskError leftover task text).mpr (hall leftover)
  · rw [← Utf8.valid_take_iff h, CronTask.ErrorValid, setTaskError_formatted hne hformat]
    constructor
    · intro hstored
      exact hstored _ rfl
    · intro htake message hmessage
      obtain rfl := Option.some.inj hmessage
      exact htake

/-- `n` letters `a` and an `é`, a character of two bytes. -/
def accented (n : Nat) : CString := List.replicate n 97 ++ [0xC3, 0xA9]

/-- A run of accented letters is valid. -/
theorem valid_accented (n : Nat) : Utf8.Valid (accented n) := by
  have hletters : Utf8.Ascii (List.replicate n 97) := fun b hb => by
    obtain rfl := List.eq_of_mem_replicate hb
    decide
  exact hletters.valid.append ⟨['é'], by decide⟩

/-- Five fields, the first of which is no value of a minute. -/
def accentedSchedule (n : Nat) : CString := accented n ++ ascii " * * * *"

theorem valid_accentedSchedule (n : Nat) : Utf8.Valid (accentedSchedule n) :=
  (valid_accented n).append (show Utf8.Ascii (ascii " * * * *") by decide).valid

/-- The theorem at a schedule text whose first field just fits into the token. -/
theorem errorTexts_valid_iff_short :
    (∀ leftover task, (setTaskError leftover task (accentedSchedule 61) []).ErrorValid) ∧
    ∃ e, (parseWithError (accentedSchedule 61) (some ⟨[], [], 0, 0⟩)).2 = some e ∧ e.Valid := by
  obtain ⟨hstored, -, hrecord⟩ :=
    errorTexts_valid_iff (accentedSchedule 61) (valid_accentedSchedule 61)
  refine ⟨hstored.mpr (Or.inr ⟨by decide +kernel, by decide +kernel⟩), ?_⟩
  obtain ⟨e, he, hiff⟩ := hrecord ⟨[], [], 0, 0⟩ (by decide +kernel)
  exact ⟨e, he, hiff.mpr (by decide +kernel)⟩

/-- An `é` across the end of either buffer is cut in two. -/
theorem not_errorTexts_valid :
    (¬∀ text, Utf8.Valid text → ∀ leftover task,
      (setTaskError leftover task text []).ErrorValid) ∧
    ¬∀ s, Utf8.Valid s → ∀ error, (parseWithError s (some error)).1 = none →
      ∀ e ∈ (parseWithError s (some error)).2, e.Valid := by
  constructor
  · intro hall
    have hstored := (storedText_valid_iff (valid_accented 1022)).mp fun leftover =>
      (errorValid_setTaskError leftover clearedEntry _).mp
        (hall _ (valid_accented 1022) leftover clearedEntry)
    exact absurd hstored (by decide +kernel)
  · intro hall
    have hrejected : (parseWithError (accentedSchedule 62) (some ⟨[], [], 0, 0⟩)).1 = none := by
      decide +kernel
    obtain ⟨e, he, hiff⟩ := record_valid_iff (valid_accentedSchedule 62) _ hrejected
    have hboundary := hiff.mp (hall _ (valid_accentedSchedule 62) _ hrejected e he)
    exact absurd hboundary (by decide +kernel)

end NedoCron

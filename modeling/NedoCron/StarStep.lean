import NedoCron.ParserComplete
import NedoCron.Firing

namespace NedoCron

/-!
# nedo_cron — `*` and `*/1`

Both spellings select every value of a field, but only the bare star raises the star flag of
the field, and the flags decide how the two day fields are combined and whether a minute is
floating.

* `textValues` — the values of an item as a function of its text, so that what a field selects
  depends on its texts only (`FieldReading.selects_iff`);
* `StarItem` — a schedule text with one of its items `*` singled out;
* `parse_replaced` — what becomes of the schedule when that item is written `*/1`.
-/

/-! ### The values of a text -/

/-- The values of a range with a step. -/
def rangeValues (type : FieldType) (text : CString) (step : Int) : Set Int :=
  {v | ∃ a b, parseRange type text = some (a, b) ∧ v ∈ progression a b step}

/-- The values of an item, read off its text. -/
def textValues (type : FieldType) (text : CString) : Set Int :=
  if text = star then progression (getBounds type).1 (getBounds type).2 1
  else if text = lastDomToken then ∅
  else match strSplit text stepDelimiter with
    | [base, count] =>
      {v | ∃ n, parseInteger count = some n ∧
        v ∈ if base = star ∨ base = lastDomToken then
            progression (getBounds type).1 (getBounds type).2 n
          else rangeValues type base n}
    | _ =>
      if rangeOfNumbersDelimiter ∈ text then rangeValues type text 1
      else {v | parseFieldValue type text = some v}

/-- The values of a range. -/
theorem rangeValues_eq {type : FieldType} {text : CString} {a b : Int}
    (h : parseRange type text = some (a, b)) (step : Int) :
    rangeValues type text step = progression a b step := by
  ext v
  refine ⟨?_, fun hv => ⟨a, b, h, hv⟩⟩
  rintro ⟨a', b', h', hv⟩
  rw [h, Option.some.injEq, Prod.mk.injEq] at h'
  obtain ⟨rfl, rfl⟩ := h'
  exact hv

/-- A text without a `/`, other than `*` and `$`. -/
theorem textValues_plain {type : FieldType} {text : CString} (hstar : text ≠ star)
    (hlast : text ≠ lastDomToken) (hstep : stepDelimiter ∉ text) :
    textValues type text = if rangeOfNumbersDelimiter ∈ text then rangeValues type text 1
      else {v | parseFieldValue type text = some v} := by
  have hsplit : strSplit text stepDelimiter = [text] := by
    have h : strSplit ([stepDelimiter].intercalate [text]) stepDelimiter = [text] :=
      strSplit_intercalate (by simp) (by simpa using hstep)
    simpa [List.intercalate] using h
  rw [textValues, if_neg hstar, if_neg hlast, hsplit]

/-- A text with one `/`. -/
theorem textValues_step {type : FieldType} {base count : CString} {n : Int}
    (hbase : stepDelimiter ∉ base) (hcount : IsInteger count n) :
    textValues type (base ++ stepDelimiter :: count) =
      if base = star ∨ base = lastDomToken then
        progression (getBounds type).1 (getBounds type).2 n
      else rangeValues type base n := by
  have hvalue : WritesValue type count n := Or.inl hcount
  have hslash : stepDelimiter ∉ count := fun h => hvalue.bytes h (by decide)
  have hne : ∀ t : CString, stepDelimiter ∉ t → base ++ stepDelimiter :: count ≠ t := by
    rintro t ht rfl
    exact ht (by simp)
  rw [textValues, if_neg (hne star (by decide)), if_neg (hne lastDomToken (by decide)),
    strSplit_two hbase hslash]
  ext v
  refine ⟨?_, fun hv => ⟨n, parseInteger_eq_some.mpr hcount, hv⟩⟩
  rintro ⟨m, hm, hv⟩
  rw [parseInteger_eq_some.mpr hcount, Option.some.injEq] at hm
  rw [← hm] at hv
  exact hv

/-- **The values of an item** are those of its text. -/
theorem values_of_writes {type : FieldType} {text : CString} {item : Item}
    (h : Writes type text item) : item.values type = textValues type text := by
  -- a value has neither of the delimiters, so the parser cannot take one item for another
  have hslash : ∀ {x y : CString} {v : Int}, WritesValue type x v → stepDelimiter ∉ y →
      stepDelimiter ∉ x ++ rangeOfNumbersDelimiter :: y := by
    intro x y v hx hy hmem
    rcases List.mem_append.mp hmem with hmem | hmem
    · exact hx.bytes hmem (by decide)
    · rcases List.mem_cons.mp hmem with heq | hmem
      · exact absurd heq (by decide)
      · exact hy hmem
  have hhyphen : ∀ {x y t : CString}, rangeOfNumbersDelimiter ∉ t →
      x ++ rangeOfNumbersDelimiter :: y ≠ t := by
    rintro x y t ht rfl
    exact ht (by simp)
  cases item with
  -- one case for each kind of item
  | star =>
    obtain rfl : text = star := h
    rw [textValues, if_pos rfl]
    rfl
  | lastDom =>
    obtain ⟨rfl, rfl⟩ := h
    rfl
  | value a =>
    have hx : WritesValue type text a := h
    have hne : ∀ c ∈ delimiters, text ≠ [c] := by
      rintro c hc rfl
      exact hx.bytes List.mem_cons_self hc
    rw [textValues_plain (hne 42 (by decide)) (hne 36 (by decide))
      fun hmem => hx.bytes hmem (by decide), if_neg fun hmem => hx.bytes hmem (by decide),
      parseFieldValue_complete hx]
    ext v
    show v = a ↔ some a = some v
    rw [Option.some.injEq, eq_comm]
  | range a b =>
    obtain ⟨-, x, y, rfl, hx, hy⟩ := h
    rw [textValues_plain (hhyphen (by decide)) (hhyphen (by decide))
      (hslash hx fun hmem => hy.bytes hmem (by decide)), if_pos (by simp),
      rangeValues_eq (parseRange_complete hx hy)]
    rfl
  | toLast a =>
    obtain ⟨rfl, -, x, rfl, hx⟩ := h
    rw [textValues_plain (hhyphen (by decide)) (hhyphen (by decide)) (hslash hx (by decide)),
      if_pos (by simp), rangeValues_eq (parseRange_toLast hx)]
    rfl
  | starStep n =>
    obtain ⟨-, z, rfl, hz⟩ := h
    rw [textValues_step (by decide) hz, if_pos (Or.inl rfl)]
    rfl
  | lastDomStep n =>
    obtain ⟨rfl, -, z, rfl, hz⟩ := h
    rw [textValues_step (by decide) hz, if_pos (Or.inr rfl)]
    rfl
  | rangeStep a b n =>
    obtain ⟨-, -, x, y, z, rfl, hx, hy, hz⟩ := h
    rw [textValues_step (hslash hx fun hmem => hy.bytes hmem (by decide)) hz,
      if_neg (by rintro (h | h) <;> exact hhyphen (by decide) h),
      rangeValues_eq (parseRange_complete hx hy)]
    rfl
  | toLastStep a n =>
    obtain ⟨rfl, -, -, x, z, rfl, hx, hz⟩ := h
    rw [textValues_step (hslash hx (by decide)) hz,
      if_neg (by rintro (h | h) <;> exact hhyphen (by decide) h),
      rangeValues_eq (parseRange_toLast hx)]
    rfl

/-- **What a field selects** depends on its texts only. -/
theorem FieldReading.selects_iff {type : FieldType} {field : CString}
    (r : FieldReading type field) (n : Nat) :
    r.selects n ↔ ∃ text ∈ strSplit field arrayOfNumbersDelimiter,
      ∃ v ∈ textValues type text, (n : Int) = foldValue type v := by
  rw [← r.texts_eq]
  -- text by text: the reading pairs each of them with its item
  have hall : ∀ {texts : List CString} {items : List Item},
      List.Forall₂ (Writes type) texts items →
      ((∃ item ∈ items, ∃ v ∈ item.values type, (n : Int) = foldValue type v) ↔
        ∃ text ∈ texts, ∃ v ∈ textValues type text, (n : Int) = foldValue type v) := by
    intro texts items h
    induction h with
    | nil => simp
    | cons hwrites _ ih =>
      simp only [List.exists_mem_cons_iff, ih, values_of_writes hwrites]
  exact hall r.written

/-! ### One star written with a step -/

/-- `*/1`. -/
def starOne : CString := ascii "*/1"

/-- A schedule text with one of its items `*` singled out. -/
structure StarItem where
  type : FieldType
  field : FieldType → CString
  before : List CString
  after : List CString
  items : field type = [arrayOfNumbersDelimiter].intercalate (before ++ star :: after)
  separate : ∀ t, spaceDelimiter ∉ field t
  apart : ∀ text ∈ before ++ after, arrayOfNumbersDelimiter ∉ text

/-- The schedule text. -/
def StarItem.text (o : StarItem) : CString := [spaceDelimiter].intercalate (fieldTypes.map o.field)

/-- A field after the item has been written `*/1`. -/
def StarItem.replacedField (o : StarItem) (t : FieldType) : CString :=
  if t = o.type then [arrayOfNumbersDelimiter].intercalate (o.before ++ starOne :: o.after)
  else o.field t

/-- The schedule text with the item written `*/1`. -/
def StarItem.replaced (o : StarItem) : CString :=
  [spaceDelimiter].intercalate (fieldTypes.map o.replacedField)

/-- The field has another bare star. -/
def StarItem.keepsStar (o : StarItem) : Bool := decide (star ∈ o.before ++ o.after)

/-- The items of a field, with any text in the place of the star. -/
theorem StarItem.split_items (o : StarItem) {text : CString}
    (htext : arrayOfNumbersDelimiter ∉ text) :
    strSplit ([arrayOfNumbersDelimiter].intercalate (o.before ++ text :: o.after))
      arrayOfNumbersDelimiter = o.before ++ text :: o.after := by
  refine strSplit_intercalate (by simp) fun t ht => ?_
  rcases List.mem_append.mp ht with ht | ht
  · exact o.apart t (List.mem_append.mpr (Or.inl ht))
  · rcases List.mem_cons.mp ht with rfl | ht
    · exact htext
    · exact o.apart t (List.mem_append.mpr (Or.inr ht))

/-- The texts of a field, before and after. -/
theorem StarItem.split_field (o : StarItem) :
    strSplit (o.field o.type) arrayOfNumbersDelimiter = o.before ++ star :: o.after := by
  rw [o.items]
  exact o.split_items (by decide)

/-- The items of the field with `*/1`. -/
theorem StarItem.split_replacedField (o : StarItem) :
    strSplit (o.replacedField o.type) arrayOfNumbersDelimiter =
      o.before ++ starOne :: o.after := by
  rw [StarItem.replacedField, if_pos rfl]
  exact o.split_items (by decide +kernel)

theorem StarItem.replacedField_ne (o : StarItem) {t : FieldType} (h : t ≠ o.type) :
    o.replacedField t = o.field t := if_neg h

/-- A byte other than the delimiter stands in one of the texts. -/
theorem mem_intercalate {c delim : UInt8} (hne : c ≠ delim) (texts : List CString) :
    c ∈ [delim].intercalate texts ↔ ∃ text ∈ texts, c ∈ text := by
  induction texts with
  | nil => simp
  | cons text texts ih =>
    cases texts with
    | nil => simp
    | cons next texts =>
      rw [List.intercalate_cons_cons, List.mem_append, List.mem_append, ih,
        List.exists_mem_cons_iff (a := text), List.mem_singleton, or_iff_left hne]

/-- The replaced text has the same fields. -/
theorem StarItem.separate_replaced (o : StarItem) (t : FieldType) :
    spaceDelimiter ∉ o.replacedField t := by
  by_cases ht : t = o.type
  · subst ht
    have hfield := o.separate o.type
    rw [o.items, mem_intercalate (by decide)] at hfield
    rw [StarItem.replacedField, if_pos rfl, mem_intercalate (by decide)]
    rintro ⟨text, hmem, hspace⟩
    rcases List.mem_append.mp hmem with hmem | hmem
    · exact hfield ⟨text, List.mem_append.mpr (Or.inl hmem), hspace⟩
    · rcases List.mem_cons.mp hmem with rfl | hmem
      · exact absurd hspace (by decide +kernel)
      · exact hfield ⟨text, by simp [hmem], hspace⟩
  · rw [o.replacedField_ne ht]
    exact o.separate t

/-- The fields of both texts. -/
theorem split_fields {field : FieldType → CString} (h : ∀ t, spaceDelimiter ∉ field t) :
    strSplit ([spaceDelimiter].intercalate (fieldTypes.map field)) spaceDelimiter =
      fieldTypes.map field := by
  refine strSplit_intercalate (by simp [fieldTypes]) fun text htext => ?_
  obtain ⟨t, -, rfl⟩ := List.mem_map.mp htext
  exact h t

/-! ### The schedule of the new text -/

/-- `*/1` is accepted in every field. -/
theorem acceptsItem_starOne (type : FieldType) : acceptsItem type starOne = true := by
  cases type <;> decide +kernel

/-- **The new text is accepted** with the old one. -/
theorem StarItem.accepted (o : StarItem) (h : acceptsText o.text = true) :
    acceptsText o.replaced = true := by
  -- acceptance is decided field by field, and only one field has changed
  have hfields : ∀ {field : FieldType → CString}, (∀ t, spaceDelimiter ∉ field t) →
      acceptsText ([spaceDelimiter].intercalate (fieldTypes.map field)) =
        fieldTypes.all fun t => acceptsField t (field t) := by
    intro field hseparate
    have hsplit := split_fields hseparate
    have hne : [spaceDelimiter].intercalate (fieldTypes.map field) ≠ [] := by
      intro hnil
      rw [hnil] at hsplit
      exact absurd (congrArg List.length hsplit) (by simp [strSplit, strSplitLoop, fieldTypes])
    rw [acceptsText, if_neg hne, hsplit]
    rfl
  rw [StarItem.text, hfields o.separate, List.all_eq_true] at h
  rw [StarItem.replaced, hfields o.separate_replaced, List.all_eq_true]
  intro t ht
  by_cases heq : t = o.type
  · subst heq
    have hold := h o.type ht
    rw [acceptsField, Bool.and_eq_true, Bool.not_eq_true', Bool.eq_false_iff, ne_eq,
      hasEmptyPart_iff, o.split_field, List.all_eq_true] at hold
    rw [acceptsField, Bool.and_eq_true, Bool.not_eq_true', Bool.eq_false_iff, ne_eq,
      hasEmptyPart_iff, o.split_replacedField, List.all_eq_true]
    refine ⟨fun hempty => hold.1 ?_, fun text hmem => ?_⟩
    · rcases List.mem_append.mp hempty with hempty | hempty
      · exact List.mem_append.mpr (Or.inl hempty)
      · rcases List.mem_cons.mp hempty with hempty | hempty
        · exact absurd hempty (by decide +kernel)
        · exact List.mem_append.mpr (Or.inr (List.mem_cons_of_mem _ hempty))
    · rcases List.mem_append.mp hmem with hmem | hmem
      · exact hold.2 text (List.mem_append.mpr (Or.inl hmem))
      · rcases List.mem_cons.mp hmem with rfl | hmem
        · exact acceptsItem_starOne o.type
        · exact hold.2 text (List.mem_append.mpr (Or.inr (List.mem_cons_of_mem _ hmem)))
  · rw [o.replacedField_ne heq]
    exact h t ht

/-- The schedule says what the texts of its fields say. -/
structure FieldsDenote (field : FieldType → CString) (schedule : CronSchedule) : Prop where
  bits : ∀ type n, schedule.bit type n = true ↔
    ∃ text ∈ strSplit (field type) arrayOfNumbersDelimiter,
      ∃ v ∈ textValues type text, (n : Int) = foldValue type v
  stars : ∀ type, type ≠ .m →
    (schedule.starFlag type = true ↔ star ∈ strSplit (field type) arrayOfNumbersDelimiter)
  lastDom : schedule.lastDom = true ↔
    lastDomToken ∈ strSplit (field .dom) arrayOfNumbersDelimiter
  seconds : schedule.seconds = false
  secondsInterval : schedule.secondsInterval = 0

/-- **Schedules** are functions of the texts of their fields. -/
theorem fieldsDenote {field : FieldType → CString} (hseparate : ∀ t, spaceDelimiter ∉ field t)
    {schedule : CronSchedule}
    (h : parse ([spaceDelimiter].intercalate (fieldTypes.map field)) = some schedule) :
    FieldsDenote field schedule := by
  obtain ⟨r, hr⟩ := parseWithError_five (split_fields hseparate) h
  -- any reading of the text has these very fields
  have hsame : fieldTypes.map r.text = fieldTypes.map field := by
    rw [← r.split_eq, split_fields hseparate]
  have htext : ∀ t, r.text t = field t := by
    simp only [fieldTypes, List.map_cons, List.map_nil, List.cons.injEq, and_true] at hsame
    obtain ⟨hminute, hhour, hdom, hmonth, hdow⟩ := hsame
    intro t
    cases t <;> assumption
  refine ⟨fun type n => ?_, fun type htype => ?_, ?_, hr.seconds, hr.secondsInterval⟩
  · rw [hr.bits, FieldReading.selects_iff, htext]
  · rw [hr.stars type htype, FieldReading.texts_eq, htext]
  · rw [hr.lastDom, FieldReading.texts_eq, htext]

/-! ### Bits and flags of a schedule -/

/-- The star flag of a field, set or taken away; the month field has none. -/
def CronSchedule.withStar (s : CronSchedule) (type : FieldType) (b : Bool) : CronSchedule :=
  match type with
  | .minute => { s with minStar := b }
  | .hour => { s with hourStar := b }
  | .dom => { s with domStar := b }
  | .m => s
  | .dow => { s with dowStar := b }

@[simp] theorem CronSchedule.bit_withStar (s : CronSchedule) (type : FieldType) (b : Bool)
    (t : FieldType) (n : Nat) : (s.withStar type b).bit t n = s.bit t n := by
  cases type <;> cases t <;> rfl

/-- The flag of a star, set; there is none for months. -/
theorem CronSchedule.starFlag_withStar (s : CronSchedule) (type : FieldType) (b : Bool)
    (t : FieldType) :
    (s.withStar type b).starFlag t = if t = type ∧ t ≠ .m then b else s.starFlag t := by
  cases type <;> cases t <;> rfl

@[simp] theorem CronSchedule.lastDom_withStar (s : CronSchedule) (type : FieldType) (b : Bool) :
    (s.withStar type b).lastDom = s.lastDom := by
  cases type <;> rfl

@[simp] theorem CronSchedule.seconds_withStar (s : CronSchedule) (type : FieldType) (b : Bool) :
    (s.withStar type b).seconds = s.seconds := by
  cases type <;> rfl

@[simp] theorem CronSchedule.secondsInterval_withStar (s : CronSchedule) (type : FieldType)
    (b : Bool) : (s.withStar type b).secondsInterval = s.secondsInterval := by
  cases type <;> rfl

/-- A schedule is its bits and its flags. -/
theorem CronSchedule.ext_bits {s s' : CronSchedule} (hbits : ∀ t n, s.bit t n = s'.bit t n)
    (hstars : ∀ t, s.starFlag t = s'.starFlag t) (hlast : s.lastDom = s'.lastDom)
    (hseconds : s.seconds = s'.seconds) (hinterval : s.secondsInterval = s'.secondsInterval) :
    s = s' := by
  -- bits beyond the size read as unset in both
  have hvector : ∀ {size : Nat} {u v : Vector Bool size},
      (∀ n : Nat, u[n]?.getD false = v[n]?.getD false) → u = v := by
    intro size u v h
    ext i hi
    simpa [hi] using h i
  have hminute := hvector (hbits .minute)
  have hhour := hvector (hbits .hour)
  have hdom := hvector (hbits .dom)
  have hmonth := hvector (hbits .m)
  have hdow := hvector (hbits .dow)
  have hminStar := hstars .minute
  have hhourStar := hstars .hour
  have hdomStar := hstars .dom
  have hdowStar := hstars .dow
  cases s
  cases s'
  simp only [CronSchedule.starFlag] at *
  subst hminute hhour hdom hmonth hdow hminStar hhourStar hdomStar hdowStar hlast hseconds
    hinterval
  rfl

/-- `*/1` selects what `*` selects. -/
theorem textValues_starOne (type : FieldType) : textValues type starOne = textValues type star := by
  have hone : starOne = star ++ stepDelimiter :: ascii "1" := by decide +kernel
  have hcount : IsInteger (ascii "1") 1 := parseInteger_eq_some.mp (by decide +kernel)
  rw [hone, textValues_step (by decide) hcount, if_pos (Or.inl rfl), textValues, if_pos rfl]

/-- **One star written with a step.**  The new text is accepted, and its schedule differs from
    the old one in the star flag of the field at most: the flag stays if the field has another
    bare star. -/
theorem StarItem.parse_replaced (o : StarItem) {schedule : CronSchedule}
    (h : parse o.text = some schedule) :
    parse o.replaced = some (schedule.withStar o.type o.keepsStar) := by
  have haccepted : acceptsText o.text = true := by
    rw [← isSome_parseWithError o.text none]
    exact Option.isSome_iff_exists.mpr ⟨schedule, h⟩
  obtain ⟨schedule', h'⟩ := Option.isSome_iff_exists.mp
    ((isSome_parseWithError o.replaced none).trans (o.accepted haccepted))
  have hparse : parse o.replaced = some schedule' := h'
  rw [hparse, Option.some.injEq]
  have hold := fieldsDenote o.separate h
  have hnew := fieldsDenote o.separate_replaced hparse
  -- the texts of the other fields are the same, and those of the field but for one
  have hlast : lastDomToken ∈ strSplit (o.replacedField .dom) arrayOfNumbersDelimiter ↔
      lastDomToken ∈ strSplit (o.field .dom) arrayOfNumbersDelimiter := by
    by_cases heq : FieldType.dom = o.type
    · have hne : lastDomToken ≠ starOne := by decide +kernel
      have hne' : lastDomToken ≠ star := by decide
      rw [heq, o.split_replacedField, o.split_field]
      simp only [List.mem_append, List.mem_cons, hne, hne', false_or]
    · rw [o.replacedField_ne heq]
  refine CronSchedule.ext_bits (fun t n => ?_) (fun t => ?_) ?_ ?_ ?_
  · rw [CronSchedule.bit_withStar, Bool.eq_iff_iff, hnew.bits, hold.bits]
    by_cases heq : t = o.type
    · subst heq
      rw [o.split_replacedField, o.split_field]
      simp only [List.mem_append, List.mem_cons, or_and_right, exists_or, exists_eq_left,
        textValues_starOne]
    · rw [o.replacedField_ne heq]
  · rw [CronSchedule.starFlag_withStar]
    by_cases hmonth : t = .m
    · rw [if_neg fun hand => hand.2 hmonth, hmonth]
      rfl
    · rw [Bool.eq_iff_iff, hnew.stars t hmonth]
      by_cases heq : t = o.type
      · subst heq
        have hne : star ≠ starOne := by decide +kernel
        rw [if_pos ⟨rfl, hmonth⟩, o.split_replacedField, StarItem.keepsStar, decide_eq_true_eq]
        simp only [List.mem_append, List.mem_cons, hne, false_or]
      · rw [if_neg fun hand => heq hand.1, o.replacedField_ne heq, hold.stars t hmonth]
  · rw [CronSchedule.lastDom_withStar, Bool.eq_iff_iff, hnew.lastDom, hold.lastDom, hlast]
  · rw [CronSchedule.seconds_withStar, hnew.seconds, hold.seconds]
  · rw [CronSchedule.secondsInterval_withStar, hnew.secondsInterval, hold.secondsInterval]

/-! ### Firing -/

/-- Both day fields have to match. -/
def CronSchedule.bothDays (s : CronSchedule) : Bool := s.domStar || s.dowStar

/-- The day matches the day field other than the given one. -/
def otherDayMatches (schedule : CronSchedule) (type : FieldType) (date : Calendar.Date) : Bool :=
  if type = .dom then schedule.bit .dow date.weekday
  else schedule.bit .dom date.day ||
    (schedule.lastDom && isLastDayOfMonth date.day date.month date.year)

/-- A field with a bare star selects every value within its bounds. -/
theorem bit_of_star {field : FieldType → CString} {schedule : CronSchedule}
    (hdenote : FieldsDenote field schedule) {type : FieldType}
    (hstar : star ∈ strSplit (field type) arrayOfNumbersDelimiter) {n : Nat}
    (hlow : (getBounds type).1 ≤ n) (hhigh : (n : Int) ≤ (getBounds type).2)
    (hfold : foldValue type n = n) : schedule.bit type n = true := by
  rw [hdenote.bits]
  refine ⟨star, hstar, n, ?_, hfold.symm⟩
  rw [textValues, if_pos rfl]
  exact ⟨(n - (getBounds type).1).toNat, by omega, hhigh⟩

/-- When a day field loses its star and the other one has none, a day that matched both fields
    still has to match the other one only. -/
theorem bitsMatch_withStar {field : FieldType → CString} {schedule : CronSchedule}
    (hdenote : FieldsDenote field schedule) {type : FieldType} {b : Bool}
    (hstar : star ∈ strSplit (field type) arrayOfNumbersDelimiter)
    (hboth : (schedule.withStar type b).bothDays ≠ schedule.bothDays) (c : Calendar.DateTime) :
    bitsMatch schedule c =
      (bitsMatch (schedule.withStar type b) c && otherDayMatches schedule type c.date) := by
  have hday := c.date.day_pos
  have hdays : c.date.day ≤ 31 := le_trans c.date.day_le (Calendar.monthLength_le _ _)
  have hweekday : c.date.weekday < 7 := by
    unfold Calendar.Date.weekday
    omega
  cases type with
  | minute => exact absurd rfl hboth
  | hour => exact absurd rfl hboth
  | m => exact absurd rfl hboth
  | dom =>
    -- its own bit is set on every day, so the old AND left the other field
    have hflag : schedule.domStar = true := (hdenote.stars .dom (by decide)).mpr hstar
    have hbit : schedule.bit .dom c.date.day = true :=
      bit_of_star hdenote hstar (by simp [getBounds]; omega)
        (by simp [getBounds]; omega) rfl
    have hother : (schedule.withStar .dom b).bothDays = false := by
      simpa [CronSchedule.bothDays, hflag] using hboth
    have hnew :
        ((schedule.withStar .dom b).domStar || (schedule.withStar .dom b).dowStar) = false :=
      hother
    simp only [bitsMatch, CronSchedule.bit_withStar, CronSchedule.lastDom_withStar, hnew, hflag,
      hbit, otherDayMatches, Bool.true_or, Bool.true_and, if_true, Bool.false_eq_true, if_false,
      Bool.and_true]
  | dow =>
    have hflag : schedule.dowStar = true := (hdenote.stars .dow (by decide)).mpr hstar
    have hbit : schedule.bit .dow c.date.weekday = true :=
      bit_of_star hdenote hstar (by simp [getBounds]) (by simp [getBounds]; omega)
        (by rw [foldValue, if_neg (by omega)])
    have hother : (schedule.withStar .dow b).bothDays = false := by
      simpa [CronSchedule.bothDays, hflag] using hboth
    have hnew :
        ((schedule.withStar .dow b).domStar || (schedule.withStar .dow b).dowStar) = false :=
      hother
    have hne : (FieldType.dow = .dom) = False := by simp
    simp only [bitsMatch, CronSchedule.bit_withStar, CronSchedule.lastDom_withStar, hnew, hflag,
      hbit, otherDayMatches, Bool.or_true, Bool.and_true, if_true, Bool.false_eq_true, if_false,
      hne]

/-- **Step 1 and the star flags.**  Writing `*/1` for `*` keeps the text accepted and changes
    nothing but the star flag of the field, which is lost if the field has no other bare star.
    While floating minutes stay floating and the day fields are combined as before, the
    schedules fire alike; otherwise the two flags change places, or the old schedule fires at
    those times of the new one whose day matches the other day field. -/
theorem shouldRunTask_replaced (o : StarItem) (schedule : CronSchedule)
    (h : parse o.text = some schedule) :
    ∃ schedule', parse o.replaced = some schedule' ∧
      schedule' = schedule.withStar o.type o.keepsStar ∧
      ∀ t floating fixed,
        (schedule'.isFloating = schedule.isFloating → schedule'.bothDays = schedule.bothDays →
          shouldRunTask schedule' t floating fixed = shouldRunTask schedule t floating fixed) ∧
        (schedule'.isFloating ≠ schedule.isFloating →
          shouldRunTask schedule' t floating fixed = shouldRunTask schedule t fixed floating) ∧
        (schedule'.bothDays ≠ schedule.bothDays →
          shouldRunTask schedule t floating fixed = (shouldRunTask schedule' t floating fixed &&
            otherDayMatches schedule o.type (Calendar.ofUnix (timestamptzToTimeT t)).date)) := by
  have hdenote := fieldsDenote o.separate h
  have hstar : star ∈ strSplit (o.field o.type) arrayOfNumbersDelimiter := by
    rw [o.split_field]
    simp
  refine ⟨_, o.parse_replaced h, rfl, fun t floating fixed => ?_⟩
  have hc := Calendar.toUnix_ofUnix (timestamptzToTimeT t)
  generalize Calendar.ofUnix (timestamptzToTimeT t) = c at hc
  have hseconds' : (schedule.withStar o.type o.keepsStar).seconds = false := by
    rw [CronSchedule.seconds_withStar, hdenote.seconds]
  rw [shouldRunTask_eq hdenote.seconds hc, shouldRunTask_eq hseconds' hc,
    shouldRunTask_eq hdenote.seconds hc]
  -- both schedules read the same bits, and combine the day fields in one of two ways
  have hbits : (schedule.withStar o.type o.keepsStar).bothDays = schedule.bothDays →
      bitsMatch (schedule.withStar o.type o.keepsStar) c = bitsMatch schedule c := by
    intro hboth
    simp only [bitsMatch, CronSchedule.bit_withStar, CronSchedule.lastDom_withStar]
    rw [← CronSchedule.bothDays, ← CronSchedule.bothDays, hboth]
  refine ⟨fun hfloating hboth => by rw [hbits hboth, hfloating], fun hfloating => ?_,
    fun hboth => ?_⟩
  · have hboth : (schedule.withStar o.type o.keepsStar).bothDays = schedule.bothDays := by
      revert hfloating
      cases o.type <;> simp [CronSchedule.withStar, CronSchedule.isFloating, CronSchedule.bothDays]
    rw [hbits hboth]
    revert hfloating
    cases (schedule.withStar o.type o.keepsStar).isFloating <;> cases schedule.isFloating <;>
      simp
  · have hfloating : (schedule.withStar o.type o.keepsStar).isFloating = schedule.isFloating := by
      revert hboth
      cases o.type <;> simp [CronSchedule.withStar, CronSchedule.isFloating, CronSchedule.bothDays]
    have hmatch : bitsMatch schedule c = (bitsMatch (schedule.withStar o.type o.keepsStar) c &&
        otherDayMatches schedule o.type c.date) :=
      bitsMatch_withStar hdenote hstar hboth c
    rw [hfloating, hmatch, Bool.and_assoc, Bool.and_assoc, Bool.and_comm (otherDayMatches _ _ _)]

/-- `0 0 * * 1` with the star of its day-of-month field. -/
def mondays : StarItem where
  type := .dom
  field
    | .minute => ascii "0"
    | .hour => ascii "0"
    | .dom => star
    | .m => star
    | .dow => ascii "1"
  before := []
  after := []
  items := by decide
  separate t := by cases t <;> decide +kernel
  apart := by simp

example : mondays.text = ascii "0 0 * * 1" ∧ mondays.replaced = ascii "0 0 */1 * 1" := by
  decide +kernel

/-- The theorem at a job of every Monday. -/
theorem shouldRunTask_replaced_mondays :
    ∃ schedule schedule', parse mondays.text = some schedule ∧
      parse mondays.replaced = some schedule' ∧
      ∀ t floating fixed, schedule'.bothDays ≠ schedule.bothDays →
        shouldRunTask schedule t floating fixed = (shouldRunTask schedule' t floating fixed &&
          otherDayMatches schedule .dom (Calendar.ofUnix (timestamptzToTimeT t)).date) := by
  have haccepted : (parse mondays.text).isSome = true := by decide +kernel
  have hparse := (Option.some_get haccepted).symm
  obtain ⟨schedule', hparse', -, hfires⟩ := shouldRunTask_replaced mondays _ hparse
  exact ⟨_, schedule', hparse, hparse', fun t floating fixed => (hfires t floating fixed).2.2⟩

/-- On Saturday, 1 January 2000, `0 0 * * 1` does not fire and `0 0 */1 * 1` does. -/
theorem not_shouldRunTask_replaced_eq :
    ¬∀ (o : StarItem) (schedule : CronSchedule), parse o.text = some schedule →
      ∃ schedule', parse o.replaced = some schedule' ∧ ∀ t floating fixed,
        shouldRunTask schedule t floating fixed = shouldRunTask schedule' t floating fixed := by
  intro hall
  have haccepted : (parse mondays.text).isSome = true := by decide +kernel
  obtain ⟨schedule, hparse⟩ := Option.isSome_iff_exists.mp haccepted
  obtain ⟨schedule', hparse', hsame⟩ := hall mondays schedule hparse
  have hold : (parse mondays.text).any (fun s => shouldRunTask s 0 true true) = false := by
    decide +kernel
  have hnew : (parse mondays.replaced).any (fun s => shouldRunTask s 0 true true) = true := by
    decide +kernel
  rw [hparse, Option.any_some] at hold
  rw [hparse', Option.any_some, ← hsame, hold] at hnew
  exact absurd hnew (by simp)

end NedoCron

import NedoCron.ParserComplete

namespace NedoCron

/-!
# nedo_cron — bounds and steps of a schedule text

The filling loop checks the values it visits, not the ends of a range, and adds the step to the
last of them before it stops.  So a step that leaps over the upper bound hides an end that lies
beyond it, and a step near `INT_MAX` makes a proper range fail.

* `accepted_inBounds_iff` — accepted texts whose written numbers lie within the bounds;
* `accepted_iff_noOverflow` — accepted texts among those whose numbers lie within the bounds.
-/

/-! ### What an item writes -/

/-- The numbers and names written as a single value or as an end of a range. -/
def Item.written : Item → List Int
  | .value a => [a]
  | .range a b => [a, b]
  | .toLast a => [a]
  | .rangeStep a b _ => [a, b]
  | .toLastStep a _ => [a]
  | _ => []

/-- Start, end and step of the values of an item, unless it is a single value or `$`. -/
def Item.span (type : FieldType) : Item → Option (Int × Int × Int)
  | .star => some ((getBounds type).1, (getBounds type).2, 1)
  | .lastDom => none
  | .value _ => none
  | .range a b => some (a, b, 1)
  | .toLast a => some (a, maxDaysInMonth, 1)
  | .starStep n => some ((getBounds type).1, (getBounds type).2, n)
  | .lastDomStep n => some ((getBounds type).1, (getBounds type).2, n)
  | .rangeStep a b n => some (a, b, n)
  | .toLastStep a n => some (a, maxDaysInMonth, n)

/-- Every number or name in the text lies within the bounds of its field. -/
def Reading.InBounds {s : CString} (r : Reading s) : Prop :=
  ∀ type, ∀ item ∈ (r.field type).items, ∀ v ∈ item.written, inBounds type v = true

/-- No range with a step ends beyond the upper bound of its field. -/
def Reading.NoOverrun {s : CString} (r : Reading s) : Prop :=
  ∀ type a b n, Item.rangeStep a b n ∈ (r.field type).items → b ≤ (getBounds type).2

/-- No step overflows when it is added to the last value of its item. -/
def Reading.NoOverflow {s : CString} (r : Reading s) : Prop :=
  ∀ type, ∀ item ∈ (r.field type).items, ∀ a b n, item.span type = some (a, b, n) →
    lastValue a b n + n ≤ intMax

/-- An item of a field has a text. -/
theorem FieldReading.text_of_mem {type : FieldType} {field : CString} (r : FieldReading type field)
    {item : Item} (h : item ∈ r.items) : ∃ text, Writes type text item := by
  have hmem : ∀ {texts : List CString} {items : List Item},
      List.Forall₂ (Writes type) texts items → item ∈ items → ∃ text, Writes type text item := by
    intro texts items hall
    induction hall with
    | nil => exact fun h => absurd h (by simp)
    | cons hwrites _ ih =>
      intro h
      rcases List.mem_cons.mp h with rfl | h
      · exact ⟨_, hwrites⟩
      · exact ih h
  exact hmem r.written h

/-! ### Texts of stars -/

/-- A text in one field, and `*` in the others. -/
def starsBut (type : FieldType) (text : CString) (t : FieldType) : CString :=
  if t = type then text else star

/-- The schedule text with one field that is not `*`. -/
def starsText (type : FieldType) (text : CString) : CString :=
  [spaceDelimiter].intercalate (fieldTypes.map (starsBut type text))

example : starsText .minute (ascii "0-61/59") = ascii "0-61/59 * * * *" := by decide +kernel

/-- A field of one item. -/
def FieldReading.single {type : FieldType} {text : CString} (item : Item)
    (hwrites : Writes type text item) (hne : text ≠ []) (hcomma : arrayOfNumbersDelimiter ∉ text) :
    FieldReading type text where
  texts := [text]
  items := [item]
  joined := by simp [List.intercalate]
  separate t ht := by rw [List.mem_singleton.mp ht]; exact ⟨hne, hcomma⟩
  nonempty := by simp
  written := List.Forall₂.cons hwrites List.Forall₂.nil

/-- A reading of such a text. -/
def starsReading (type : FieldType) (text : CString) (item : Item)
    (hwrites : Writes type text item) (hne : text ≠ [])
    (hbytes : arrayOfNumbersDelimiter ∉ text ∧ spaceDelimiter ∉ text) :
    Reading (starsText type text) where
  text := starsBut type text
  joined := rfl
  separate t := by
    unfold starsBut
    split
    · exact hbytes.2
    · decide
  field t :=
    if h : t = type then
      FieldReading.single item (by rw [starsBut, if_pos h, h]; exact hwrites)
        (by rw [starsBut, if_pos h]; exact hne) (by rw [starsBut, if_pos h]; exact hbytes.1)
    else
      FieldReading.single .star (by rw [starsBut, if_neg h]; rfl)
        (by rw [starsBut, if_neg h]; decide) (by rw [starsBut, if_neg h]; decide)

/-- The items of a text in which one field says something. -/
theorem items_starsReading {type : FieldType} {text : CString} {item : Item}
    (hwrites : Writes type text item) (hne : text ≠ [])
    (hbytes : arrayOfNumbersDelimiter ∉ text ∧ spaceDelimiter ∉ text) (t : FieldType) :
    ((starsReading type text item hwrites hne hbytes).field t).items =
      [if t = type then item else .star] := by
  show (dite (t = type) _ _ : FieldReading t (starsBut type text t)).items = _
  split <;> rfl

/-! ### Numbers beyond the bounds -/

/-- A range without a step is visited up to its end. -/
theorem lastValue_one (a b : Int) : lastValue a b 1 = b := by
  unfold lastValue
  rw [Int.ediv_one]
  omega

/-- What is written in an item that fits lies within the bounds, but for the end of a range
    with a step. -/
theorem written_inBounds {type : FieldType} {text : CString} {item : Item}
    (hwrites : Writes type text item) (hfits : item.fits type = true)
    (hend : ∀ a b n, item = .rangeStep a b n → b ≤ (getBounds type).2) :
    ∀ v ∈ item.written, inBounds type v = true := by
  intro v hv
  rw [inBounds_eq_true]
  cases item with
  | star => exact absurd hv (by simp [Item.written])
  | lastDom => exact absurd hv (by simp [Item.written])
  | starStep n => exact absurd hv (by simp [Item.written])
  | lastDomStep n => exact absurd hv (by simp [Item.written])
  | value a =>
    obtain rfl : v = a := by simpa [Item.written] using hv
    exact inBounds_eq_true.mp hfits
  | range a b =>
    obtain ⟨-, hle, hlow, hlast, -⟩ := rangeFits_eq_true.mp hfits
    -- step 1 visits every value, the end included
    rw [lastValue_one] at hlast
    have hv' : v = a ∨ v = b := by simpa [Item.written] using hv
    omega
  | toLast a =>
    obtain ⟨rfl, hle, -⟩ := hwrites
    obtain ⟨-, -, hlow, -⟩ := rangeFits_eq_true.mp hfits
    obtain rfl : v = a := by simpa [Item.written] using hv
    exact ⟨hlow, hle⟩
  | rangeStep a b n =>
    obtain ⟨-, hle, hlow, -⟩ := rangeFits_eq_true.mp hfits
    -- the loop need not come to `b`, so its bound is not among what was checked
    have hhigh := hend a b n rfl
    have hv' : v = a ∨ v = b := by simpa [Item.written] using hv
    omega
  | toLastStep a n =>
    obtain ⟨rfl, -, hle, -⟩ := hwrites
    obtain ⟨-, -, hlow, -⟩ := rangeFits_eq_true.mp hfits
    obtain rfl : v = a := by simpa [Item.written] using hv
    exact ⟨hlow, hle⟩

/-- **Numbers within the bounds.**  That an accepted text has all its numbers within the bounds
    holds of exactly the texts in which, if all items fit, no range with a step ends beyond the
    upper bound. -/
theorem accepted_inBounds_iff (s : CString) (error : Option CronParseError) :
    ((parseWithError s error).1.isSome = true → ∀ r : Reading s, r.InBounds) ↔
      ∀ r : Reading s, r.Fits → r.NoOverrun := by
  constructor
  · intro h r hfits type a b n hitem
    have hbounds := h ((r.accepted_iff error).mpr hfits) r type _ hitem b (by simp [Item.written])
    exact (inBounds_eq_true.mp hbounds).2
  · intro h haccepted r type item hitem
    have hfits := (r.accepted_iff error).mp haccepted
    obtain ⟨text, hwrites⟩ := (r.field type).text_of_mem hitem
    apply written_inBounds hwrites (hfits type item hitem)
    rintro a b n rfl
    exact h r hfits type a b n hitem

/-- `0-61/59` in the minute field: the loop visits 0 and 59, and the schedule is accepted. -/
theorem not_accepted_inBounds :
    ¬∀ s error, (parseWithError s error).1.isSome = true → ∀ r : Reading s, r.InBounds := by
  intro hall
  have hwrites : Writes .minute (ascii "0-61/59") (.rangeStep 0 61 59) :=
    ⟨by decide, by decide, ascii "0", ascii "61", ascii "59", by decide +kernel,
      Or.inl (parseInteger_eq_some.mp (by decide +kernel)),
      Or.inl (parseInteger_eq_some.mp (by decide +kernel)),
      parseInteger_eq_some.mp (by decide +kernel)⟩
  have hin := hall (starsText .minute (ascii "0-61/59")) none (by decide +kernel)
    (starsReading .minute _ _ hwrites (by decide +kernel) (by decide +kernel)) .minute
    (.rangeStep 0 61 59) (by rw [items_starsReading]; exact List.mem_cons_self) 61 (by decide)
  exact absurd hin (by decide)

/-! ### Steps that overflow -/

/-- A range within the bounds fits exactly if its last addition does not overflow. -/
theorem rangeFits_iff {type : FieldType} {a b n : Int} (hpos : 0 < n) (hle : a ≤ b)
    (hlow : (getBounds type).1 ≤ a) (hhigh : b ≤ (getBounds type).2) :
    rangeFits type a b n = true ↔ lastValue a b n + n ≤ intMax := by
  have hlast : lastValue a b n ≤ b := (lastValue_le hpos).1
  rw [rangeFits_eq_true]
  exact ⟨fun h => h.2.2.2.2, fun h => ⟨hpos, hle, hlow, by omega, h⟩⟩

/-- The bounds of a field are in order. -/
theorem getBounds_ordered (type : FieldType) : (getBounds type).1 ≤ (getBounds type).2 := by
  cases type <;> decide

/-- An item within the bounds fits exactly if its step does not overflow. -/
theorem fits_iff_of_inBounds {type : FieldType} {text : CString} {item : Item}
    (hwrites : Writes type text item) (hbounds : ∀ v ∈ item.written, inBounds type v = true) :
    item.fits type = true ↔
      ∀ a b n, item.span type = some (a, b, n) → lastValue a b n + n ≤ intMax := by
  -- the span of an item is one triple, so the condition is about that one
  have hspan : ∀ {a b n : Int}, item.span type = some (a, b, n) →
      ((∀ a' b' n', item.span type = some (a', b', n') → lastValue a' b' n' + n' ≤ intMax) ↔
        lastValue a b n + n ≤ intMax) := by
    intro a b n hspan
    refine ⟨fun h => h a b n hspan, fun h a' b' n' hspan' => ?_⟩
    rw [hspan, Option.some.injEq, Prod.mk.injEq, Prod.mk.injEq] at hspan'
    obtain ⟨rfl, rfl, rfl⟩ := hspan'
    exact h
  have hordered := getBounds_ordered type
  cases item with
  | star =>
    rw [hspan rfl]
    have hsum : lastValue (getBounds type).1 (getBounds type).2 1 + 1 ≤ intMax := by
      cases type <;> decide
    exact ⟨fun _ => hsum, fun _ => rfl⟩
  -- `$` and single values take no step
  | lastDom => exact ⟨fun _ a b n h => absurd h (by simp [Item.span]), fun _ => rfl⟩
  | value a =>
    exact ⟨fun _ a b n h => absurd h (by simp [Item.span]),
      fun _ => hbounds a (by simp [Item.written])⟩
  | range a b =>
    have ha := inBounds_eq_true.mp (hbounds a (by simp [Item.written]))
    have hb := inBounds_eq_true.mp (hbounds b (by simp [Item.written]))
    rw [hspan rfl]
    exact rangeFits_iff (by decide) hwrites.1 ha.1 hb.2
  | toLast a =>
    obtain ⟨rfl, hle, -⟩ := hwrites
    have ha := inBounds_eq_true.mp (hbounds a (by simp [Item.written]))
    rw [hspan rfl]
    exact rangeFits_iff (by decide) hle ha.1 (le_refl _)
  | starStep n =>
    rw [hspan rfl]
    exact rangeFits_iff hwrites.1 hordered (le_refl _) (le_refl _)
  | lastDomStep n =>
    rw [hspan rfl]
    exact rangeFits_iff hwrites.2.1 hordered (le_refl _) (le_refl _)
  | rangeStep a b n =>
    have ha := inBounds_eq_true.mp (hbounds a (by simp [Item.written]))
    have hb := inBounds_eq_true.mp (hbounds b (by simp [Item.written]))
    rw [hspan rfl]
    exact rangeFits_iff hwrites.1 hwrites.2.1 ha.1 hb.2
  | toLastStep a n =>
    obtain ⟨rfl, hpos, hle, -⟩ := hwrites
    have ha := inBounds_eq_true.mp (hbounds a (by simp [Item.written]))
    rw [hspan rfl]
    exact rangeFits_iff hpos hle ha.1 (le_refl _)

/-- **Steps that do not overflow.**  Among the schedule texts whose numbers lie within the
    bounds, exactly those are accepted in which no step overflows; and `set_field_range` accepts
    exactly the ranges within the bounds whose step does not. -/
theorem accepted_iff_noOverflow {s : CString} (r : Reading s) (error : Option CronParseError) :
    (r.InBounds → ((parseWithError s error).1.isSome = true ↔ r.NoOverflow)) ∧
    ∀ type start finish step fieldIndex tokenIndex token st, (getBounds type).1 ≤ start →
      start ≤ finish → finish ≤ (getBounds type).2 → 0 < step → step ≤ intMax →
      (((setFieldRange type start finish step fieldIndex tokenIndex token).run st).1 = true ↔
        lastValue start finish step + step ≤ intMax) := by
  constructor
  · intro hbounds
    rw [r.accepted_iff]
    refine forall_congr' fun type => forall_congr' fun item => forall_congr' fun hitem => ?_
    obtain ⟨text, hwrites⟩ := (r.field type).text_of_mem hitem
    exact fits_iff_of_inBounds hwrites (hbounds type item hitem)
  · intro type start finish step fieldIndex tokenIndex token st hlow hle hhigh hpos hmax
    rw [(judges_setFieldRange type start finish hmax fieldIndex tokenIndex token).answer st]
    exact rangeFits_iff hpos hle hlow hhigh

/-- A step in the day-of-month field writes no number that could be out of bounds. -/
theorem inBounds_starsReading {text : CString} {n : Int}
    (hwrites : Writes .dom text (.starStep n)) (hne : text ≠ [])
    (hbytes : arrayOfNumbersDelimiter ∉ text ∧ spaceDelimiter ∉ text) :
    (starsReading .dom text (.starStep n) hwrites hne hbytes).InBounds := by
  intro t item hitem v hv
  rw [items_starsReading, List.mem_singleton] at hitem
  rw [hitem] at hv
  split at hv <;> exact absurd hv (by simp [Item.written])

/-- `*/2` is an item of the days of month. -/
theorem writes_domStep : Writes .dom (ascii "*/2") (.starStep 2) :=
  ⟨by decide, ascii "2", by decide +kernel, parseInteger_eq_some.mp (by decide +kernel)⟩

/-- The theorem at `* * */2 * *` and at the day-of-month range of its step. -/
theorem accepted_iff_noOverflow_domStep :
    ((parseWithError (starsText .dom (ascii "*/2")) none).1.isSome = true ↔
      (starsReading .dom (ascii "*/2") _ writes_domStep (by decide +kernel)
        (by decide +kernel)).NoOverflow) ∧
    (((setFieldRange .dom 1 31 2 3 1 (ascii "*/2")).run ⟨CronSchedule.zero, none⟩).1 = true ↔
      lastValue 1 31 2 + 2 ≤ intMax) :=
  have hboth := accepted_iff_noOverflow
    (starsReading .dom (ascii "*/2") _ writes_domStep (by decide +kernel) (by decide +kernel)) none
  ⟨hboth.1 (inBounds_starsReading _ _ _),
    hboth.2 .dom 1 31 2 3 1 (ascii "*/2") ⟨CronSchedule.zero, none⟩ (by decide) (by decide)
      (by decide) (by decide) (by decide)⟩

/-- A step of `INT_MAX` in the day-of-month field, whose first value is 1, is rejected. -/
theorem not_accepted_wellFormed :
    ¬∀ (s : CString) (r : Reading s) (error : Option CronParseError), r.InBounds →
      (parseWithError s error).1.isSome = true := by
  intro hall
  have hwrites : Writes .dom (ascii "*/2147483647") (.starStep 2147483647) :=
    ⟨by decide, ascii "2147483647", by decide +kernel,
      parseInteger_eq_some.mp (by decide +kernel)⟩
  have haccepted := hall _ (starsReading .dom _ _ hwrites (by decide +kernel) (by decide +kernel))
    none (inBounds_starsReading _ _ _)
  exact absurd haccepted (by decide +kernel)

end NedoCron

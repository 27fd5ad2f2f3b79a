import NedoCron.ParserBounds
import NedoCron.StarStep

namespace NedoCron

/-!
# nedo_cron — a text for every schedule

A schedule that the parser has returned can be written down again.  `CronSchedule.write` is its
canonical text: a field with its flag is a `*`, any other field is the list of its values, and `$`
stands at the end of the day-of-month field.

* `CronSchedule.WellFormed` — the schedules that have a text at all: every field selects values
  within its bounds, and a star selects all of them;
* `parse_write` — the canonical text of such a schedule is parsed to that schedule again;
* `Reading.denotes` — every reading of an accepted text gives its schedule, so texts with the same
  items, in whatever order and spelling, are interchangeable.
-/

/-! ### Canonical texts -/

/-- The values a field has a bit for: those within its bounds, Sunday only once. -/
def storedValues (type : FieldType) : List Nat :=
  (List.range 60).filter fun n => inBounds type n && foldValue type n == n

/-- The items of a field, in canonical order. -/
def CronSchedule.fieldItems (s : CronSchedule) (type : FieldType) : List Item :=
  (if s.starFlag type then [.star]
    else ((storedValues type).filter fun n => s.bit type n).map fun n => .value n) ++
  if type = .dom ∧ s.lastDom = true then [.lastDom] else []

/-- The canonical text of an item; ranges and steps are never needed. -/
def Item.write : Item → CString
  | .star => NedoCron.star
  | .lastDom => lastDomToken
  | .value a => showInt a
  | _ => []

/-- The canonical text of a field. -/
def CronSchedule.writeField (s : CronSchedule) (type : FieldType) : CString :=
  [arrayOfNumbersDelimiter].intercalate ((s.fieldItems type).map Item.write)

/-- The canonical text of a schedule. -/
def CronSchedule.write (s : CronSchedule) : CString :=
  if s.seconds then showInt s.secondsInterval ++ spaceDelimiter :: secondsIdentifier
  else [spaceDelimiter].intercalate (fieldTypes.map s.writeField)

/-- A schedule of five fields that some text has. -/
structure CronSchedule.HasFields (s : CronSchedule) : Prop where
  stored : ∀ type n, s.bit type n = true → n ∈ storedValues type
  star : ∀ type, s.starFlag type = true → ∀ n ∈ storedValues type, s.bit type n = true
  nonempty : ∀ type, (∃ n, s.bit type n = true) ∨ (type = .dom ∧ s.lastDom = true)
  seconds : s.seconds = false
  secondsInterval : s.secondsInterval = 0

/-- A schedule that some text has. -/
def CronSchedule.WellFormed (s : CronSchedule) : Prop :=
  s.HasFields ∨ ∃ n, 1 ≤ n ∧ n ≤ 59 ∧
    s = { CronSchedule.zero with seconds := true, secondsInterval := n }

/-- The stored values are those in bounds that stand for themselves: 7 stands for 0 in days of week.
    -/
theorem mem_storedValues {type : FieldType} {n : Nat} :
    n ∈ storedValues type ↔ inBounds type n = true ∧ foldValue type n = n := by
  have hhigh := getBounds_le type
  rw [storedValues, List.mem_filter, List.mem_range, Bool.and_eq_true, beq_iff_eq]
  constructor
  · exact fun h => h.2
  · rintro ⟨hin, hfold⟩
    obtain ⟨-, hle⟩ := inBounds_eq_true.mp hin
    exact ⟨by omega, hin, hfold⟩

/-- A bit that is set has its place in the array. -/
theorem CronSchedule.bit_le {s : CronSchedule} {type : FieldType} {n : Nat}
    (h : s.bit type n = true) : (n : Int) ≤ (getBounds type).2 ∧ foldValue type n = n := by
  have hsize : ∀ {size : Nat} {bits : Vector Bool size}, bits[n]?.getD false = true → n < size := by
    intro size bits hbit
    by_contra hlt
    rw [Vector.getElem?_eq_none (by omega)] at hbit
    exact absurd hbit (by decide)
  unfold foldValue getBounds
  cases type
  all_goals
    have hlt := hsize h
    simp only [reduceCtorEq, false_and, if_false, true_and, and_true]
    omega

/-! ### The texts of values -/

/-- The digits of a number are digits. -/
theorem mem_toDigits {n : Nat} {c : Char} (h : c ∈ Nat.toDigits 10 n) :
    ∃ d < 10, c = d.digitChar := by
  induction n using Nat.strongRecOn with
  | ind n ih =>
    by_cases hn : n < 10
    · rw [Nat.toDigits_of_lt_base hn, List.mem_singleton] at h
      exact ⟨n, hn, h⟩
    · rw [Nat.toDigits_of_base_le (by decide) (by omega), List.mem_append,
        List.mem_singleton] at h
      rcases h with h | h
      · exact ih (n / 10) (by omega) h
      · exact ⟨n % 10, by omega, h⟩

/-- **The digits of a number** are the text of its value. -/
theorem isInteger_showInt {n : Int} (hlow : 0 ≤ n) (hhigh : n ≤ intMax) :
    IsInteger (showInt n) n := by
  have hdigit : ∀ d < 10, isdigit (UInt8.ofNat (Nat.digitChar d).toNat) = true := by decide
  refine ⟨?_, ?_, decimal_showInt hlow, hhigh⟩
  · unfold showInt
    rw [if_neg (by omega), List.nil_append, ne_eq, List.map_eq_nil_iff]
    exact Nat.toDigits_ne_nil
  · intro c hc
    unfold showInt at hc
    rw [if_neg (by omega), List.nil_append] at hc
    obtain ⟨ch, hch, rfl⟩ := List.mem_map.mp hc
    obtain ⟨d, hd, rfl⟩ := mem_toDigits hch
    exact hdigit d hd

/-! ### Readings of an accepted text -/

/-- Only the text `*` is read as the item `*`, and only `$` as `$`. -/
theorem writes_bare {type : FieldType} {text : CString} {item : Item}
    (h : Writes type text item) :
    (text = star ↔ item = .star) ∧ (text = lastDomToken ↔ item = .lastDom) := by
  -- the other texts contain a hyphen, a slash or a digit
  have hsep : ∀ {x y : CString} {d : UInt8}, d ≠ 42 → d ≠ 36 →
      x ++ d :: y ≠ star ∧ x ++ d :: y ≠ lastDomToken := by
    intro x y d h42 h36
    have hmem : d ∈ x ++ d :: y := by simp
    constructor
    · intro heq
      rw [heq] at hmem
      exact h42 (List.mem_singleton.mp hmem)
    · intro heq
      rw [heq] at hmem
      exact h36 (List.mem_singleton.mp hmem)
  have hplain : ∀ {item : Item}, text ≠ star ∧ text ≠ lastDomToken → item ≠ .star →
      item ≠ .lastDom →
      (text = star ↔ item = .star) ∧ (text = lastDomToken ↔ item = .lastDom) := by
    rintro item ⟨hstar, hlast⟩ hstar' hlast'
    exact ⟨iff_of_false hstar hstar', iff_of_false hlast hlast'⟩
  cases item with
  | star =>
    obtain rfl : text = star := h
    exact ⟨by simp, by decide⟩
  | lastDom =>
    obtain ⟨-, rfl⟩ := h
    exact ⟨by decide, by simp⟩
  | value a =>
    refine hplain ⟨?_, ?_⟩ (by simp) (by simp)
    · rintro rfl
      exact WritesValue.bytes h (c := 42) (by decide) (by decide)
    · rintro rfl
      exact WritesValue.bytes h (c := 36) (by decide) (by decide)
  | range a b =>
    obtain ⟨-, x, y, rfl, -⟩ := h
    exact hplain (hsep (by decide) (by decide)) (by simp) (by simp)
  | toLast a =>
    obtain ⟨-, -, x, rfl, -⟩ := h
    exact hplain (hsep (by decide) (by decide)) (by simp) (by simp)
  | starStep n =>
    obtain ⟨-, z, rfl, -⟩ := h
    exact hplain (hsep (by decide) (by decide)) (by simp) (by simp)
  | lastDomStep n =>
    obtain ⟨-, -, z, rfl, -⟩ := h
    exact hplain (hsep (by decide) (by decide)) (by simp) (by simp)
  | rangeStep a b n =>
    obtain ⟨-, -, x, y, z, rfl, -⟩ := h
    exact hplain (hsep (by decide) (by decide)) (by simp) (by simp)
  | toLastStep a n =>
    obtain ⟨-, -, -, x, z, rfl, -⟩ := h
    exact hplain (hsep (by decide) (by decide)) (by simp) (by simp)

/-- A bare text stands in a field exactly if its item is read there. -/
theorem FieldReading.bare_mem {type : FieldType} {field : CString} (r : FieldReading type field) :
    (star ∈ r.texts ↔ Item.star ∈ r.items) ∧
      (lastDomToken ∈ r.texts ↔ Item.lastDom ∈ r.items) := by
  have hlists : ∀ {texts : List CString} {items : List Item},
      List.Forall₂ (Writes type) texts items →
      (star ∈ texts ↔ Item.star ∈ items) ∧ (lastDomToken ∈ texts ↔ Item.lastDom ∈ items) := by
    intro texts items h
    induction h with
    | nil => simp
    | cons hwrites _ ih =>
      obtain ⟨hstar, hlast⟩ := writes_bare hwrites
      rw [List.mem_cons, List.mem_cons, List.mem_cons, List.mem_cons, eq_comm, hstar, ih.1,
        eq_comm (a := Item.star), eq_comm (a := lastDomToken), hlast, ih.2,
        eq_comm (a := Item.lastDom)]
      exact ⟨Iff.rfl, Iff.rfl⟩
  exact hlists r.written

/-- **Readings.** Every reading of an accepted text gives the schedule of the text. -/
theorem Reading.denotes {s : CString} (r : Reading s) {error : Option CronParseError}
    {schedule : CronSchedule} (h : (parseWithError s error).1 = some schedule) :
    r.Denotes schedule := by
  obtain ⟨r', hr'⟩ := parseWithError_five r.split_eq h
  have htext := Reading.text_eq r r'
  refine ⟨fun type n => ?_, fun type htype => ?_, ?_, hr'.seconds, hr'.secondsInterval⟩
  · rw [hr'.bits, FieldReading.selects_iff, FieldReading.selects_iff, htext]
  · rw [hr'.stars type htype, FieldReading.texts_eq, FieldReading.texts_eq, htext]
  · rw [hr'.lastDom, FieldReading.texts_eq, FieldReading.texts_eq, htext]

/-- A reading has one meaning. -/
theorem Reading.Denotes.unique {s : CString} {r : Reading s} {schedule schedule' : CronSchedule}
    (h : r.Denotes schedule) (h' : r.Denotes schedule') : schedule = schedule' := by
  refine CronSchedule.ext_bits (fun type n => ?_) (fun type => ?_) ?_ ?_ ?_
  · rw [Bool.eq_iff_iff, h.bits, h'.bits]
  · by_cases hm : type = .m
    · subst hm
      rfl
    · rw [Bool.eq_iff_iff, h.stars type hm, h'.stars type hm]
  · rw [Bool.eq_iff_iff, h.lastDom, h'.lastDom]
  · rw [h.seconds, h'.seconds]
  · rw [h.secondsInterval, h'.secondsInterval]

/-- **The error record has no say** in the schedule. -/
theorem parseWithError_fst (s : CString) (error : Option CronParseError) :
    (parseWithError s error).1 = parse s := by
  -- whether an error is asked for does not matter
  have haccepted : (parseWithError s error).1.isSome = (parse s).isSome := by
    rw [isSome_parseWithError, parse, isSome_parseWithError]
  cases h : (parseWithError s error).1 with
  | none =>
    rw [h] at haccepted
    exact (Option.isNone_iff_eq_none.mp (by simpa using haccepted.symm)).symm
  | some schedule =>
    rw [h] at haccepted
    obtain ⟨schedule', h'⟩ := Option.isSome_iff_exists.mp haccepted.symm
    have hparse : (parseWithError s none).1 = some schedule' := h'
    rw [h', Option.some.injEq]
    -- the same seconds, or the same five fields
    rcases strSplit_of_accepted h with ⟨count, unit, hsplit, -, hcount⟩ | ⟨_, _, _, _, _, hsplit⟩
    · rcases strSplit_of_accepted hparse with
        ⟨count', unit', hsplit', -, hcount'⟩ | ⟨_, _, _, _, _, hfive⟩
      · obtain rfl : count = count' := (List.cons.inj (hsplit.symm.trans hsplit')).1
        obtain ⟨n, hn, -, -, rfl⟩ := parseSeconds_some hcount
        obtain ⟨n', hn', -, -, rfl⟩ := parseSeconds_some hcount'
        rw [← hn.2.2.1, ← hn'.2.2.1]
      · exact absurd (hsplit.symm.trans hfive) (by simp)
    · obtain ⟨r, hr⟩ := parseWithError_five hsplit h
      exact hr.unique (r.denotes hparse)

/-! ### Reading a canonical text -/

/-- What is written for a field: `*` by itself, or each value that is set, and `l` for the last day.
    -/
theorem CronSchedule.mem_fieldItems {s : CronSchedule} {type : FieldType} {item : Item} :
    item ∈ s.fieldItems type ↔
      (s.starFlag type = true ∧ item = .star) ∨
      (s.starFlag type = false ∧
        ∃ n ∈ storedValues type, s.bit type n = true ∧ item = .value n) ∨
      (type = .dom ∧ s.lastDom = true ∧ item = .lastDom) := by
  have hlast : item ∈ (if type = .dom ∧ s.lastDom = true then [Item.lastDom] else []) ↔
      type = .dom ∧ s.lastDom = true ∧ item = .lastDom := by
    by_cases h : type = .dom ∧ s.lastDom = true
    · rw [if_pos h, List.mem_singleton]
      exact ⟨fun heq => ⟨h.1, h.2, heq⟩, fun heq => heq.2.2⟩
    · rw [if_neg h]
      exact iff_of_false (by simp) fun heq => h ⟨heq.1, heq.2.1⟩
  rw [CronSchedule.fieldItems, List.mem_append, hlast]
  cases s.starFlag type with
  | true =>
    simp only [if_true, List.mem_singleton, true_and, Bool.true_eq_false, false_and, false_or]
  | false =>
    simp only [Bool.false_eq_true, if_false, List.mem_map, List.mem_filter, false_and, true_and,
      false_or, and_assoc, eq_comm (b := item)]

/-- Canonical texts are texts of their items. -/
theorem CronSchedule.writes_write {s : CronSchedule} {type : FieldType} {item : Item}
    (h : item ∈ s.fieldItems type) : Writes type item.write item ∧ item.fits type = true := by
  rcases CronSchedule.mem_fieldItems.mp h with ⟨-, rfl⟩ | ⟨-, n, hn, -, rfl⟩ | ⟨htype, -, rfl⟩
  · exact ⟨rfl, rfl⟩
  · obtain ⟨hin, -⟩ := mem_storedValues.mp hn
    have hhigh := getBounds_le type
    obtain ⟨-, hle⟩ := inBounds_eq_true.mp hin
    exact ⟨Or.inl (isInteger_showInt (by omega) (by unfold intMax; omega)), hin⟩
  · exact ⟨⟨htype, rfl⟩, rfl⟩

/-- They are not empty, and hold neither a comma nor a space. -/
theorem CronSchedule.separate_write {s : CronSchedule} {type : FieldType} {item : Item}
    (h : item ∈ s.fieldItems type) :
    item.write ≠ [] ∧ arrayOfNumbersDelimiter ∉ item.write ∧ spaceDelimiter ∉ item.write := by
  have hwrites := (CronSchedule.writes_write h).1
  rcases CronSchedule.mem_fieldItems.mp h with ⟨-, rfl⟩ | ⟨-, n, -, -, rfl⟩ | ⟨-, -, rfl⟩
  · decide
  · have hvalue : WritesValue type (showInt n) n := hwrites
    exact ⟨hvalue.ne_nil, fun hmem => hvalue.bytes hmem (by decide),
      fun hmem => hvalue.bytes hmem (by decide)⟩
  · decide

/-- No field is written as nothing. -/
theorem CronSchedule.fieldItems_ne_nil {s : CronSchedule} (hs : s.HasFields) (type : FieldType) :
    s.fieldItems type ≠ [] := by
  have hmem : ∃ item, item ∈ s.fieldItems type := by
    rcases hs.nonempty type with ⟨n, hn⟩ | ⟨htype, hlast⟩
    · cases hstar : s.starFlag type with
      | true => exact ⟨.star, CronSchedule.mem_fieldItems.mpr (Or.inl ⟨hstar, rfl⟩)⟩
      | false =>
        exact ⟨.value n, CronSchedule.mem_fieldItems.mpr
          (Or.inr (Or.inl ⟨hstar, n, hs.stored type n hn, hn, rfl⟩))⟩
    · exact ⟨.lastDom, CronSchedule.mem_fieldItems.mpr (Or.inr (Or.inr ⟨htype, hlast, rfl⟩))⟩
  obtain ⟨item, hitem⟩ := hmem
  exact List.ne_nil_of_mem hitem

/-- The canonical text of a field, read. -/
def CronSchedule.writtenField {s : CronSchedule} (hs : s.HasFields) (type : FieldType) :
    FieldReading type (s.writeField type) where
  texts := (s.fieldItems type).map Item.write
  items := s.fieldItems type
  joined := rfl
  separate t ht := by
    obtain ⟨item, hitem, rfl⟩ := List.mem_map.mp ht
    exact ⟨(CronSchedule.separate_write hitem).1, (CronSchedule.separate_write hitem).2.1⟩
  nonempty := by simpa using CronSchedule.fieldItems_ne_nil hs type
  written := by
    rw [List.forall₂_map_left_iff, List.forall₂_same]
    exact fun item hitem => (CronSchedule.writes_write hitem).1

/-- The canonical text of a schedule, read. -/
def CronSchedule.writtenReading {s : CronSchedule} (hs : s.HasFields) : Reading s.write where
  text := s.writeField
  joined := by rw [CronSchedule.write, hs.seconds]; rfl
  separate type := by
    rw [CronSchedule.writeField, mem_intercalate (by decide)]
    rintro ⟨text, htext, hspace⟩
    obtain ⟨item, hitem, rfl⟩ := List.mem_map.mp htext
    exact (CronSchedule.separate_write hitem).2.2 hspace
  field := CronSchedule.writtenField hs

/-- The values of an item within the bounds have their bits among the stored values. -/
theorem mem_storedValues_fold {type : FieldType} {v : Int} {n : Nat}
    (hv : inBounds type v = true) (hn : (n : Int) = foldValue type v) :
    n ∈ storedValues type := by
  rw [mem_storedValues, inBounds_eq_true]
  obtain ⟨hlow, hhigh⟩ := inBounds_eq_true.mp hv
  unfold foldValue at *
  by_cases hsunday : type = .dow ∧ v = 7
  · rw [if_pos hsunday] at hn
    obtain ⟨rfl, -⟩ := hsunday
    rw [hn]
    decide
  · rw [if_neg hsunday] at hn
    rw [hn, if_neg hsunday]
    exact ⟨⟨hlow, hhigh⟩, rfl⟩

/-- A progression by one is an interval. -/
theorem mem_progression_one {a b v : Int} : v ∈ progression a b 1 ↔ a ≤ v ∧ v ≤ b := by
  constructor
  · rintro ⟨k, hk, hle⟩
    omega
  · rintro ⟨hlow, hhigh⟩
    exact ⟨(v - a).toNat, by omega, hhigh⟩

/-- **The canonical text of a field** selects the bits of the field. -/
theorem CronSchedule.selects_writtenField {s : CronSchedule} (hs : s.HasFields) (type : FieldType)
    (n : Nat) : (CronSchedule.writtenField hs type).selects n ↔ s.bit type n = true := by
  constructor
  · -- what is written is set
    rintro ⟨item, hitem, v, hv, hn⟩
    rcases CronSchedule.mem_fieldItems.mp hitem with
      ⟨hstar, rfl⟩ | ⟨-, m, hm, hbit, rfl⟩ | ⟨-, -, rfl⟩
    · have hin : inBounds type v = true := inBounds_eq_true.mpr (mem_progression_one.mp hv)
      exact hs.star type hstar n (mem_storedValues_fold hin hn)
    · obtain rfl : v = m := hv
      rw [(mem_storedValues.mp hm).2] at hn
      obtain rfl : n = m := Int.ofNat_inj.mp hn
      exact hbit
    · exact absurd hv (Set.notMem_empty v)
  · -- what is set is written, by the star or by itself
    intro hbit
    have hstored := hs.stored type n hbit
    obtain ⟨hin, hfold⟩ := mem_storedValues.mp hstored
    cases hstar : s.starFlag type with
    | true =>
      exact ⟨.star, CronSchedule.mem_fieldItems.mpr (Or.inl ⟨hstar, rfl⟩), n,
        mem_progression_one.mpr (inBounds_eq_true.mp hin), hfold.symm⟩
    | false =>
      exact ⟨.value n, CronSchedule.mem_fieldItems.mpr
        (Or.inr (Or.inl ⟨hstar, n, hstored, hbit, rfl⟩)), n, rfl, hfold.symm⟩

/-- **Five fields, written and read.** -/
theorem parse_write_fields {s : CronSchedule} (hs : s.HasFields) : parse s.write = some s := by
  let r := CronSchedule.writtenReading hs
  have hfits : r.Fits := fun type item hitem => (CronSchedule.writes_write hitem).2
  obtain ⟨schedule, hparse⟩ := Option.isSome_iff_exists.mp ((r.accepted_iff none).mpr hfits)
  have hdenotes := r.denotes hparse
  -- `*` and `l` are written just for their flags
  have hbare : ∀ type, (star ∈ (r.field type).texts ↔ s.starFlag type = true) ∧
      (lastDomToken ∈ (r.field type).texts ↔ type = .dom ∧ s.lastDom = true) := by
    intro type
    rw [(r.field type).bare_mem.1, (r.field type).bare_mem.2]
    show (Item.star ∈ s.fieldItems type ↔ _) ∧ (Item.lastDom ∈ s.fieldItems type ↔ _)
    rw [CronSchedule.mem_fieldItems, CronSchedule.mem_fieldItems]
    simp
  have hsame : schedule = s := by
    refine CronSchedule.ext_bits (fun type n => ?_) (fun type => ?_) ?_ ?_ ?_
    · rw [Bool.eq_iff_iff, hdenotes.bits]
      exact CronSchedule.selects_writtenField hs type n
    · by_cases hm : type = .m
      · subst hm
        rfl
      · rw [Bool.eq_iff_iff, hdenotes.stars type hm, (hbare type).1]
    · rw [Bool.eq_iff_iff, hdenotes.lastDom, (hbare .dom).2]
      simp
    · rw [hdenotes.seconds, hs.seconds]
    · rw [hdenotes.secondsInterval, hs.secondsInterval]
  rw [← hsame]
  exact hsame ▸ hparse

/-- **`N seconds`, written and read.** -/
theorem parse_write_seconds {n : Int} (hlow : 1 ≤ n) (hhigh : n ≤ 59) :
    parse ({ CronSchedule.zero with seconds := true, secondsInterval := n }.write) =
      some { CronSchedule.zero with seconds := true, secondsInterval := n } := by
  have hint : IsInteger (showInt n) n := isInteger_showInt (by omega) (by unfold intMax; omega)
  have hvalue : WritesValue .minute (showInt n) n := Or.inl hint
  have hsplit : strSplit (showInt n ++ spaceDelimiter :: secondsIdentifier) spaceDelimiter =
      [showInt n, secondsIdentifier] :=
    strSplit_two (fun hmem => hvalue.bytes hmem (by decide)) (by decide)
  have hseconds : strcasecmpEq secondsIdentifier secondsIdentifier = true := by
    rw [strcasecmpEq, beq_iff_eq]
  show parse (showInt n ++ spaceDelimiter :: secondsIdentifier) = _
  rw [parse, parseWithError, if_neg (by simp), hsplit]
  dsimp only
  rw [if_pos hseconds, parseSeconds, parseInteger_eq_some.mpr hint]
  dsimp only
  rw [if_neg (by omega)]

/-! ### The schedules the parser returns -/

/-- No value of an item is below the bounds of its field. -/
theorem Item.le_of_mem_values {type : FieldType} {item : Item} {v : Int}
    (hfits : item.fits type = true) (hv : v ∈ item.values type) : (getBounds type).1 ≤ v := by
  -- every item but the bare `$` selects a progression from within the bounds
  have hprogression : ∀ {a b n : Int}, 0 < n → (getBounds type).1 ≤ a → v ∈ progression a b n →
      (getBounds type).1 ≤ v := by
    rintro a b n hn ha ⟨k, hk, -⟩
    have hmul : 0 ≤ (k : Int) * n := Int.mul_nonneg (by omega) (by omega)
    omega
  have hrange : ∀ {a b n : Int}, rangeFits type a b n = true → v ∈ progression a b n →
      (getBounds type).1 ≤ v := by
    intro a b n h
    obtain ⟨hn, -, ha, -⟩ := rangeFits_eq_true.mp h
    exact hprogression hn ha
  cases item with
  | star => exact hprogression (by decide) (le_refl _) hv
  | lastDom => exact absurd hv (Set.notMem_empty v)
  | value a =>
    obtain rfl : v = a := hv
    exact (inBounds_eq_true.mp hfits).1
  | range a b => exact hrange hfits hv
  | toLast a => exact hrange hfits hv
  | starStep n => exact hrange hfits hv
  | lastDomStep n => exact hrange hfits hv
  | rangeStep a b n => exact hrange hfits hv
  | toLastStep a n => exact hrange hfits hv

/-- Only the bare `$` selects nothing. -/
theorem Item.exists_mem_values {type : FieldType} {item : Item} (hfits : item.fits type = true)
    (hne : item ≠ .lastDom) : ∃ v, v ∈ item.values type := by
  have hfirst : ∀ {a b n : Int}, a ≤ b → a ∈ progression a b n := fun h => ⟨0, by simp, h⟩
  have hrange : ∀ {a b n : Int}, rangeFits type a b n = true → a ∈ progression a b n :=
    fun h => hfirst (rangeFits_eq_true.mp h).2.1
  cases item with
  | star => exact ⟨_, hfirst (by cases type <;> decide)⟩
  | lastDom => exact absurd rfl hne
  | value a => exact ⟨a, rfl⟩
  | range a b => exact ⟨a, hrange hfits⟩
  | toLast a => exact ⟨a, hrange hfits⟩
  | starStep n => exact ⟨_, hrange hfits⟩
  | lastDomStep n => exact ⟨_, hrange hfits⟩
  | rangeStep a b n => exact ⟨a, hrange hfits⟩
  | toLastStep a n => exact ⟨a, hrange hfits⟩

/-- **Five fields** leave a schedule in which every field selects something. -/
theorem Reading.hasFields {s : CString} (r : Reading s) {schedule : CronSchedule}
    (h : parse s = some schedule) : schedule.HasFields := by
  have hdenotes := r.denotes h
  have hfits : r.Fits := by
    rw [← r.accepted_iff none]
    exact Option.isSome_iff_exists.mpr ⟨schedule, h⟩
  refine ⟨fun type n hbit => ?_, fun type hstar n hn => ?_, fun type => ?_, hdenotes.seconds,
    hdenotes.secondsInterval⟩
  · -- a stored value comes from an item that fits; only 7 for Sunday is folded
    obtain ⟨hle, hfold⟩ := CronSchedule.bit_le hbit
    obtain ⟨item, hitem, v, hv, hnv⟩ := (hdenotes.bits type n).mp hbit
    have hlow := Item.le_of_mem_values (hfits type item hitem) hv
    refine mem_storedValues.mpr ⟨inBounds_eq_true.mpr ⟨?_, hle⟩, hfold⟩
    by_cases hsunday : type = .dow ∧ v = 7
    · obtain ⟨rfl, -⟩ := hsunday
      exact Int.natCast_nonneg n
    · rw [foldValue, if_neg hsunday] at hnv
      rw [hnv]
      exact hlow
  · -- a bare `*` stands for every value of its field
    have hm : type ≠ .m := by
      rintro rfl
      exact absurd hstar Bool.false_ne_true
    rw [hdenotes.stars type hm, (r.field type).bare_mem.1] at hstar
    obtain ⟨hin, hfold⟩ := mem_storedValues.mp hn
    exact (hdenotes.bits type n).mpr
      ⟨.star, hstar, n, mem_progression_one.mpr (inBounds_eq_true.mp hin), hfold.symm⟩
  · -- some item is there, and only `l` sets no bit
    have hitems : (r.field type).items ≠ [] := by
      intro hnil
      have hwritten := (r.field type).written
      rw [hnil, List.forall₂_nil_right_iff] at hwritten
      exact (r.field type).nonempty hwritten
    obtain ⟨item, hitem⟩ := List.exists_mem_of_ne_nil _ hitems
    by_cases hlast : item = .lastDom
    · subst hlast
      obtain ⟨text, htext⟩ := (r.field type).text_of_mem hitem
      obtain ⟨rfl, -⟩ := htext
      exact Or.inr ⟨rfl, hdenotes.lastDom.mpr ((r.field .dom).bare_mem.2.mpr hitem)⟩
    · have hfit := hfits type item hitem
      obtain ⟨v, hv⟩ := Item.exists_mem_values hfit hlast
      have hlow := Item.le_of_mem_values hfit hv
      have hpos := getBounds_nonneg type
      have hfold : 0 ≤ foldValue type v := by
        unfold foldValue
        split <;> omega
      exact Or.inl ⟨(foldValue type v).toNat, (hdenotes.bits type _).mpr
        ⟨item, hitem, v, hv, Int.toNat_of_nonneg hfold⟩⟩

/-- What the parser returns is well formed. -/
theorem wellFormed_of_parse {text : CString} {s : CronSchedule} (h : parse text = some s) :
    s.WellFormed := by
  rcases strSplit_of_accepted h with ⟨count, unit, -, -, hcount⟩ | ⟨_, _, _, _, _, hsplit⟩
  · obtain ⟨n, -, hlow, hhigh, rfl⟩ := parseSeconds_some hcount
    exact Or.inr ⟨n, hlow, hhigh, rfl⟩
  · obtain ⟨r, -⟩ := parseWithError_five hsplit h
    exact Or.inl (r.hasFields h)

/-- What is well formed is found again by the parser from the text written for it. -/
theorem parse_write_of_wellFormed {s : CronSchedule} (h : s.WellFormed) :
    parse s.write = some s := by
  rcases h with hs | ⟨n, hlow, hhigh, rfl⟩
  · exact parse_write_fields hs
  · exact parse_write_seconds hlow hhigh

/-- **Round trip.**  A schedule is the schedule of some text exactly if it is well formed, and
    then its canonical text is one: parsing it gives the schedule back. -/
theorem parse_write (s : CronSchedule) :
    ((∃ text, parse text = some s) ↔ s.WellFormed) ∧ (parse s.write = some s ↔ s.WellFormed) := by
  refine ⟨⟨?_, fun h => ⟨s.write, parse_write_of_wellFormed h⟩⟩, wellFormed_of_parse,
    parse_write_of_wellFormed⟩
  rintro ⟨text, h⟩
  exact wellFormed_of_parse h

/-- **Spelling does not matter.**  Two texts of five fields whose fields have the same items are
    both accepted, with the same schedule, or both rejected: neither the order and the number of
    the items counts, nor letter case, leading zeros or the choice between a name and its number. -/
theorem parse_eq_of_items {s s' : CString} (r : Reading s) (r' : Reading s')
    (hitems : ∀ type item, item ∈ (r.field type).items ↔ item ∈ (r'.field type).items) :
    parse s = parse s' := by
  have hfits : r.Fits ↔ r'.Fits :=
    ⟨fun h type item hitem => h type item ((hitems type item).mpr hitem),
      fun h type item hitem => h type item ((hitems type item).mp hitem)⟩
  -- both are accepted if all their items fit
  have haccepted : (parse s).isSome = true ↔ (parse s').isSome = true := by
    show (parseWithError s none).1.isSome = true ↔ (parseWithError s' none).1.isSome = true
    rw [r.accepted_iff, r'.accepted_iff, hfits]
  cases hs : parse s with
  | none =>
    rw [hs] at haccepted
    exact (Option.not_isSome_iff_eq_none.mp fun h => absurd (haccepted.mpr h) (by decide)).symm
  | some schedule =>
    rw [hs] at haccepted
    obtain ⟨schedule', hs'⟩ := Option.isSome_iff_exists.mp (haccepted.mp rfl)
    have hd := r.denotes hs
    have hd' := r'.denotes hs'
    rw [hs', Option.some.injEq]
    -- bits and flags are sets of items, so they agree
    refine CronSchedule.ext_bits (fun type n => ?_) (fun type => ?_) ?_ ?_ ?_
    · rw [Bool.eq_iff_iff, hd.bits, hd'.bits]
      exact exists_congr fun item => and_congr_left fun _ => hitems type item
    · by_cases hm : type = .m
      · subst hm
        rfl
      · rw [Bool.eq_iff_iff, hd.stars type hm, hd'.stars type hm, (r.field type).bare_mem.1,
          (r'.field type).bare_mem.1, hitems]
    · rw [Bool.eq_iff_iff, hd.lastDom, hd'.lastDom, (r.field .dom).bare_mem.2,
        (r'.field .dom).bare_mem.2, hitems]
    · rw [hd.seconds, hd'.seconds]
    · rw [hd.secondsInterval, hd'.secondsInterval]

/-- The theorem at a month given by its name and by its number. -/
theorem parse_eq_of_items_january :
    parse (starsText .m (ascii "jAn")) = parse (starsText .m (ascii "01")) := by
  have hname : Writes .m (ascii "jAn") (.value 1) :=
    Or.inr (Or.inl ⟨rfl, ⟨ascii "JAN", 1⟩, List.mem_cons_self, by decide, rfl⟩)
  have hnumber : Writes .m (ascii "01") (.value 1) :=
    Or.inl (parseInteger_eq_some.mp (by decide +kernel))
  refine parse_eq_of_items (starsReading .m _ _ hname (by decide) (by decide))
    (starsReading .m _ _ hnumber (by decide) (by decide)) fun type item => ?_
  rw [items_starsReading, items_starsReading]

end NedoCron

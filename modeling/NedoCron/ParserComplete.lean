import NedoCron.ParseErrors

namespace NedoCron

/-!
# nedo_cron — texts of the grammar that are accepted

A text of the grammar is accepted if its items fit: every value the filling loop visits lies
within the bounds of the field, and no addition of the step overflows.

* `Item.fits` — the items that fit;
* `acceptsItem_of_writes` — the parser accepts the texts of exactly these;
* `Reading.accepted_iff` — and the schedule texts made of them.
-/

/-! ### Values -/

/-- A name is found, since no two names of a list agree. -/
theorem searchForCronName_complete {names : List CronName}
    (hdistinct : (names.map fun n => n.name.map tolower).Nodup) {s : CString} {v : Int}
    (h : IsName names s v) : searchForCronName names s = some v := by
  induction names with
  | nil =>
    obtain ⟨n, hn, -⟩ := h
    exact absurd hn (by simp)
  | cons m names ih =>
    obtain ⟨n, hn, hsame, hvalue⟩ := h
    simp only [List.map_cons, List.nodup_cons] at hdistinct
    rw [searchForCronName]
    rcases List.mem_cons.mp hn with rfl | hn
    · rw [if_pos hsame, hvalue]
    · rw [if_neg, ih hdistinct.2 ⟨n, hn, hsame, hvalue⟩]
      intro hm
      apply hdistinct.1
      rw [List.mem_map]
      refine ⟨n, hn, ?_⟩
      rw [strcasecmpEq, beq_iff_eq] at hsame hm
      exact hsame.trans hm.symm

/-- A byte of a name is a letter. -/
theorem tolower_mem_name {names : List CronName} {s : CString} {v : Int} (h : IsName names s v)
    {c : UInt8} (hc : c ∈ s) : ∃ n ∈ names, tolower c ∈ n.name.map tolower := by
  obtain ⟨n, hn, hsame, -⟩ := h
  rw [strcasecmpEq, beq_iff_eq] at hsame
  exact ⟨n, hn, by rw [hsame]; exact List.mem_map_of_mem hc⟩

/-- The bytes that never stand in a value. -/
def delimiters : List UInt8 := [42, 36, 44, 45, 47, 32]

/-- No name has a delimiter or a digit in it. -/
theorem not_isName_of_mem_delimiters {names : List CronName} (hnames : names = monthNames ∨
    names = dowNames) {s : CString} {v : Int} (h : IsName names s v) {c : UInt8} (hc : c ∈ s) :
    c ∉ delimiters ∧ isdigit c = false := by
  obtain ⟨n, hn, hmem⟩ := tolower_mem_name h hc
  have hletters : ∀ n ∈ monthNames ++ dowNames, ∀ d ∈ n.name.map tolower,
      97 ≤ d.toNat ∧ d.toNat ≤ 122 := by decide +kernel
  have hrange := hletters n (by rcases hnames with rfl | rfl <;> simp [hn]) _ hmem
  refine ⟨fun hdelim => ?_, ?_⟩
  · have hlow : ∀ c ∈ delimiters, (tolower c).toNat < 97 := by decide +kernel
    have := hlow c hdelim
    omega
  · unfold isdigit
    unfold tolower at hrange
    split at hrange
    · simp; omega
    · simp; omega

/-- A value is written without delimiters. -/
theorem WritesValue.bytes {type : FieldType} {s : CString} {v : Int} (h : WritesValue type s v)
    {c : UInt8} (hc : c ∈ s) : c ∉ delimiters := by
  rcases h with hint | ⟨-, hname⟩ | ⟨-, hname⟩
  · intro hdelim
    have hnot : ∀ c ∈ delimiters, isdigit c = false := by decide +kernel
    exact absurd (hint.2.1 c hc) (by rw [hnot c hdelim]; simp)
  · exact (not_isName_of_mem_delimiters (Or.inl rfl) hname hc).1
  · exact (not_isName_of_mem_delimiters (Or.inr rfl) hname hc).1

/-- A value is not written as nothing. -/
theorem WritesValue.ne_nil {type : FieldType} {s : CString} {v : Int} (h : WritesValue type s v) :
    s ≠ [] := by
  have hname : ∀ {names : List CronName}, names = monthNames ∨ names = dowNames →
      IsName names s v → s ≠ [] := by
    rintro names hnames ⟨n, hn, hsame, -⟩ rfl
    have hne : ∀ n ∈ monthNames ++ dowNames, n.name.map tolower ≠ [] := by decide +kernel
    rw [strcasecmpEq, beq_iff_eq] at hsame
    exact hne n (by rcases hnames with rfl | rfl <;> simp [hn]) hsame
  rcases h with hint | ⟨-, h⟩ | ⟨-, h⟩
  · exact hint.1
  · exact hname (Or.inl rfl) h
  · exact hname (Or.inr rfl) h

/-- Every way to write a value is read. -/
theorem parseFieldValue_complete {type : FieldType} {s : CString} {v : Int}
    (h : WritesValue type s v) : parseFieldValue type s = some v := by
  have hnone : ∀ {names : List CronName}, names = monthNames ∨ names = dowNames →
      IsName names s v → parseInteger s = none := by
    intro names hnames hname
    rw [Option.eq_none_iff_forall_ne_some]
    intro w hw
    have hint := parseInteger_eq_some.mp hw
    obtain ⟨c, hc⟩ := List.exists_mem_of_ne_nil s hint.1
    have hdigit := hint.2.1 c hc
    rw [(not_isName_of_mem_delimiters hnames hname hc).2] at hdigit
    exact absurd hdigit (by simp)
  unfold parseFieldValue
  rcases h with hint | ⟨rfl, hname⟩ | ⟨rfl, hname⟩
  · rw [parseInteger_eq_some.mpr hint]
  · rw [hnone (Or.inl rfl) hname]
    exact searchForCronName_complete (by decide +kernel) hname
  · rw [hnone (Or.inr rfl) hname]
    exact searchForCronName_complete (by decide +kernel) hname

/-! ### Splitting -/

/-- Two parts around one delimiter. -/
theorem strSplit_two {x y : CString} {delim : UInt8} (hx : delim ∉ x) (hy : delim ∉ y) :
    strSplit (x ++ delim :: y) delim = [x, y] := by
  have h : strSplit ([delim].intercalate [x, y]) delim = [x, y] :=
    strSplit_intercalate (by simp) (by simp [hx, hy])
  simpa [List.intercalate] using h

/-- Neither part is empty. -/
theorem hasEmptyPart_two {x y : CString} {delim : UInt8} (hx : delim ∉ x) (hy : delim ∉ y)
    (hx' : x ≠ []) (hy' : y ≠ []) : hasEmptyPart (x ++ delim :: y) delim = false := by
  rw [Bool.eq_false_iff]
  intro h
  rw [hasEmptyPart_iff, strSplit_two hx hy] at h
  simp only [List.mem_cons, List.not_mem_nil, or_false] at h
  rcases h with h | h
  · exact hx' h.symm
  · exact hy' h.symm

/-! ### Items -/

/-- The values the filling loop visits for the item lie within the bounds of the field, and no
    addition overflows. -/
def Item.fits (type : FieldType) : Item → Bool
  | .star => true
  | .lastDom => true
  | .value a => inBounds type a
  | .range a b => rangeFits type a b 1
  | .toLast a => rangeFits type a maxDaysInMonth 1
  | .starStep n => rangeFits type (getBounds type).1 (getBounds type).2 n
  | .lastDomStep n => rangeFits type (getBounds type).1 (getBounds type).2 n
  | .rangeStep a b n => rangeFits type a b n
  | .toLastStep a n => rangeFits type a maxDaysInMonth n

/-- The text of a range, read back. -/
theorem parseRange_complete {type : FieldType} {x y : CString} {a b : Int}
    (hx : WritesValue type x a) (hy : WritesValue type y b) :
    parseRange type (x ++ rangeOfNumbersDelimiter :: y) = some (a, b) := by
  have hx' : rangeOfNumbersDelimiter ∉ x := fun h => hx.bytes h (by decide)
  have hy' : rangeOfNumbersDelimiter ∉ y := fun h => hy.bytes h (by decide)
  have hlast : isLastDomToken y = false := by
    rw [isLastDomToken, beq_eq_false_iff_ne]
    rintro rfl
    exact hy.bytes (c := 36) (by decide) (by decide)
  rw [parseRange, hasEmptyPart_two hx' hy' hx.ne_nil hy.ne_nil, strSplit_two hx' hy',
    if_neg Bool.false_ne_true]
  dsimp only
  rw [parseFieldValue_complete hx, hlast]
  dsimp only
  rw [if_neg (by simp), parseFieldValue_complete hy]
  rfl

/-- The text of a range up to the last day, read back. -/
theorem parseRange_toLast {x : CString} {a : Int} (hx : WritesValue .dom x a) :
    parseRange .dom (x ++ rangeOfNumbersDelimiter :: lastDomToken) = some (a, maxDaysInMonth) := by
  have hx' : rangeOfNumbersDelimiter ∉ x := fun h => hx.bytes h (by decide)
  rw [parseRange, hasEmptyPart_two hx' (by decide) hx.ne_nil (by decide),
    strSplit_two hx' (by decide), if_neg Bool.false_ne_true]
  dsimp only
  rw [parseFieldValue_complete hx]
  rfl

/-- The text of a step, read back. -/
theorem acceptsStepItem_complete (type : FieldType) {base z : CString} {n : Int}
    (hbase : stepDelimiter ∉ base) (hne : base ≠ []) (hz : IsInteger z n) :
    acceptsStepItem type (base ++ stepDelimiter :: z) = acceptsStep type base n := by
  have hvalue : WritesValue type z n := Or.inl hz
  have hz' : stepDelimiter ∉ z := fun h => hvalue.bytes h (by decide)
  rw [acceptsStepItem, hasEmptyPart_two hbase hz' hne hz.1, strSplit_two hbase hz',
    if_neg Bool.false_ne_true]
  dsimp only
  rw [parseInteger_eq_some.mpr hz]
  rfl

/-- An item with a `/`. -/
theorem acceptsItem_step (type : FieldType) {base z : CString} (hne : base ≠ []) (hz : z ≠ []) :
    acceptsItem type (base ++ stepDelimiter :: z) =
      acceptsStepItem type (base ++ stepDelimiter :: z) := by
  have hlength : 2 < (base ++ stepDelimiter :: z).length := by
    have hb := List.length_pos_iff.mpr hne
    have hz := List.length_pos_iff.mpr hz
    simp only [List.length_append, List.length_cons]
    omega
  -- so the branches for `$` and `*` on their own are passed by
  have hlong : ∀ t : CString, t.length = 1 → base ++ stepDelimiter :: z ≠ t := by
    rintro t ht rfl
    omega
  have hlast : isLastDomToken (base ++ stepDelimiter :: z) = false :=
    beq_eq_false_iff_ne.mpr (hlong lastDomToken rfl)
  have hstar : isStar (base ++ stepDelimiter :: z) = false :=
    beq_eq_false_iff_ne.mpr (hlong star rfl)
  rw [acceptsItem, if_neg (by simp), hlast, hstar, if_neg Bool.false_ne_true,
    if_neg Bool.false_ne_true, if_pos (by simp)]

/-- A text that is neither `$` nor `*` and has no `/`. -/
theorem acceptsItem_plain (type : FieldType) {text : CString} (hne : text ≠ [])
    (hlast : text ≠ lastDomToken) (hstar : text ≠ star) (hstep : stepDelimiter ∉ text) :
    acceptsItem type text =
      if text.contains rangeOfNumbersDelimiter then acceptsRange type text 1
      else (parseFieldValue type text).any (inBounds type) := by
  have hlast' : isLastDomToken text = false := beq_eq_false_iff_ne.mpr hlast
  have hstar' : isStar text = false := beq_eq_false_iff_ne.mpr hstar
  have hstep' : text.contains stepDelimiter = false := by
    rw [← Bool.not_eq_true, List.contains_iff_mem]
    exact hstep
  rw [acceptsItem, if_neg hne, hlast', hstar', hstep']
  rfl

/-- A text with a hyphen and no `/`. -/
theorem acceptsItem_range {type : FieldType} {text : CString} {a b : Int}
    (hmem : rangeOfNumbersDelimiter ∈ text) (hstep : stepDelimiter ∉ text)
    (hrange : parseRange type text = some (a, b)) :
    acceptsItem type text = rangeFits type a b 1 := by
  have hne : ∀ t : CString, rangeOfNumbersDelimiter ∉ t → text ≠ t := by
    rintro t ht rfl
    exact ht hmem
  rw [acceptsItem_plain type (hne [] (by decide)) (hne _ (by decide)) (hne _ (by decide)) hstep,
    if_pos (List.contains_iff_mem.mpr hmem), acceptsRange, hrange]

/-- The verdict on a range is about its ends. -/
theorem acceptsRange_eq {type : FieldType} {text : CString} {a b : Int}
    (h : parseRange type text = some (a, b)) (step : Int) :
    acceptsRange type text step = rangeFits type a b step := by
  rw [acceptsRange, h]

/-- A step of a range, which is neither `*` nor `$`. -/
theorem acceptsStep_range {type : FieldType} {base : CString} {a b n : Int} (hpos : 0 < n)
    (hmem : rangeOfNumbersDelimiter ∈ base) (hrange : parseRange type base = some (a, b)) :
    acceptsStep type base n = rangeFits type a b n := by
  have hstar : isStar base = false := by
    rw [isStar, beq_eq_false_iff_ne]
    rintro rfl
    exact absurd hmem (by decide)
  have hlast : isLastDomToken base = false := by
    rw [isLastDomToken, beq_eq_false_iff_ne]
    rintro rfl
    exact absurd hmem (by decide)
  rw [acceptsStep, if_neg (by omega), hstar, hlast, if_neg Bool.false_ne_true, if_neg (by simp),
    if_pos (List.contains_iff_mem.mpr hmem), acceptsRange_eq hrange]

/-- **Items.**  The text of an item is accepted exactly if the item fits. -/
theorem acceptsItem_of_writes {type : FieldType} {text : CString} {item : Item}
    (h : Writes type text item) : acceptsItem type text = item.fits type := by
  -- a value contains no delimiter, so a text splits where its item was joined
  have hslash : ∀ {x y : CString} {v : Int}, WritesValue type x v → stepDelimiter ∉ y →
      stepDelimiter ∉ x ++ rangeOfNumbersDelimiter :: y := by
    intro x y v hx hy hmem
    rcases List.mem_append.mp hmem with hmem | hmem
    · exact hx.bytes hmem (by decide)
    · rcases List.mem_cons.mp hmem with heq | hmem
      · exact absurd heq (by decide)
      · exact hy hmem
  cases item with
  | star =>
    obtain rfl : text = star := h
    rfl
  | lastDom =>
    obtain ⟨rfl, rfl⟩ := h
    rfl
  | value a =>
    have hx : WritesValue type text a := h
    have hno : text.contains rangeOfNumbersDelimiter = false := by
      rw [← Bool.not_eq_true, List.contains_iff_mem]
      exact fun hmem => hx.bytes hmem (by decide)
    have hne : ∀ c ∈ delimiters, text ≠ [c] := by
      rintro c hc rfl
      exact hx.bytes List.mem_cons_self hc
    rw [acceptsItem_plain type hx.ne_nil (hne 36 (by decide)) (hne 42 (by decide))
      fun hmem => hx.bytes hmem (by decide), hno, if_neg Bool.false_ne_true,
      parseFieldValue_complete hx]
    rfl
  | range a b =>
    obtain ⟨-, x, y, rfl, hx, hy⟩ := h
    exact acceptsItem_range (by simp) (hslash hx fun hmem => hy.bytes hmem (by decide))
      (parseRange_complete hx hy)
  | toLast a =>
    obtain ⟨rfl, -, x, rfl, hx⟩ := h
    exact acceptsItem_range (by simp) (hslash hx (by decide)) (parseRange_toLast hx)
  | starStep n =>
    obtain ⟨hpos, z, rfl, hz⟩ := h
    rw [acceptsItem_step type (by decide) hz.1,
      acceptsStepItem_complete type (by decide) (by decide) hz, acceptsStep, if_neg (by omega)]
    rfl
  | lastDomStep n =>
    obtain ⟨rfl, hpos, z, rfl, hz⟩ := h
    rw [acceptsItem_step .dom (by decide) hz.1,
      acceptsStepItem_complete .dom (by decide) (by decide) hz, acceptsStep, if_neg (by omega)]
    rfl
  | rangeStep a b n =>
    obtain ⟨hpos, -, x, y, z, rfl, hx, hy, hz⟩ := h
    have hbase := hslash hx fun hmem => hy.bytes hmem (by decide)
    rw [acceptsItem_step type (by simp) hz.1, acceptsStepItem_complete type hbase (by simp) hz,
      acceptsStep_range hpos (by simp) (parseRange_complete hx hy)]
    rfl
  | toLastStep a n =>
    obtain ⟨rfl, hpos, -, x, z, rfl, hx, hz⟩ := h
    have hbase := hslash hx (y := lastDomToken) (by decide)
    rw [acceptsItem_step .dom (by simp) hz.1, acceptsStepItem_complete .dom hbase (by simp) hz,
      acceptsStep_range hpos (by simp) (parseRange_toLast hx)]
    rfl

/-! ### Schedules -/

/-- Every item of the reading fits. -/
def Reading.Fits {s : CString} (r : Reading s) : Prop :=
  ∀ type, ∀ item ∈ (r.field type).items, item.fits type = true

/-- The verdict on the texts of a field is that on its items. -/
theorem forall₂_fits {type : FieldType} {texts : List CString} {items : List Item}
    (h : List.Forall₂ (Writes type) texts items) :
    texts.all (acceptsItem type) = items.all (Item.fits type) := by
  induction h with
  | nil => rfl
  | cons hwrites _ ih => rw [List.all_cons, List.all_cons, acceptsItem_of_writes hwrites, ih]

/-- A field is accepted exactly if its items fit. -/
theorem FieldReading.accepted {type : FieldType} {field : CString}
    (r : FieldReading type field) : acceptsField type field = r.items.all (Item.fits type) := by
  have hparts : hasEmptyPart field arrayOfNumbersDelimiter = false := by
    rw [Bool.eq_false_iff]
    intro hempty
    rw [hasEmptyPart_iff, ← r.texts_eq] at hempty
    exact (r.separate [] hempty).1 rfl
  rw [acceptsField, hparts, ← r.texts_eq, forall₂_fits r.written]
  rfl

/-- **Schedules.**  A schedule text is accepted exactly if all its items fit. -/
theorem Reading.accepted_iff {s : CString} (r : Reading s) (error : Option CronParseError) :
    (parseWithError s error).1.isSome = true ↔ r.Fits := by
  have hne : s ≠ [] := by
    rintro rfl
    have hsplit := r.split_eq
    exact absurd (congrArg List.length hsplit) (by simp [strSplit, strSplitLoop, fieldTypes])
  have htext : acceptsText s = fieldTypes.all fun type => acceptsField type (r.text type) := by
    rw [acceptsText, if_neg hne, r.split_eq]
    rfl
  rw [isSome_parseWithError, htext, List.all_eq_true]
  unfold Reading.Fits
  refine ⟨fun h type => ?_, fun h type _ => ?_⟩
  · have haccepted := h type (by cases type <;> decide)
    rw [(r.field type).accepted, List.all_eq_true] at haccepted
    exact haccepted
  · rw [(r.field type).accepted, List.all_eq_true]
    exact h type

end NedoCron

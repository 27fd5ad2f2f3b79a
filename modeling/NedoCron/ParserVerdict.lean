import NedoCron.ParserSound

namespace NedoCron

/-!
# nedo_cron — which texts the parser accepts

The answer of a parsing function depends on nothing but the text: neither on the schedule that
is being filled nor on the error record.  `Judges` says so of a function, together with what it
does to the error record: nothing when it accepts, one message about one token when it rejects.

* `rangeFits` — the ranges the filling loop accepts, in closed form;
* `acceptsItem`, `acceptsField` — the answers of the parsing functions as predicates on texts;
* `judges_parseFieldItem`, `parseItems_verdict` — the functions give these answers, and a
  rejecting one reports the item at fault.
-/

/-! ### Verdicts -/

/-- From every state the function answers `ok`.  If it accepts, it leaves the error record
    alone; if it rejects, it writes one message, with the given place and token. -/
structure Judges (x : Parse Bool) (ok : Bool) (fieldIndex tokenIndex : Int) (token : CString) :
    Prop where
  answer : ∀ st, (x.run st).1 = ok
  accepts : ok = true → ∀ st, (x.run st).2.error = st.error
  rejects : ok = false → ∃ message, message ≠ [] ∧ ∀ st,
    (x.run st).2.error = st.error.map fun _ => ⟨message, token.take 63, fieldIndex, tokenIndex⟩

/-- Changing the schedule only. -/
theorem judges_fill (g : CronSchedule → CronSchedule) (fieldIndex tokenIndex : Int)
    (token : CString) :
    Judges (do modify fun st => { st with scheduler := g st.scheduler }; return true) true
      fieldIndex tokenIndex token where
  answer st := rfl
  accepts _ st := rfl
  rejects h := absurd h (by simp)

/-- A run of a sequence, part by part. -/
theorem run_bind {α β : Type} (x : Parse α) (f : α → Parse β) (st : ParseState) :
    (x >>= f).run st = (f (x.run st).1).run (x.run st).2 := rfl

/-- Reporting an error and giving up. -/
theorem judges_reported {fmt : CString} {args : List FmtArg} (h : vsnprintf [] 256 fmt args ≠ [])
    (fieldIndex tokenIndex : Int) (token : CString) :
    Judges (do reportError fieldIndex tokenIndex token fmt args; return false) false fieldIndex
      tokenIndex token where
  answer st := rfl
  accepts h := absurd h (by simp)
  rejects _ := ⟨_, h, fun st => rfl⟩

/-- One function after the other, if the first one accepts. -/
theorem Judges.seq {x y : Parse Bool} {ok ok' : Bool} {fieldIndex tokenIndex : Int}
    {token : CString} (hx : Judges x ok fieldIndex tokenIndex token)
    (hy : ok = true → Judges y ok' fieldIndex tokenIndex token) :
    Judges (do if (← x) then y else return false) (ok && ok') fieldIndex tokenIndex token := by
  have hrun : ∀ st, (do if (← x) then y else return false : Parse Bool).run st =
      (if ok then y else pure false : Parse Bool).run (x.run st).2 := by
    intro st
    rw [run_bind, hx.answer st]
  cases ok with
  | false =>
    refine ⟨fun st => by rw [hrun st]; rfl, fun h => absurd h (by simp), fun _ => ?_⟩
    obtain ⟨message, hmessage, herror⟩ := hx.rejects rfl
    exact ⟨message, hmessage, fun st => by rw [hrun st]; exact herror st⟩
  | true =>
    refine ⟨fun st => ?_, fun h st => ?_, fun h => ?_⟩
    · rw [hrun st]; exact (hy rfl).answer _
    · rw [hrun st]
      exact ((hy rfl).accepts h _).trans (hx.accepts rfl st)
    -- the first function has left the record alone, so the second one writes to it
    · obtain ⟨message, hmessage, herror⟩ := (hy rfl).rejects h
      refine ⟨message, hmessage, fun st => ?_⟩
      rw [hrun st]
      exact (herror _).trans (by rw [hx.accepts rfl st])

/-! ### Values and ranges -/

/-- The value lies within the bounds of the field. -/
def inBounds (type : FieldType) (value : Int) : Bool :=
  decide ((getBounds type).1 ≤ value) && decide (value ≤ (getBounds type).2)

/-- The test of the bounds. -/
theorem inBounds_eq_true {type : FieldType} {value : Int} :
    inBounds type value = true ↔ (getBounds type).1 ≤ value ∧ value ≤ (getBounds type).2 := by
  simp [inBounds]

/-- A single value passes if it is in bounds. -/
theorem judges_setFieldValue (type : FieldType) (value fieldIndex tokenIndex : Int)
    (token : CString) :
    Judges (setFieldValue type value fieldIndex tokenIndex token) (inBounds type value) fieldIndex
      tokenIndex token := by
  unfold setFieldValue
  split
  · rename_i h
    rw [inBounds_eq_true.mpr h]
    exact judges_fill (fun s => s.mark type value h) fieldIndex tokenIndex token
  · rename_i h
    rw [Bool.eq_false_iff.mpr fun hin => h (inBounds_eq_true.mp hin)]
    refine judges_reported ?_ _ _ _
    cases type <;> decide +kernel

/-- The last value of a progression from `start` that does not pass `finish`. -/
def lastValue (start finish step : Int) : Int := start + (finish - start) / step * step

/-- A step over the end leaves the first value alone. -/
theorem lastValue_of_gt {start finish step : Int} (hle : start ≤ finish)
    (hgt : finish < start + step) : lastValue start finish step = start := by
  unfold lastValue
  rw [Int.ediv_eq_zero_of_lt (by omega) (by omega)]
  omega

/-- The last value is that of the rest. -/
theorem lastValue_next {start finish step : Int} (hstep : 0 < step) :
    lastValue (start + step) finish step = lastValue start finish step := by
  have hdiv : (finish - start) / step = (finish - (start + step)) / step + 1 := by
    have hsplit : finish - start = finish - (start + step) + 1 * step := by omega
    rw [hsplit, Int.add_mul_ediv_right _ _ (by omega)]
  unfold lastValue
  rw [hdiv, Int.add_mul, Int.one_mul]
  omega

/-- The last value is not before the first. -/
theorem le_lastValue {start finish step : Int} (hstep : 0 < step) (hle : start ≤ finish) :
    start ≤ lastValue start finish step := by
  have hdiv : 0 ≤ (finish - start) / step := Int.ediv_nonneg (by omega) (by omega)
  have hmul : 0 ≤ (finish - start) / step * step := Int.mul_nonneg hdiv (by omega)
  unfold lastValue
  omega

/-- The last value is the one after which a step goes over the end. -/
theorem lastValue_le {start finish step : Int} (hstep : 0 < step) :
    lastValue start finish step ≤ finish ∧ finish < lastValue start finish step + step := by
  have hmod := Int.emod_add_mul_ediv (finish - start) step
  have hlow := Int.emod_nonneg (finish - start) (show step ≠ 0 by omega)
  have hhigh := Int.emod_lt_of_pos (finish - start) hstep
  unfold lastValue
  rw [Int.mul_comm] at hmod
  omega

/-- The ranges `set_field_range` accepts: every value it visits lies within the bounds, and the
    addition after the last one does not overflow. -/
def rangeFits (type : FieldType) (start finish step : Int) : Bool :=
  decide (0 < step) && decide (start ≤ finish) && decide ((getBounds type).1 ≤ start) &&
    decide (lastValue start finish step ≤ (getBounds type).2) &&
    decide (lastValue start finish step + step ≤ intMax)

/-- The test of a range: it ends in bounds, and one more step does not overflow. -/
theorem rangeFits_eq_true {type : FieldType} {start finish step : Int} :
    rangeFits type start finish step = true ↔ 0 < step ∧ start ≤ finish ∧
      (getBounds type).1 ≤ start ∧ lastValue start finish step ≤ (getBounds type).2 ∧
      lastValue start finish step + step ≤ intMax := by
  simp [rangeFits, and_assoc]

/-- A range fits if its first value does and the rest of it is empty or fits. -/
theorem rangeFits_next {type : FieldType} {value finish step : Int} (hstep : 0 < step)
    (hmax : step ≤ intMax) (hle : value ≤ finish) (hin : inBounds type value = true) :
    (decide (finish < toInt32 (value + step)) ||
      rangeFits type (toInt32 (value + step)) finish step) = rangeFits type value finish step := by
  have hlow := getBounds_nonneg type
  have hhigh := getBounds_le type
  obtain ⟨hge, hlast⟩ := inBounds_eq_true.mp hin
  rw [Bool.eq_iff_iff, Bool.or_eq_true, decide_eq_true_eq, rangeFits_eq_true, rangeFits_eq_true]
  by_cases hover : value + step ≤ intMax
  · rw [toInt32_of_mem (by omega) hover]
    by_cases hmore : value + step ≤ finish
    · rw [lastValue_next hstep]
      constructor
      · rintro (hgt | ⟨-, -, -, hfits⟩)
        · omega
        · exact ⟨hstep, hle, hge, hfits⟩
      · rintro ⟨-, -, -, hfits⟩
        exact Or.inr ⟨hstep, hmore, by omega, hfits⟩
    · rw [lastValue_of_gt hle (by omega)]
      constructor
      · intro _
        exact ⟨hstep, hle, hge, hlast, hover⟩
      · intro _
        exact Or.inl (by omega)
  · -- the sum wraps around to a negative value
    have hneg : toInt32 (value + step) < 0 := by
      unfold toInt32 intMax at *
      omega
    have hbelow := le_lastValue hstep hle
    constructor
    · rintro (hgt | ⟨-, -, hge', -⟩) <;> omega
    · rintro ⟨-, -, -, -, hnowrap⟩
      omega

/-- **The filling loop**, given turns enough. -/
theorem judges_setFieldRangeLoop (type : FieldType) {finish step : Int} (hstep : 0 < step)
    (hmax : step ≤ intMax) (fieldIndex tokenIndex : Int) (token : CString) {fuel : Nat}
    {value : Int} (hfuel : turnsFrom type value ≤ fuel) :
    Judges (setFieldRangeLoop type finish step fieldIndex tokenIndex token fuel value)
      (decide (finish < value) || rangeFits type value finish step) fieldIndex tokenIndex
      token := by
  induction fuel generalizing value with
  -- a value always has a turn left
  | zero => exact absurd (turnsFrom_pos type value) (by omega)
  | succ fuel ih =>
    rw [setFieldRangeLoop]
    by_cases hle : value ≤ finish
    · have hnot : decide (finish < value) = false := by simpa using hle
      have hanswer : rangeFits type value finish step = (inBounds type value &&
          (decide (finish < toInt32 (value + step)) ||
            rangeFits type (toInt32 (value + step)) finish step)) := by
        cases hin : inBounds type value with
        | true => rw [rangeFits_next hstep hmax hle hin, Bool.true_and]
        -- out of bounds at the start, or past the end by the last visited value
        | false =>
          rw [Bool.false_and, Bool.eq_false_iff]
          intro hfits
          obtain ⟨-, -, hge, hlast, -⟩ := rangeFits_eq_true.mp hfits
          have hbelow := le_lastValue hstep hle
          rw [inBounds_eq_true.mpr ⟨hge, by omega⟩] at hin
          exact absurd hin (by simp)
      rw [if_pos hle, hnot, Bool.false_or, hanswer]
      refine (judges_setFieldValue type value fieldIndex tokenIndex token).seq fun hin => ih ?_
      have hnext := turnsFrom_next hstep hmax (inBounds_eq_true.mp hin)
      omega
    · have hgt : decide (finish < value) = true := by simpa using hle
      rw [if_neg hle, hgt, Bool.true_or]
      exact ⟨fun st => rfl, fun _ st => rfl, fun h => absurd h (by simp)⟩

/-- **`set_field_range`** accepts the ranges that fit. -/
theorem judges_setFieldRange (type : FieldType) (start finish : Int) {step : Int}
    (hmax : step ≤ intMax) (fieldIndex tokenIndex : Int) (token : CString) :
    Judges (setFieldRange type start finish step fieldIndex tokenIndex token)
      (rangeFits type start finish step) fieldIndex tokenIndex token := by
  -- a step or ends that do not fit are rejected before the loop
  have hnot : ¬(0 < step ∧ start ≤ finish) → rangeFits type start finish step = false := by
    intro h
    rw [Bool.eq_false_iff]
    intro hfits
    obtain ⟨hstep, hle, -⟩ := rangeFits_eq_true.mp hfits
    exact h ⟨hstep, hle⟩
  unfold setFieldRange
  split
  · rw [hnot (by omega)]
    exact judges_reported (by decide +kernel) _ _ _
  · split
    · rw [hnot (by omega)]
      exact judges_reported (by decide +kernel) _ _ _
    · -- otherwise the loop decides
      have hle : decide (finish < start) = false := by simpa using by omega
      have hloop : Judges _ (decide (finish < start) || rangeFits type start finish step)
          fieldIndex tokenIndex token :=
        judges_setFieldRangeLoop type (by omega) hmax fieldIndex tokenIndex token
          (show turnsFrom type start ≤ 62 from Nat.le_succ_of_le (turnsFrom_le type start))
      rw [hle, Bool.false_or] at hloop
      exact hloop

/-! ### Items -/

/-- The answer for a range with a step. -/
def acceptsRange (type : FieldType) (text : CString) (step : Int) : Bool :=
  match parseRange type text with
  | none => false
  | some (start, finish) => rangeFits type start finish step

/-- The answer for what stands before and after a `/`. -/
def acceptsStep (type : FieldType) (base : CString) (step : Int) : Bool :=
  if step ≤ 0 then false
  else if isStar base then rangeFits type (getBounds type).1 (getBounds type).2 step
  else if type = .dom ∧ isLastDomToken base = true then
    rangeFits type (getBounds type).1 (getBounds type).2 step
  else if base.contains rangeOfNumbersDelimiter then acceptsRange type base step
  else false

/-- The answer of the step branch of `parse_field_item`. -/
def acceptsStepItem (type : FieldType) (item : CString) : Bool :=
  if hasEmptyPart item stepDelimiter then false
  else match strSplit item stepDelimiter with
    | [base, stepText] => (parseInteger stepText).any (acceptsStep type base)
    | _ => false

/-- The answer of `parse_field_item`. -/
def acceptsItem (type : FieldType) (item : CString) : Bool :=
  if item = [] then false
  else if isLastDomToken item then decide (type = .dom)
  else if isStar item then true
  else if item.contains stepDelimiter then acceptsStepItem type item
  else if item.contains rangeOfNumbersDelimiter then acceptsRange type item 1
  else (parseFieldValue type item).any (inBounds type)

/-- An item with a step passes if its verdict says so. -/
theorem judges_parseStepItem (type : FieldType) (item : CString) (fieldIndex tokenIndex : Int) :
    Judges (parseStepItem item type fieldIndex tokenIndex) (acceptsStepItem type item) fieldIndex
      tokenIndex item := by
  unfold parseStepItem acceptsStepItem
  split
  · apply judges_reported
    decide +kernel
  · rcases hsplit : strSplit item stepDelimiter with _ | ⟨base, _ | ⟨stepText, _ | ⟨more, rest⟩⟩⟩
    · exact judges_reported (by decide +kernel) _ _ _
    · exact judges_reported (by decide +kernel) _ _ _
    · dsimp only
      cases hnumber : parseInteger stepText with
      | none => exact judges_reported (by decide +kernel) _ _ _
      | some step =>
        -- what `parse_integer` admits is an `int`
        have hmax : step ≤ intMax := (parseInteger_eq_some.mp hnumber).2.2.2
        rw [Option.any_some, acceptsStep]
        dsimp only
        split
        · apply judges_reported
          decide +kernel
        · split
          · exact judges_setFieldRange type _ _ hmax _ _ _
          · split
            · exact judges_setFieldRange type _ _ hmax _ _ _
            · split
              · rw [acceptsRange]
                cases parseRange type base with
                | none =>
                  apply judges_reported
                  cases type <;> decide +kernel
                | some range => exact judges_setFieldRange type _ _ hmax _ _ _
              · apply judges_reported
                cases type <;> decide +kernel
    · exact judges_reported (by decide +kernel) _ _ _

/-- The whole range of a field fits. -/
theorem rangeFits_bounds (type : FieldType) :
    rangeFits type (getBounds type).1 (getBounds type).2 1 = true := by
  cases type <;> decide

/-- Filling the schedule after a function that accepts. -/
theorem Judges.fill {x : Parse Bool} {fieldIndex tokenIndex : Int} {token : CString}
    (hx : Judges x true fieldIndex tokenIndex token) (g : CronSchedule → CronSchedule) :
    Judges (do
      let ok ← x
      if ok then modify fun st => { st with scheduler := g st.scheduler }
      return ok) true fieldIndex tokenIndex token := by
  have hrun : ∀ st, (do
      let ok ← x
      if ok then modify fun st => { st with scheduler := g st.scheduler }
      return ok : Parse Bool).run st =
        (true, { (x.run st).2 with scheduler := g (x.run st).2.scheduler }) := by
    intro st
    rw [run_bind, hx.answer st]
    rfl
  exact ⟨fun st => by rw [hrun st], fun _ st => by rw [hrun st]; exact hx.accepts rfl st,
    fun h => absurd h (by simp)⟩

/-- **`parse_field_item`**, on its own. -/
theorem judges_parseFieldItem (type : FieldType) (item : CString) (fieldIndex tokenIndex : Int) :
    Judges (parseFieldItem item type fieldIndex tokenIndex) (acceptsItem type item) fieldIndex
      tokenIndex item := by
  unfold parseFieldItem acceptsItem
  split
  · apply judges_reported
    cases type <;> decide +kernel
  · split
    · split
      · rename_i htype
        rw [decide_eq_false htype]
        apply judges_reported
        decide +kernel
      · rename_i htype
        rw [decide_eq_true (not_not.mp htype)]
        exact judges_fill (fun s => { s with lastDom := true }) _ _ _
    · split
      · have hrange := judges_setFieldRange type (getBounds type).1 (getBounds type).2
          (show (1 : Int) ≤ intMax by decide) fieldIndex tokenIndex item
        -- a bare star never fails, so the field is always marked
        rw [rangeFits_bounds] at hrange
        exact hrange.fill fun s => markStarField s type
      · split
        · exact judges_parseStepItem type item fieldIndex tokenIndex
        · split
          · rw [acceptsRange]
            cases parseRange type item with
            | none =>
              apply judges_reported
              cases type <;> decide +kernel
            | some range => exact judges_setFieldRange type _ _ (by decide) _ _ _
          · cases parseFieldValue type item with
            | some value => exact judges_setFieldValue type _ _ _ _
            | none =>
              apply judges_reported
              cases type <;> decide +kernel

/-! ### Empty parts -/

/-- Two delimiters side by side have an empty part between them. -/
theorem nil_mem_strSplitLoop_of_adjacent {delim : UInt8} {part p : CString}
    (h : hasAdjacent delim p = true) : [] ∈ strSplitLoop delim part p := by
  induction p generalizing part with
  | nil => cases h
  | cons a p ih =>
    cases p with
    | nil => cases h
    | cons b p =>
      rw [hasAdjacent, Bool.or_eq_true, Bool.and_eq_true, beq_iff_eq, beq_iff_eq] at h
      rw [strSplitLoop]
      rcases h with ⟨ha, hb⟩ | h
      · rw [if_pos ha, strSplitLoop, if_pos hb]
        simp
      · split
        · exact List.mem_cons_of_mem _ (ih h)
        · exact ih h

/-- A delimiter at the end has an empty part after it. -/
theorem nil_mem_strSplitLoop_of_last {delim : UInt8} {part p : CString}
    (h : p.getLast? = some delim) : [] ∈ strSplitLoop delim part p := by
  induction p generalizing part with
  | nil => cases h
  | cons a p ih =>
    rw [strSplitLoop]
    cases p with
    | nil =>
      obtain rfl : a = delim := Option.some.inj h
      rw [if_pos rfl]
      simp [strSplitLoop]
    | cons b p =>
      rw [List.getLast?_cons_cons] at h
      split
      · exact List.mem_cons_of_mem _ (ih h)
      · exact ih h

/-- **`has_empty_part`** finds exactly the strings with an empty part. -/
theorem hasEmptyPart_iff (s : CString) (delim : UInt8) :
    hasEmptyPart s delim = true ↔ [] ∈ strSplit s delim := by
  constructor
  · intro h
    unfold hasEmptyPart at h
    simp only [Bool.or_eq_true, beq_iff_eq] at h
    -- empty, at the start, at the end, or between two delimiters
    rcases h with ⟨rfl | hhead | hlast⟩ | hadjacent
    · simp [strSplit, strSplitLoop]
    · cases s with
      | nil => cases hhead
      | cons a s =>
        obtain rfl : a = delim := Option.some.inj hhead
        rw [strSplit, strSplitLoop, if_pos rfl]
        exact List.mem_cons_self
    · exact nil_mem_strSplitLoop_of_last hlast
    · exact nil_mem_strSplitLoop_of_adjacent hadjacent
  · intro h
    by_contra hnot
    exact ne_nil_of_mem_strSplit (Bool.not_eq_true _ |>.mp hnot) h rfl

/-! ### Fields -/

/-- The answer of `parse_cron_field`. -/
def acceptsField (type : FieldType) (field : CString) : Bool :=
  !hasEmptyPart field arrayOfNumbersDelimiter &&
    (strSplit field arrayOfNumbersDelimiter).all (acceptsItem type)

/-- The first member of a list that is rejected, with the number of members before it. -/
def FirstRejected {α : Type} (accepts : α → Bool) (xs : List α) (n : Nat) (x : α) : Prop :=
  xs[n]? = some x ∧ accepts x = false ∧
    ∀ m y, m < n → xs[m]? = some y → accepts y = true

theorem firstRejected_head {α : Type} {accepts : α → Bool} {x : α} (h : accepts x = false)
    (xs : List α) : FirstRejected accepts (x :: xs) 0 x :=
  ⟨rfl, h, fun m _ hm => absurd hm (by omega)⟩

/-- One more that is accepted comes before. -/
theorem FirstRejected.cons {α : Type} {accepts : α → Bool} {xs : List α} {n : Nat} {x y : α}
    (h : FirstRejected accepts xs n x) (hy : accepts y = true) :
    FirstRejected accepts (y :: xs) (n + 1) x := by
  refine ⟨h.1, h.2.1, fun m z hm hz => ?_⟩
  cases m with
  | zero =>
    obtain rfl := Option.some.inj hz
    exact hy
  | succ m => exact h.2.2 m z (by omega) hz

/-- From every state the function accepts and leaves the error record alone. -/
def Passes (x : Parse Bool) : Prop :=
  ∀ st, (x.run st).1 = true ∧ (x.run st).2.error = st.error

/-- The items of a field: either all of them are accepted, or the first that is not is
    reported. -/
theorem parseItems_verdict (type : FieldType) (fieldIndex : Int) (items : List CString)
    (i : Int) :
    (items.all (acceptsItem type) = true ∧ Passes (parseItems type fieldIndex items i)) ∨
    ∃ n item, FirstRejected (acceptsItem type) items n item ∧
      Judges (parseItems type fieldIndex items i) false fieldIndex (i + n) item := by
  induction items generalizing i with
  | nil => exact Or.inl ⟨rfl, fun st => ⟨rfl, rfl⟩⟩
  | cons item items ih =>
    have hitem := judges_parseFieldItem type item fieldIndex i
    cases hok : acceptsItem type item with
    | true =>
      rw [hok] at hitem
      have hrun : ∀ st, (parseItems type fieldIndex (item :: items) i).run st =
          (parseItems type fieldIndex items (i + 1)).run
            ((parseFieldItem item type fieldIndex i).run st).2 := by
        intro st
        rw [parseItems, run_bind, hitem.answer st, if_pos rfl]
      rcases ih (i + 1) with ⟨hall, hrest⟩ | ⟨n, other, hfirst, hrest⟩
      · refine Or.inl ⟨by rw [List.all_cons, hok, hall]; rfl, fun st => ?_⟩
        rw [hrun st]
        exact ⟨(hrest _).1, (hrest _).2.trans (hitem.accepts rfl st)⟩
      · refine Or.inr ⟨n + 1, other, hfirst.cons hok, ?_⟩
        obtain ⟨message, hmessage, herror⟩ := hrest.rejects rfl
        refine ⟨fun st => by rw [hrun st]; exact hrest.answer _, fun h => absurd h (by simp),
          fun _ => ⟨message, hmessage, fun st => ?_⟩⟩
        rw [hrun st, herror, hitem.accepts rfl st,
          show i + 1 + (n : Int) = i + ((n + 1 : Nat) : Int) by omega]
    | false =>
      rw [hok] at hitem
      obtain ⟨message, hmessage, herror⟩ := hitem.rejects rfl
      -- the message of the item is kept, since it is not empty
      have hrun : ∀ st, (parseItems type fieldIndex (item :: items) i).run st =
          (false, ((parseFieldItem item type fieldIndex i).run st).2) := by
        intro st
        have hkept : (((parseFieldItem item type fieldIndex i).run st).2.error.any
            fun e => e.message == []) = false := by
          rw [herror st]
          cases st.error <;> simp [hmessage]
        rw [parseItems, run_bind, hitem.answer st, if_neg Bool.false_ne_true, run_bind]
        show (if (((parseFieldItem item type fieldIndex i).run st).2.error.any
            fun e => e.message == []) = true then _ else _ : Parse Bool).run _ = _
        rw [hkept, if_neg Bool.false_ne_true]
        rfl
      refine Or.inr ⟨0, item, firstRejected_head hok items, fun st => by rw [hrun st],
        fun h => absurd h (by simp), fun _ => ⟨message, hmessage, fun st => ?_⟩⟩
      rw [hrun st, herror st, show i + ((0 : Nat) : Int) = i by omega]

end NedoCron

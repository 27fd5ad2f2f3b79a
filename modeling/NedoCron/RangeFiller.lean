import NedoCron.Lib.Loop
import NedoCron.ParserSound

namespace NedoCron

/-!
# nedo_cron — the range filler ends and stays in bounds

`set_field_range` at the level of the machine: 32-bit counters, a loop that nothing bounds, and
assignments to array entries that are undefined outside of the array.

* `assignFieldValue`, `fillLoop`, `RangeRuns` — the C functions at this level, with every
  assignment they make and every call of `set_field_value`;
* `assignFieldValue_spec` — `set_field_value` is always defined, and does what `setFieldValue` says;
* `fillLoop_runs` — the loop ends, after at most 60 values;
* `rangeRuns_unique`, `RangeRuns.run_eq` — the execution is unique, and is that of
  `setFieldRange`, whose bound on the turns is never used up;
* `setFieldRange_ends` — the range filler on all inputs.
-/

/-! ### Arrays -/

/-- The lengths of the arrays of `CronSchedule`. -/
def arrayLength : FieldType → Nat
  | .minute => 60
  | .hour => 24
  | .dom => 32
  | .m => 13
  | .dow => 7

/-- An assignment to an entry of the array of a field. -/
structure ArrayWrite where
  array : FieldType
  index : Int
  deriving DecidableEq

/-- The entry is one of the array, and not the unused first one of `dayOfMonth` or `month`. -/
structure ArrayWrite.InBounds (write : ArrayWrite) : Prop where
  nonneg : 0 ≤ write.index
  lt_length : write.index < arrayLength write.array
  ne_zero : write.array = .dom ∨ write.array = .m → write.index ≠ 0

/-- What the filling functions work on, and the assignments to array entries so far. -/
structure FillState where
  parse : ParseState
  writes : List ArrayWrite

/-- `bits[index] = true`; outside of the array this is undefined. -/
def assignBit {size : Nat} (bits : Vector Bool size) (index : Int) : Option (Vector Bool size) :=
  if h : 0 ≤ index ∧ index < size then some (bits.set index.toNat true (by omega)) else none

/-- An assignment to an entry of the array of a field. -/
def CronSchedule.assign (s : CronSchedule) (write : ArrayWrite) : Option CronSchedule :=
  match write.array with
  | .minute => (assignBit s.minute write.index).map fun bits => { s with minute := bits }
  | .hour => (assignBit s.hour write.index).map fun bits => { s with hour := bits }
  | .dom => (assignBit s.dayOfMonth write.index).map fun bits => { s with dayOfMonth := bits }
  | .m => (assignBit s.month write.index).map fun bits => { s with month := bits }
  | .dow => (assignBit s.dayOfWeek write.index).map fun bits => { s with dayOfWeek := bits }

def FillState.assign (st : FillState) (write : ArrayWrite) : Option FillState :=
  (st.parse.scheduler.assign write).map fun s =>
    { parse := { st.parse with scheduler := s }, writes := st.writes ++ [write] }

/-- `set_parse_error` on the error record at hand. -/
def FillState.report (st : FillState) (fieldIndex tokenIndex : Int) (token fmt : CString)
    (args : List FmtArg) : FillState :=
  { st with parse := ((reportError fieldIndex tokenIndex token fmt args).run st.parse).2 }

/-! ### The code -/

/-- `set_field_value`. -/
def assignFieldValue (type : FieldType) (fieldIndex tokenIndex : Int) (token : CString)
    (value : Int32) (st : FillState) : Option (Bool × FillState) :=
  if value.toInt < (getBounds type).1 ∨ value.toInt > (getBounds type).2 then
    some (false, st.report fieldIndex tokenIndex token (ascii "%s must be %d-%d")
      [.str (fieldName type), .int (getBounds type).1, .int (getBounds type).2])
  else
    match type with
    | .minute => (st.assign ⟨.minute, value.toInt⟩).map (true, ·)
    | .hour => (st.assign ⟨.hour, value.toInt⟩).map (true, ·)
    | .m => (st.assign ⟨.m, value.toInt⟩).map (true, ·)
    | .dom => (st.assign ⟨.dom, value.toInt⟩).map (true, ·)
    | .dow =>
      let value := if value = 7 then 0 else value
      (st.assign ⟨.dow, value.toInt⟩).map (true, ·)

/-- The loop `for (value = start; value <= finish; value += step)` of `set_field_range`; the
    addition of `Int32` wraps around. -/
def fillLoop (type : FieldType) (finish step : Int32) (fieldIndex tokenIndex : Int)
    (token : CString) : ForLoop FillState Int32 where
  test value := decide (value ≤ finish)
  body := assignFieldValue type fieldIndex tokenIndex token
  next value := value + step

/-- The executions of `set_field_range`: from the first state to the last one, it calls
    `set_field_value` with success for the values `done`, then without success for the value
    `failed` if there is one, and returns `ok`. -/
inductive RangeRuns (type : FieldType) (start finish step : Int32) (fieldIndex tokenIndex : Int)
    (token : CString) : FillState → List Int32 → Option Int32 → Bool → FillState → Prop
  | badStep {st : FillState} (hstep : step ≤ 0) :
    RangeRuns type start finish step fieldIndex tokenIndex token st [] none false
      (st.report fieldIndex tokenIndex token (ascii "step must be greater than 0") [])
  | badRange {st : FillState} (hstep : ¬step ≤ 0) (hrange : start > finish) :
    RangeRuns type start finish step fieldIndex tokenIndex token st [] none false
      (st.report fieldIndex tokenIndex token
        (ascii "range start must be less than or equal to range end") [])
  | loop {st st' : FillState} {done : List Int32} {failed : Option Int32} (hstep : ¬step ≤ 0)
    (hrange : ¬start > finish)
    (hruns :
      (fillLoop type finish step fieldIndex tokenIndex token).Runs start st done failed st') :
    RangeRuns type start finish step fieldIndex tokenIndex token st done failed failed.isNone st'

/-! ### One call -/

/-- An assignment is defined within the array. -/
theorem isSome_assignBit {size : Nat} (bits : Vector Bool size) (index : Int) :
    (assignBit bits index).isSome = true ↔ 0 ≤ index ∧ index < size := by
  unfold assignBit
  split
  · rename_i h
    simpa using h
  · rename_i h
    simpa using h

/-- An assignment is defined for the entries of the array, and for no others. -/
theorem isSome_assign (s : CronSchedule) (write : ArrayWrite) :
    (s.assign write).isSome = true ↔
      0 ≤ write.index ∧ write.index < arrayLength write.array := by
  obtain ⟨array, index⟩ := write
  cases array <;> simp only [CronSchedule.assign, Option.isSome_map] <;>
    exact isSome_assignBit _ index

/-- Assigning to the entry of a value within the bounds marks the value. -/
theorem assign_mark (s : CronSchedule) (type : FieldType) (v : Int)
    (h : (getBounds type).1 ≤ v ∧ v ≤ (getBounds type).2) :
    s.assign ⟨type, foldValue type v⟩ = some (s.mark type v h) := by
  cases type with
  | dow =>
    simp only [getBounds] at h
    simp only [CronSchedule.assign, assignBit, foldValue, CronSchedule.mark, true_and]
    rw [dif_pos (by split <;> omega)]
    rfl
  | _ =>
    simp only [getBounds] at h
    simp only [CronSchedule.assign, assignBit, foldValue, CronSchedule.mark, reduceCtorEq,
      false_and, if_false]
    rw [dif_pos (by omega)]
    rfl

/-- The index of a day of the week is its folded value. -/
theorem toInt_fold (value : Int32) :
    (if value = 7 then 0 else value : Int32).toInt = foldValue .dow value.toInt := by
  by_cases h : value = 7
  · rw [if_pos h, h]
    rfl
  · have hne : value.toInt ≠ 7 := fun heq => h (Int32.toInt_inj.mp heq)
    simp [foldValue, h, hne]

/-- **`set_field_value`** accepts a value within the bounds, and makes one assignment. -/
theorem assignFieldValue_true {type : FieldType} {value : Int32} (fieldIndex tokenIndex : Int)
    (token : CString) (st : FillState)
    (h : (getBounds type).1 ≤ value.toInt ∧ value.toInt ≤ (getBounds type).2) :
    assignFieldValue type fieldIndex tokenIndex token value st =
      some (true, { parse := { st.parse with
                      scheduler := st.parse.scheduler.mark type value.toInt h }
                    writes := st.writes ++ [⟨type, foldValue type value.toInt⟩] }) := by
  have hassign : st.assign ⟨type, foldValue type value.toInt⟩ = some
      { parse := { st.parse with scheduler := st.parse.scheduler.mark type value.toInt h }
        writes := st.writes ++ [⟨type, foldValue type value.toInt⟩] } := by
    rw [FillState.assign, assign_mark _ _ _ h]
    rfl
  unfold assignFieldValue
  rw [if_neg (by omega)]
  cases type with
  | dow =>
    rw [← toInt_fold] at hassign ⊢
    exact congrArg (Option.map (true, ·)) hassign
  | _ => exact congrArg (Option.map (true, ·)) hassign

/-- It rejects every other value, and assigns nothing. -/
theorem assignFieldValue_false {type : FieldType} {value : Int32} (fieldIndex tokenIndex : Int)
    (token : CString) (st : FillState)
    (h : ¬((getBounds type).1 ≤ value.toInt ∧ value.toInt ≤ (getBounds type).2)) :
    assignFieldValue type fieldIndex tokenIndex token value st =
      some (false, st.report fieldIndex tokenIndex token (ascii "%s must be %d-%d")
        [.str (fieldName type), .int (getBounds type).1, .int (getBounds type).2]) := by
  unfold assignFieldValue
  rw [if_pos (by omega)]

/-- From one state to the other, the values are assigned in order, and nothing else changes in the
    schedule. -/
structure Assigns (type : FieldType) (values : List Int32) (st st' : FillState) : Prop where
  writes : st'.writes = st.writes ++ values.map fun v => ⟨type, foldValue type v.toInt⟩
  fills : Fills type {v | ∃ w ∈ values, w.toInt = v} st.parse.scheduler st'.parse.scheduler

theorem Assigns.nil {type : FieldType} {st st' : FillState} (hwrites : st'.writes = st.writes)
    (hscheduler : st'.parse.scheduler = st.parse.scheduler) : Assigns type [] st st' where
  writes := by simp [hwrites]
  fills := by
    rw [hscheduler]
    simpa using Fills.none type st.parse.scheduler

/-- Values assigned after each other. -/
theorem Assigns.append {type : FieldType} {values values' : List Int32} {st st' st'' : FillState}
    (h : Assigns type values st st') (h' : Assigns type values' st' st'') :
    Assigns type (values ++ values') st st'' where
  writes := by rw [h'.writes, h.writes, List.map_append, List.append_assoc]
  fills := by
    have hunion : {v | ∃ w ∈ values ++ values', w.toInt = v} =
        {v | ∃ w ∈ values, w.toInt = v} ∪ {v | ∃ w ∈ values', w.toInt = v} := by
      ext v
      simp only [List.mem_append, or_and_right, exists_or]
      rfl
    rw [hunion]
    exact h.fills.union h'.fills

/-- What a call of `set_field_value` does: as the model's function does, it accepts the values
    within the bounds, and assigns them. -/
structure FieldCall (type : FieldType) (fieldIndex tokenIndex : Int) (token : CString)
    (value : Int32) (st : FillState) (ok : Bool) (st' : FillState) : Prop where
  run : (setFieldValue type value.toInt fieldIndex tokenIndex token).run st.parse = (ok, st'.parse)
  accepts_iff : ok = true ↔ (getBounds type).1 ≤ value.toInt ∧ value.toInt ≤ (getBounds type).2
  assigns : Assigns type (if ok then [value] else []) st st'

/-- **Every call of `set_field_value` is defined.** -/
theorem exists_fieldCall (type : FieldType) (fieldIndex tokenIndex : Int) (token : CString)
    (value : Int32) (st : FillState) :
    ∃ ok st', assignFieldValue type fieldIndex tokenIndex token value st = some (ok, st') ∧
      FieldCall type fieldIndex tokenIndex token value st ok st' := by
  by_cases h : (getBounds type).1 ≤ value.toInt ∧ value.toInt ≤ (getBounds type).2
  · refine ⟨true, _, assignFieldValue_true fieldIndex tokenIndex token st h, ?_, by simpa using h,
      ?_, ?_⟩
    · unfold setFieldValue
      rw [dif_pos h]
      rfl
    · rfl
    · simpa using fills_mark st.parse.scheduler type value.toInt h
  · refine ⟨false, _, assignFieldValue_false fieldIndex tokenIndex token st h, ?_, by simpa using h,
      Assigns.nil rfl rfl⟩
    unfold setFieldValue
    rw [dif_neg h]
    rfl

/-- What a call is known to do when it is defined. -/
theorem fieldCall_of_eq {type : FieldType} {fieldIndex tokenIndex : Int} {token : CString}
    {value : Int32} {st st' : FillState} {ok : Bool}
    (h : assignFieldValue type fieldIndex tokenIndex token value st = some (ok, st')) :
    FieldCall type fieldIndex tokenIndex token value st ok st' := by
  obtain ⟨ok', t, heq, hcall⟩ := exists_fieldCall type fieldIndex tokenIndex token value st
  obtain ⟨rfl, rfl⟩ : ok' = ok ∧ t = st' := by simpa [heq] using h
  exact hcall

/-! ### The loop -/

/-- The addition of the counters is the model's. -/
theorem toInt_add_eq (a b : Int32) : (a + b).toInt = toInt32 (a.toInt + b.toInt) := by
  rw [Int32.toInt_add, Int.bmod_def, toInt32]
  split <;> omega

/-- An `int` is at most `INT_MAX`. -/
theorem toInt_le_intMax (a : Int32) : a.toInt ≤ intMax := by
  have := a.toInt_lt
  unfold intMax
  omega

section
variable {type : FieldType} {finish step : Int32} {fieldIndex tokenIndex : Int} {token : CString}

/-- **The loop ends.**  An overflowing addition gives a negative number, which `set_field_value`
    rejects, so no value is visited twice and at most 60 are accepted. -/
theorem fillLoop_runs (hstep : ¬step ≤ 0) (value : Int32) (st : FillState) :
    ∃ done failed st', (fillLoop type finish step fieldIndex tokenIndex token).Runs value st done
      failed st' ∧ done.length ≤ 60 := by
  rw [Int32.le_iff_toInt_le, Int32.toInt_zero] at hstep
  have hdown : ∀ v s t, (fillLoop type finish step fieldIndex tokenIndex token).test v = true →
      (fillLoop type finish step fieldIndex tokenIndex token).body v s = some (true, t) →
      turnsFrom type (v + step).toInt - 1 < turnsFrom type v.toInt - 1 := by
    intro v s t _ hbody
    have hnext := turnsFrom_next (by omega) (toInt_le_intMax step)
      ((fieldCall_of_eq hbody).accepts_iff.mp rfl)
    rw [← toInt_add_eq] at hnext
    have hpos := turnsFrom_pos type (v + step).toInt
    omega
  obtain ⟨done, failed, st', hruns, hlength⟩ := ForLoop.exists_runs
    (fun v => turnsFrom type v.toInt - 1)
    (fun v s _ => by
      obtain ⟨ok, t, hbody, _⟩ := exists_fieldCall type fieldIndex tokenIndex token v s
      exact ⟨ok, t, hbody⟩) hdown value st
  have hmost := turnsFrom_le type value.toInt
  exact ⟨done, failed, st', hruns, by omega⟩

/-- What the loop assigns are the values of its successful calls. -/
theorem fillLoop_assigns {value : Int32} {st st' : FillState} {done : List Int32}
    {failed : Option Int32}
    (h : (fillLoop type finish step fieldIndex tokenIndex token).Runs value st done failed st') :
    Assigns type done st st' :=
  h.relates (fun _ => Assigns.nil rfl rfl) (fun _ _ _ hbody => (fieldCall_of_eq hbody).assigns)
    fun v s s' _ _ hbody hrest =>
      Assigns.append (show Assigns type [v] s s' from (fieldCall_of_eq hbody).assigns) hrest

/-- Only values within the bounds are accepted. -/
theorem fillLoop_done {value : Int32} {st st' : FillState} {done : List Int32}
    {failed : Option Int32}
    (h : (fillLoop type finish step fieldIndex tokenIndex token).Runs value st done failed st') :
    ∀ v ∈ done, (getBounds type).1 ≤ v.toInt ∧ v.toInt ≤ (getBounds type).2 :=
  h.relates (R := fun done _ _ => ∀ v ∈ done, (getBounds type).1 ≤ v.toInt ∧
    v.toInt ≤ (getBounds type).2) (fun _ => by simp) (fun _ _ _ _ => by simp)
    fun _ _ _ _ _ hbody hrest => by
      simpa using ⟨(fieldCall_of_eq hbody).accepts_iff.mp rfl, hrest⟩

/-- The loop is the model's, whose bound on the turns is not used up. -/
theorem fillLoop_eq {value : Int32} {st st' : FillState} {done : List Int32}
    {failed : Option Int32} {fuel : Nat}
    (h : (fillLoop type finish step fieldIndex tokenIndex token).Runs value st done failed st')
    (hfuel : done.length < fuel) :
    (setFieldRangeLoop type finish.toInt step.toInt fieldIndex tokenIndex token fuel
      value.toInt).run st.parse = (failed.isNone, st'.parse) := by
  obtain ⟨fuel, rfl⟩ : ∃ n, fuel = n + 1 := ⟨fuel - 1, by omega⟩
  induction h generalizing fuel with
  | exit htest =>
    have hgt := mt Int32.le_iff_toInt_le.mpr (of_decide_eq_false htest)
    rw [setFieldRangeLoop, if_neg hgt]
    rfl
  | leave htest hbody =>
    have hle := Int32.le_iff_toInt_le.mp (of_decide_eq_true htest)
    rw [setFieldRangeLoop, if_pos hle, run_bind_eq]
    exact ⟨false, _, (fieldCall_of_eq hbody).run, rfl⟩
  | turn htest hbody _ ih =>
    have hle := Int32.le_iff_toInt_le.mp (of_decide_eq_true htest)
    rw [setFieldRangeLoop, if_pos hle, run_bind_eq]
    refine ⟨true, _, (fieldCall_of_eq hbody).run, ?_⟩
    rw [List.length_cons] at hfuel
    obtain ⟨fuel, rfl⟩ : ∃ n, fuel = n + 1 := ⟨fuel - 1, by omega⟩
    rw [← toInt_add_eq]
    exact ih fuel (by omega)

/-- A negative value is rejected, so a run that comes to one fails. -/
theorem fillLoop_failed {value : Int32} {st st' : FillState} {done : List Int32}
    {failed : Option Int32} (hneg : value.toInt < 0) (hle : value.toInt ≤ finish.toInt)
    (h : (fillLoop type finish step fieldIndex tokenIndex token).Runs value st done failed st') :
    failed ≠ none := by
  cases h with
  | exit htest => exact absurd (Int32.le_iff_toInt_le.mpr hle) (of_decide_eq_false htest)
  | leave => simp
  | turn _ hbody =>
    have hlow := getBounds_nonneg type
    have hbounds := (fieldCall_of_eq hbody).accepts_iff.mp rfl
    omega

/-- A run without a failing call visits the progression. -/
theorem fillLoop_progression {value : Int32} {st st' : FillState} {done : List Int32}
    {failed : Option Int32} (hstep : ¬step ≤ 0)
    (h : (fillLoop type finish step fieldIndex tokenIndex token).Runs value st done failed st')
    (hfailed : failed = none) :
    {v | ∃ w ∈ done, w.toInt = v} = progression value.toInt finish.toInt step.toInt := by
  have hpos : 0 < step.toInt := by
    rw [Int32.le_iff_toInt_le, Int32.toInt_zero] at hstep
    omega
  induction h with
  | exit htest =>
    have hgt := mt Int32.le_iff_toInt_le.mpr (of_decide_eq_false htest)
    rw [progression_empty hpos (by omega)]
    simp
  | leave _ _ => simp at hfailed
  | @turn v s s' t done left htest hbody hrest ih =>
    have hle := Int32.le_iff_toInt_le.mp (of_decide_eq_true htest)
    have hbounds := (fieldCall_of_eq hbody).accepts_iff.mp rfl
    have hlow := getBounds_nonneg type
    have hhigh := getBounds_le type
    -- after an overflow the next value would be negative
    have hnext : (v + step).toInt = v.toInt + step.toInt := by
      have hmax := toInt_le_intMax step
      rw [toInt_add_eq]
      refine toInt32_of_mem (by omega) ?_
      by_contra hover
      have hneg : (v + step).toInt < 0 := by
        rw [toInt_add_eq]
        unfold toInt32 intMax at *
        omega
      exact fillLoop_failed hneg (by omega) hrest hfailed
    rw [progression_cons step.toInt hle, ← hnext]
    have hrest' : {x | ∃ w ∈ done, w.toInt = x} =
        progression (v + step).toInt finish.toInt step.toInt := ih hfailed
    rw [← hrest']
    ext x
    simp only [List.exists_mem_cons_iff]
    exact or_congr_left eq_comm

end

/-! ### The function -/

section
variable {type : FieldType} {start finish step : Int32} {fieldIndex tokenIndex : Int}
  {token : CString}

/-- `set_field_range` has at most one execution. -/
theorem rangeRuns_unique {st t t' : FillState} {done done' : List Int32}
    {failed failed' : Option Int32} {ok ok' : Bool}
    (h : RangeRuns type start finish step fieldIndex tokenIndex token st done failed ok t)
    (h' : RangeRuns type start finish step fieldIndex tokenIndex token st done' failed' ok' t') :
    done = done' ∧ failed = failed' ∧ ok = ok' ∧ t = t' := by
  cases h with
  | badStep hstep =>
    cases h' with
    | badStep => exact ⟨rfl, rfl, rfl, rfl⟩
    | badRange hstep' => exact absurd hstep hstep'
    | loop hstep' => exact absurd hstep hstep'
  | badRange hstep hrange =>
    cases h' with
    | badStep hstep' => exact absurd hstep' hstep
    | badRange => exact ⟨rfl, rfl, rfl, rfl⟩
    | loop _ hrange' => exact absurd hrange hrange'
  | loop hstep hrange hruns =>
    cases h' with
    | badStep hstep' => exact absurd hstep' hstep
    | badRange _ hrange' => exact absurd hrange' hrange
    | loop _ _ hruns' =>
      obtain ⟨rfl, rfl, rfl⟩ := hruns.unique hruns'
      exact ⟨rfl, rfl, rfl, rfl⟩

/-- **Every call of `set_field_range` returns**, after at most 60 successful calls. -/
theorem exists_rangeRuns (type : FieldType) (start finish step : Int32)
    (fieldIndex tokenIndex : Int) (token : CString) (st : FillState) :
    ∃ done failed ok st', RangeRuns type start finish step fieldIndex tokenIndex token st done
      failed ok st' ∧ done.length ≤ 60 := by
  by_cases hstep : step ≤ 0
  · exact ⟨_, _, _, _, .badStep hstep, by simp⟩
  · by_cases hrange : start > finish
    · exact ⟨_, _, _, _, .badRange hstep hrange, by simp⟩
    · obtain ⟨done, failed, st', hruns, hlength⟩ := fillLoop_runs hstep start st
      exact ⟨_, _, _, _, .loop hstep hrange hruns, hlength⟩

/-- The execution is that of the model's function. -/
theorem RangeRuns.run_eq {st st' : FillState} {done : List Int32} {failed : Option Int32}
    {ok : Bool}
    (h : RangeRuns type start finish step fieldIndex tokenIndex token st done failed ok st')
    (hlength : done.length ≤ 60) :
    (setFieldRange type start.toInt finish.toInt step.toInt fieldIndex tokenIndex token).run
      st.parse = (ok, st'.parse) := by
  have hstep_iff : step ≤ 0 ↔ step.toInt ≤ 0 := Int32.le_iff_toInt_le
  have hrange_iff : start > finish ↔ start.toInt > finish.toInt := Int32.lt_iff_toInt_lt
  unfold setFieldRange
  cases h with
  | badStep hstep =>
    rw [if_pos (hstep_iff.mp hstep)]
    rfl
  | badRange hstep hrange =>
    rw [if_neg (mt hstep_iff.mpr hstep), if_pos (hrange_iff.mp hrange)]
    rfl
  | loop hstep hrange hruns =>
    rw [if_neg (mt hstep_iff.mpr hstep), if_neg (mt hrange_iff.mpr hrange)]
    exact fillLoop_eq hruns (by omega)

/-- A run of the loop assigns the values it has visited. -/
theorem RangeRuns.assigns {st st' : FillState} {done : List Int32} {failed : Option Int32}
    {ok : Bool}
    (h : RangeRuns type start finish step fieldIndex tokenIndex token st done failed ok st') :
    Assigns type done st st' := by
  cases h with
  | badStep => exact Assigns.nil rfl rfl
  | badRange => exact Assigns.nil rfl rfl
  | loop _ _ hruns => exact fillLoop_assigns hruns

/-- What it has visited is in bounds. -/
theorem RangeRuns.inBounds {st st' : FillState} {done : List Int32} {failed : Option Int32}
    {ok : Bool}
    (h : RangeRuns type start finish step fieldIndex tokenIndex token st done failed ok st') :
    ∀ v ∈ done, (getBounds type).1 ≤ v.toInt ∧ v.toInt ≤ (getBounds type).2 := by
  cases h with
  | badStep => simp
  | badRange => simp
  | loop _ _ hruns => exact fillLoop_done hruns

/-- A run that succeeds has visited the whole progression. -/
theorem RangeRuns.done_eq {st st' : FillState} {done : List Int32} {failed : Option Int32}
    (h : RangeRuns type start finish step fieldIndex tokenIndex token st done failed true st') :
    {v | ∃ w ∈ done, w.toInt = v} = progression start.toInt finish.toInt step.toInt := by
  generalize hok : true = ok at h
  cases h with
  | badStep => cases hok
  | badRange => cases hok
  | loop hstep _ hruns =>
    exact fillLoop_progression hstep hruns (Option.isNone_iff_eq_none.mp hok.symm)

end

/-- The entry of a value within the bounds is one of the array, and not the unused first one. -/
theorem inBounds_of_value {type : FieldType} {v : Int}
    (h : (getBounds type).1 ≤ v ∧ v ≤ (getBounds type).2) :
    (⟨type, foldValue type v⟩ : ArrayWrite).InBounds := by
  -- the assignment is defined
  have hdefined := (isSome_assign CronSchedule.zero ⟨type, foldValue type v⟩).mp
    (by rw [assign_mark _ _ _ h]; rfl)
  refine ⟨hdefined.1, hdefined.2, ?_⟩
  rintro (rfl | rfl)
  · simp only [getBounds] at h
    simp only [foldValue, reduceCtorEq, false_and, if_false]
    omega
  · simp only [getBounds] at h
    simp only [foldValue, reduceCtorEq, false_and, if_false]
    omega

/-- **The range filler ends and stays in bounds.**  For every field and all 32-bit `start`, `finish`
    and `step`, `set_field_range` has exactly one execution, which is that of the model: at most
    60 calls of `set_field_value` succeed and at most one, the last, fails.  Every assignment is
    to an entry of the array of the field, never to the first one of `dayOfMonth` or `month`; the
    assigned entries are set, and nothing else in the schedule changes.  When it returns true, the
    entries are those of `start + k * step` up to `finish`, as mathematical integers. -/
theorem setFieldRange_ends (type : FieldType) (start finish step : Int32)
    (fieldIndex tokenIndex : Int) (token : CString) (st : ParseState) :
    ∃ done failed ok st' writes,
      RangeRuns type start finish step fieldIndex tokenIndex token ⟨st, []⟩ done failed ok
        ⟨st', writes⟩ ∧
      (∀ done' failed' ok' t, RangeRuns type start finish step fieldIndex tokenIndex token
        ⟨st, []⟩ done' failed' ok' t →
        done' = done ∧ failed' = failed ∧ ok' = ok ∧ t = ⟨st', writes⟩) ∧
      (setFieldRange type start.toInt finish.toInt step.toInt fieldIndex tokenIndex token).run st
        = (ok, st') ∧
      done.length ≤ 60 ∧
      writes = done.map (fun v => ⟨type, foldValue type v.toInt⟩) ∧
      (∀ write ∈ writes, write.array = type ∧ write.InBounds) ∧
      Fills type {v | ∃ w ∈ done, w.toInt = v} st.scheduler st'.scheduler ∧
      (ok = true → ∀ index, ⟨type, index⟩ ∈ writes ↔
        ∃ v ∈ progression start.toInt finish.toInt step.toInt, index = foldValue type v) := by
  obtain ⟨done, failed, ok, ⟨st', writes⟩, hruns, hlength⟩ :=
    exists_rangeRuns type start finish step fieldIndex tokenIndex token ⟨st, []⟩
  have hwrites : writes = done.map fun v => ⟨type, foldValue type v.toInt⟩ := by
    simpa using hruns.assigns.writes
  refine ⟨done, failed, ok, st', writes, hruns, fun _ _ _ _ h => rangeRuns_unique h hruns,
    hruns.run_eq hlength, hlength, hwrites, ?_, hruns.assigns.fills, ?_⟩
  · intro write hwrite
    rw [hwrites, List.mem_map] at hwrite
    obtain ⟨v, hv, rfl⟩ := hwrite
    exact ⟨rfl, inBounds_of_value (hruns.inBounds v hv)⟩
  · rintro rfl index
    rw [← hruns.done_eq, hwrites, List.mem_map]
    constructor
    · rintro ⟨w, hw, heq⟩
      exact ⟨w.toInt, ⟨w, hw, rfl⟩, (congrArg ArrayWrite.index heq).symm⟩
    · rintro ⟨_, ⟨w, hw, rfl⟩, rfl⟩
      exact ⟨w, hw, rfl⟩

end NedoCron

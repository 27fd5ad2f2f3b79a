import NedoCron.ScheduleGrammar
import Mathlib.Data.List.TakeWhile
import Mathlib.Tactic.Ring

namespace NedoCron

/-!
# nedo_cron — the parser computes the denotation

Every schedule text the parser accepts is `N seconds` or reads as five fields, and the
schedule it returns has exactly the bits and flags of the reading.  Each function of the
parser gets one lemma about its accepting runs: the pure ones say what the text spells, the
filling ones what is added to the schedule (`Adds`), and `Adds` composes along the items of a
field and along the fields.
-/

/-! ### Splitting -/

/-- The loop of `str_split`, with the part it has begun. -/
theorem strSplitLoop_eq (delim : UInt8) (part p : CString) :
    strSplitLoop delim part p = (p.splitOn delim).modifyHead (part ++ ·) := by
  induction p generalizing part with
  | nil => simp [strSplitLoop]
  | cons c p ih =>
    rw [strSplitLoop, List.splitOn, List.splitOnP_cons_eq_if_modifyHead]
    by_cases hc : c = delim
    · rw [if_pos hc, if_pos (by simpa using hc), ih []]
      cases hp : p.splitOn delim with
      | nil => simp_all [List.splitOn]
      | cons t ts => simp_all [List.splitOn]
    · rw [if_neg hc, if_neg (by simpa using hc), ih (part ++ [c])]
      simp [List.splitOn, List.modifyHead_modifyHead, Function.comp_def]

/-- `str_split` is the splitting of the list library. -/
theorem strSplit_eq_splitOn (s : CString) (delim : UInt8) : strSplit s delim = s.splitOn delim := by
  rw [strSplit, strSplitLoop_eq]
  cases s.splitOn delim <;> simp [List.modifyHead]

/-- The parts put together again. -/
theorem intercalate_strSplit (s : CString) (delim : UInt8) :
    [delim].intercalate (strSplit s delim) = s := by
  rw [strSplit_eq_splitOn, List.intercalate_splitOn]

/-- No part contains the delimiter. -/
theorem not_mem_of_mem_strSplitLoop {delim : UInt8} {part p t : CString} (hpart : delim ∉ part)
    (ht : t ∈ strSplitLoop delim part p) : delim ∉ t := by
  induction p generalizing part with
  | nil =>
    simp only [strSplitLoop, List.mem_singleton] at ht
    rw [ht]; exact hpart
  | cons c p ih =>
    rw [strSplitLoop] at ht
    split at ht
    · rcases List.mem_cons.mp ht with rfl | ht
      · exact hpart
      · exact ih (by simp) ht
    · rename_i hc
      exact ih (by simpa using ⟨hpart, fun h => hc h.symm⟩) ht

/-- No part has the delimiter in it. -/
theorem not_mem_of_mem_strSplit {s t : CString} {delim : UInt8} (ht : t ∈ strSplit s delim) :
    delim ∉ t :=
  not_mem_of_mem_strSplitLoop (by simp) ht

/-- Two parts are what stands before and after the only delimiter. -/
theorem strSplit_pair {s x y : CString} {delim : UInt8} (h : strSplit s delim = [x, y]) :
    s = x ++ delim :: y ∧ delim ∉ x ∧ delim ∉ y := by
  refine ⟨?_, not_mem_of_mem_strSplit (s := s) (by simp [h]),
    not_mem_of_mem_strSplit (s := s) (by simp [h])⟩
  rw [← intercalate_strSplit s delim, h]
  simp [List.intercalate]

/-! ### Values -/

/-- **`parse_integer`** accepts the digit runs up to `INT_MAX`, with their value. -/
theorem parseInteger_eq_some {s : CString} {v : Int} : parseInteger s = some v ↔ IsInteger s v := by
  unfold parseInteger IsInteger
  by_cases hnil : s = []
  · simp [hnil]
  · by_cases hall : s.all isdigit = true
    · have hmem : ∀ c ∈ s, isdigit c = true := by simpa using hall
      have htake : s.takeWhile isdigit = s := List.takeWhile_eq_self_iff.mpr hmem
      have hdrop : s.dropWhile isdigit = [] := List.dropWhile_eq_nil_iff.mpr hmem
      simp only [hnil, if_false, hall, Bool.true_eq_false, strtol, htake, hdrop, ne_eq,
        not_true_eq_false, false_or, not_false_eq_true, true_and, decide_eq_true_eq]
      -- `strtol` stops at `LONG_MAX`, which is beyond `INT_MAX`
      have hmax : intMax < longMax := by decide
      by_cases hbig : (decimal s : Int) > intMax
      · have hcond : (decimal s : Int) > longMax ∨ min (decimal s : Int) longMax > intMax := by
          omega
        rw [if_pos hcond]
        simp only [reduceCtorEq, false_iff, not_and]
        rintro - rfl hle
        omega
      · have hcond : ¬((decimal s : Int) > longMax ∨ min (decimal s : Int) longMax > intMax) := by
          omega
        rw [if_neg hcond, min_eq_left (by omega)]
        simp only [Option.some.injEq]
        constructor
        · rintro rfl
          exact ⟨hmem, rfl, by omega⟩
        · exact fun h => h.2.1
    · -- a character that is no digit
      have hfalse : s.all isdigit = false := by simpa using hall
      simp only [hnil, if_false, hfalse, if_true, reduceCtorEq, false_iff, not_and]
      intro _ hmem
      exact absurd (by simpa using hmem) hall

/-- What is found is a name. -/
theorem searchForCronName_sound {names : List CronName} {s : CString} {v : Int}
    (h : searchForCronName names s = some v) : IsName names s v := by
  induction names with
  | nil => simp [searchForCronName] at h
  | cons n names ih =>
    rw [searchForCronName] at h
    split at h
    · rename_i heq
      exact ⟨n, by simp, heq, by simpa using h⟩
    · obtain ⟨n', hn', hrest⟩ := ih h
      exact ⟨n', by simp [hn'], hrest⟩

/-- What is read as a value is written as one. -/
theorem parseFieldValue_sound {type : FieldType} {s : CString} {v : Int}
    (h : parseFieldValue type s = some v) : WritesValue type s v := by
  unfold parseFieldValue at h
  cases hint : parseInteger s with
  | some w =>
    rw [hint] at h
    obtain rfl : w = v := by simpa using h
    exact Or.inl (parseInteger_eq_some.mp hint)
  | none =>
    rw [hint] at h
    cases type with
    | m => exact Or.inr (Or.inl ⟨rfl, searchForCronName_sound h⟩)
    | dow => exact Or.inr (Or.inr ⟨rfl, searchForCronName_sound h⟩)
    | minute => simp at h
    | hour => simp at h
    | dom => simp at h

/-- **`parse_range`** accepts `a-b`, and `a-$` in the day-of-month field. -/
theorem parseRange_sound {type : FieldType} {s : CString} {a b : Int}
    (h : parseRange type s = some (a, b)) :
    (∃ x y, s = x ++ rangeOfNumbersDelimiter :: y ∧ WritesValue type x a ∧
      WritesValue type y b) ∨
    (type = .dom ∧ b = maxDaysInMonth ∧
      ∃ x, s = x ++ rangeOfNumbersDelimiter :: lastDomToken ∧ WritesValue type x a) := by
  unfold parseRange at h
  split at h
  · simp at h
  · split at h
    · -- two parts: a value, and a value or the last day
      rename_i x y hsplit
      have hs := (strSplit_pair hsplit).1
      cases hx : parseFieldValue type x with
      | none => simp [hx] at h
      | some start =>
        simp only [hx] at h
        split at h
        · rename_i hlast
          obtain ⟨htype, hlast⟩ := hlast
          obtain ⟨rfl, rfl⟩ : start = a ∧ maxDaysInMonth = b := by simpa using h
          obtain rfl : y = lastDomToken := by simpa [isLastDomToken] using hlast
          exact Or.inr ⟨htype, rfl, x, hs, parseFieldValue_sound hx⟩
        · cases hy : parseFieldValue type y with
          | none => simp [hy] at h
          | some finish =>
            obtain ⟨rfl, rfl⟩ : start = a ∧ finish = b := by simpa [hy] using h
            exact Or.inl ⟨x, y, hs, parseFieldValue_sound hx, parseFieldValue_sound hy⟩
    · simp at h

/-! ### Bits -/

/-- Setting one bit of a bit array sets that bit and no other. -/
theorem getD_set {size : Nat} (bits : Vector Bool size) (v : Int) (n : Nat) (hsize : v.toNat < size)
    (hpos : 0 ≤ v) :
    ((bits.set v.toNat true hsize)[n]?.getD false = true) ↔
      bits[n]?.getD false = true ∨ (n : Int) = v := by
  rw [Vector.getElem?_set]
  by_cases hn : v.toNat = n
  · rw [if_pos hn]
    have hnv : (n : Int) = v := by omega
    simp [hnv]
  · rw [if_neg hn]
    have hnv : ¬(n : Int) = v := by omega
    simp [hnv]

/-- Marking a value sets its bit and no other. -/
theorem bit_mark (s : CronSchedule) (type t : FieldType) (v : Int) (n : Nat)
    (h : (getBounds type).1 ≤ v ∧ v ≤ (getBounds type).2) :
    (s.mark type v h).bit t n = true ↔
      s.bit t n = true ∨ (t = type ∧ (n : Int) = foldValue type v) := by
  have hpos : 0 ≤ v := by cases type <;> simp only [getBounds] at h <;> omega
  cases type <;> cases t <;> simp only [CronSchedule.mark, CronSchedule.bit, reduceCtorEq,
    false_and, or_false, true_and, foldValue, if_false] <;> refine getD_set _ _ _ _ ?_
  all_goals first | exact hpos | (split <;> omega)

/-- `s'` is `s` with the bits of the values added in one field, and nothing else changed. -/
structure Fills (type : FieldType) (values : Set Int) (s s' : CronSchedule) : Prop where
  bits : ∀ t n, s'.bit t n = true ↔
    s.bit t n = true ∨ (t = type ∧ ∃ v ∈ values, (n : Int) = foldValue type v)
  starFlag : ∀ t, s'.starFlag t = s.starFlag t
  lastDom : s'.lastDom = s.lastDom
  seconds : s'.seconds = s.seconds
  secondsInterval : s'.secondsInterval = s.secondsInterval

theorem Fills.none (type : FieldType) (s : CronSchedule) : Fills type ∅ s s :=
  ⟨by simp, fun _ => rfl, rfl, rfl, rfl⟩

/-- One value set. -/
theorem fills_mark (s : CronSchedule) (type : FieldType) (v : Int)
    (h : (getBounds type).1 ≤ v ∧ v ≤ (getBounds type).2) :
    Fills type {v} s (s.mark type v h) where
  bits t n := by rw [bit_mark]; simp
  starFlag t := by cases type <;> cases t <;> rfl
  lastDom := by cases type <;> rfl
  seconds := by cases type <;> rfl
  secondsInterval := by cases type <;> rfl

/-- Two sets of values set after each other. -/
theorem Fills.union {type : FieldType} {A B : Set Int} {s s' s'' : CronSchedule}
    (h : Fills type A s s') (h' : Fills type B s' s'') : Fills type (A ∪ B) s s'' where
  bits t n := by
    rw [h'.bits, h.bits]
    constructor
    · rintro ((hs | ⟨ht, v, hv, hn⟩) | ⟨ht, v, hv, hn⟩)
      · exact Or.inl hs
      · exact Or.inr ⟨ht, v, Or.inl hv, hn⟩
      · exact Or.inr ⟨ht, v, Or.inr hv, hn⟩
    · rintro (hs | ⟨ht, v, hv | hv, hn⟩)
      · exact Or.inl (Or.inl hs)
      · exact Or.inl (Or.inr ⟨ht, v, hv, hn⟩)
      · exact Or.inr ⟨ht, v, hv, hn⟩
  starFlag t := by rw [h'.starFlag, h.starFlag]
  lastDom := by rw [h'.lastDom, h.lastDom]
  seconds := by rw [h'.seconds, h.seconds]
  secondsInterval := by rw [h'.secondsInterval, h.secondsInterval]

/-! ### Progressions -/

/-- Nothing lies between ends in the wrong order. -/
theorem progression_empty {start finish step : Int} (hstep : 0 < step) (h : finish < start) :
    progression start finish step = ∅ := by
  refine Set.eq_empty_iff_forall_notMem.mpr fun v hv => ?_
  obtain ⟨k, hk, hle⟩ := hv
  have hmul : 0 ≤ (k : Int) * step := Int.mul_nonneg (by omega) (by omega)
  omega

/-- The first value, and the progression from the next one on. -/
theorem progression_cons {start finish : Int} (step : Int) (h : start ≤ finish) :
    progression start finish step = {start} ∪ progression (start + step) finish step := by
  ext v
  constructor
  · rintro ⟨k, hk, hle⟩
    cases k with
    | zero => exact Or.inl (by simpa using hk)
    | succ k =>
      refine Or.inr ⟨k, ?_, hle⟩
      rw [hk]; push_cast; ring
  · rintro (rfl | ⟨k, hk, hle⟩)
    · exact ⟨0, by simp, h⟩
    · refine ⟨k + 1, ?_, hle⟩
      rw [hk]; push_cast; ring

/-! ### Runs of the filling functions -/

/-- A run of a sequence is a run of its first part followed by one of its second. -/
theorem run_bind_eq {α β : Type} {x : Parse α} {f : α → Parse β} {st : ParseState}
    {r : β × ParseState} :
    (x >>= f).run st = r ↔ ∃ a st₁, x.run st = (a, st₁) ∧ (f a).run st₁ = r := by
  constructor
  · intro h
    exact ⟨(x.run st).1, (x.run st).2, rfl, h⟩
  · rintro ⟨a, st₁, hx, hf⟩
    show (f (x.run st).1).run (x.run st).2 = r
    rw [hx]; exact hf

/-- Reporting an error and giving up does not accept. -/
theorem not_rejected {fieldIndex tokenIndex : Int} {token fmt : CString} {args : List FmtArg}
    {st st' : ParseState} :
    ¬(do reportError fieldIndex tokenIndex token fmt args; return false : Parse Bool).run st
      = (true, st') := by
  intro h
  cases h

/-- **`set_field_value`** accepts the values within the bounds and marks them. -/
theorem setFieldValue_true {type : FieldType} {value fieldIndex tokenIndex : Int}
    {token : CString} {st st' : ParseState}
    (h : (setFieldValue type value fieldIndex tokenIndex token).run st = (true, st')) :
    (getBounds type).1 ≤ value ∧ value ≤ (getBounds type).2 ∧
      Fills type {value} st.scheduler st'.scheduler := by
  unfold setFieldValue at h
  split at h
  · rename_i hbounds
    cases h
    exact ⟨hbounds.1, hbounds.2, fills_mark st.scheduler type value hbounds⟩
  · exact absurd h not_rejected

theorem getBounds_nonneg (type : FieldType) : 0 ≤ (getBounds type).1 := by
  cases type <;> decide

theorem getBounds_le (type : FieldType) : (getBounds type).2 ≤ 59 := by
  cases type <;> decide

/-- One accepting turn of the filling loop. -/
theorem setFieldRangeLoop_turn {type : FieldType} {finish step fieldIndex tokenIndex : Int}
    {token : CString} {fuel : Nat} {value : Int} {st st' : ParseState} (hle : value ≤ finish)
    (h : (setFieldRangeLoop type finish step fieldIndex tokenIndex token (fuel + 1) value).run st
      = (true, st')) :
    ∃ st₁, (setFieldValue type value fieldIndex tokenIndex token).run st = (true, st₁) ∧
      (setFieldRangeLoop type finish step fieldIndex tokenIndex token fuel
        (toInt32 (value + step))).run st₁ = (true, st') := by
  rw [setFieldRangeLoop, if_pos hle, run_bind_eq] at h
  obtain ⟨ok, st₁, hset, hrest⟩ := h
  cases ok with
  | true => exact ⟨st₁, hset, hrest⟩
  | false => cases hrest

/-- **The filling loop** of `set_field_range`.  When `value + step` overflows, the next value is
    negative, so the next turn rejects; an accepting run never wraps around. -/
theorem setFieldRangeLoop_true {type : FieldType} {finish step fieldIndex tokenIndex : Int}
    {token : CString} (hstep : 0 < step) (hmax : step ≤ intMax) {fuel : Nat} {value : Int}
    {st st' : ParseState}
    (h : (setFieldRangeLoop type finish step fieldIndex tokenIndex token fuel value).run st
      = (true, st')) :
    Fills type (progression value finish step) st.scheduler st'.scheduler := by
  induction fuel generalizing value st with
  | zero => cases h
  | succ fuel ih =>
    by_cases hle : value ≤ finish
    · obtain ⟨st₁, hset, hrest⟩ := setFieldRangeLoop_turn hle h
      obtain ⟨hlow, hhigh, hfill⟩ := setFieldValue_true hset
      have hlow' := getBounds_nonneg type
      have hhigh' := getBounds_le type
      -- a sum that wraps would be negative, and the next turn would reject it
      have hnowrap : value + step ≤ intMax := by
        by_contra hover
        have hneg : toInt32 (value + step) < 0 := by
          unfold toInt32 intMax at *; omega
        cases fuel with
        | zero => cases hrest
        | succ fuel =>
          obtain ⟨_, hset', _⟩ := setFieldRangeLoop_turn (by omega) hrest
          have := (setFieldValue_true hset').1
          omega
      rw [toInt32_of_mem (by unfold intMax at *; omega) (by omega)] at hrest
      rw [progression_cons step hle]
      exact hfill.union (ih hrest)
    · rw [setFieldRangeLoop, if_neg hle] at h
      obtain rfl : st = st' := congrArg Prod.snd h
      rw [progression_empty hstep (by omega)]
      exact Fills.none type st.scheduler

/-- The number of turns the loop can take from a value: one for each value up to the upper
    bound of the field, one to leave the bounds. -/
def turnsFrom (type : FieldType) (value : Int) : Nat :=
  if (getBounds type).1 ≤ value ∧ value ≤ (getBounds type).2 then
    ((getBounds type).2 - value).toNat + 2
  else 1

theorem turnsFrom_pos (type : FieldType) (value : Int) : 0 < turnsFrom type value := by
  unfold turnsFrom
  split <;> omega

/-- There are at most 61 turns, whatever the field. -/
theorem turnsFrom_le (type : FieldType) (value : Int) : turnsFrom type value ≤ 61 := by
  have hlow := getBounds_nonneg type
  have hhigh := getBounds_le type
  unfold turnsFrom
  split <;> omega

/-- Every accepting turn leaves fewer of them: an overflowing addition leads out of the bounds. -/
theorem turnsFrom_next {type : FieldType} {value step : Int} (hstep : 0 < step)
    (hmax : step ≤ intMax) (h : (getBounds type).1 ≤ value ∧ value ≤ (getBounds type).2) :
    turnsFrom type (toInt32 (value + step)) < turnsFrom type value := by
  have hlow := getBounds_nonneg type
  have hhigh := getBounds_le type
  unfold turnsFrom
  rw [if_pos h]
  unfold toInt32 intMax at *
  split <;> omega

/-- Once the turns suffice, more of them change nothing. -/
theorem setFieldRangeLoop_succ {type : FieldType} {finish step fieldIndex tokenIndex : Int}
    {token : CString} (hstep : 0 < step) (hmax : step ≤ intMax) {fuel : Nat} {value : Int}
    (hfuel : turnsFrom type value ≤ fuel) :
    setFieldRangeLoop type finish step fieldIndex tokenIndex token (fuel + 1) value =
      setFieldRangeLoop type finish step fieldIndex tokenIndex token fuel value := by
  induction fuel generalizing value with
  | zero => exact absurd (turnsFrom_pos type value) (by omega)
  | succ fuel ih =>
    rw [setFieldRangeLoop]
    conv_rhs => rw [setFieldRangeLoop]
    by_cases hle : value ≤ finish
    · rw [if_pos hle, if_pos hle]
      by_cases hbounds : (getBounds type).1 ≤ value ∧ value ≤ (getBounds type).2
      · have hnext := turnsFrom_next hstep hmax hbounds
        rw [ih (by omega)]
      · -- the value is rejected, and nothing follows
        unfold setFieldValue
        rw [dif_neg hbounds]
        rfl
    · rw [if_neg hle, if_neg hle]

/-- **Enough fuel.**  The 62 turns `set_field_range` allows are never used up. -/
theorem setFieldRangeLoop_enough {type : FieldType} {finish step fieldIndex tokenIndex : Int}
    {token : CString} (hstep : 0 < step) (hmax : step ≤ intMax) (value : Int) (more : Nat) :
    setFieldRangeLoop type finish step fieldIndex tokenIndex token (62 + more) value =
      setFieldRangeLoop type finish step fieldIndex tokenIndex token 62 value := by
  induction more with
  | zero => rfl
  | succ more ih =>
    have hfuel : turnsFrom type value ≤ 62 + more :=
      Nat.le_trans (turnsFrom_le type value) (by omega)
    rw [← Nat.add_assoc, setFieldRangeLoop_succ hstep hmax hfuel, ih]

/-- **`set_field_range`** accepts proper ranges and marks their progression. -/
theorem setFieldRange_true {type : FieldType} {start finish step fieldIndex tokenIndex : Int}
    {token : CString} (hmax : step ≤ intMax) {st st' : ParseState}
    (h : (setFieldRange type start finish step fieldIndex tokenIndex token).run st = (true, st')) :
    0 < step ∧ start ≤ finish ∧
      Fills type (progression start finish step) st.scheduler st'.scheduler := by
  unfold setFieldRange at h
  split at h
  · exact absurd h not_rejected
  · split at h
    · exact absurd h not_rejected
    · refine ⟨by omega, by omega, setFieldRangeLoop_true (by omega) hmax h⟩

/-! ### Items -/

/-- `s'` is `s` with the bits and flags of a list of items of one field added. -/
structure Adds (type : FieldType) (texts : List CString) (items : List Item)
    (s s' : CronSchedule) : Prop where
  bits : ∀ t n, s'.bit t n = true ↔ s.bit t n = true ∨
    (t = type ∧ ∃ item ∈ items, ∃ v ∈ item.values type, (n : Int) = foldValue type v)
  stars : ∀ t, t ≠ .m → (s'.starFlag t = true ↔ s.starFlag t = true ∨ (t = type ∧ star ∈ texts))
  lastDom : s'.lastDom = true ↔ s.lastDom = true ∨ (type = .dom ∧ lastDomToken ∈ texts)
  seconds : s'.seconds = s.seconds
  secondsInterval : s'.secondsInterval = s.secondsInterval

theorem Adds.nil (type : FieldType) (s : CronSchedule) : Adds type [] [] s s :=
  ⟨by simp, by simp, by simp, rfl, rfl⟩

/-- What two lists of items add, their concatenation adds. -/
theorem Adds.append {type : FieldType} {texts texts' : List CString} {items items' : List Item}
    {s s' s'' : CronSchedule} (h : Adds type texts items s s')
    (h' : Adds type texts' items' s' s'') :
    Adds type (texts ++ texts') (items ++ items') s s'' where
  bits t n := by
    rw [h'.bits, h.bits]
    simp only [List.mem_append, or_and_right, exists_or, and_or_left, or_assoc]
  stars t ht := by
    rw [h'.stars t ht, h.stars t ht]
    simp only [List.mem_append, and_or_left, or_assoc]
  lastDom := by
    rw [h'.lastDom, h.lastDom]
    simp only [List.mem_append, and_or_left, or_assoc]
  seconds := by rw [h'.seconds, h.seconds]
  secondsInterval := by rw [h'.secondsInterval, h.secondsInterval]

/-- An item other than the bare `*` and `$` adds bits only. -/
theorem Fills.adds {type : FieldType} {text : CString} (item : Item) {s s' : CronSchedule}
    (h : Fills type (item.values type) s s') (hstar : text ≠ star) (hlast : text ≠ lastDomToken) :
    Adds type [text] [item] s s' where
  bits t n := by rw [h.bits]; simp
  stars t _ := by
    have hmem : star ∉ [text] := by simpa using fun heq => hstar heq.symm
    rw [h.starFlag]; simp [hmem]
  lastDom := by
    have hmem : lastDomToken ∉ [text] := by simpa using fun heq => hlast heq.symm
    rw [h.lastDom]; simp [hmem]
  seconds := h.seconds
  secondsInterval := h.secondsInterval

/-- The bare `*` adds the bits of the whole field and raises its flag. -/
theorem Fills.adds_star {type : FieldType} {s s' : CronSchedule}
    (h : Fills type (Item.star.values type) s s') :
    Adds type [star] [.star] s (markStarField s' type) where
  bits t n := by
    have hbit : (markStarField s' type).bit t n = s'.bit t n := by
      cases type <;> cases t <;> rfl
    rw [hbit, h.bits]; simp
  stars t ht := by
    rw [← h.starFlag t]
    cases type <;> cases t <;> simp_all [markStarField, CronSchedule.starFlag]
  lastDom := by
    have hflag : (markStarField s' type).lastDom = s'.lastDom := by cases type <;> rfl
    have hmem : lastDomToken ∉ [star] := by decide
    rw [hflag, h.lastDom]; simp [hmem]
  seconds := by rw [← h.seconds]; cases type <;> rfl
  secondsInterval := by rw [← h.secondsInterval]; cases type <;> rfl

/-- The bare `$` raises its flag. -/
theorem adds_lastDom (s : CronSchedule) :
    Adds .dom [lastDomToken] [.lastDom] s { s with lastDom := true } where
  bits t n := by
    have hbit : { s with lastDom := true }.bit t n = s.bit t n := by cases t <;> rfl
    rw [hbit]; simp [Item.values]
  stars t _ := by
    have hflag : { s with lastDom := true }.starFlag t = s.starFlag t := by cases t <;> rfl
    have hmem : star ∉ [lastDomToken] := by decide
    rw [hflag]; simp [hmem]
  lastDom := by simp
  seconds := rfl
  secondsInterval := rfl

/-- **The step branch** of `parse_field_item`. -/
theorem parseStepItem_true {text : CString} {type : FieldType} {fieldIndex tokenIndex : Int}
    {st st' : ParseState}
    (h : (parseStepItem text type fieldIndex tokenIndex).run st = (true, st')) :
    ∃ item, Writes type text item ∧ Fills type (item.values type) st.scheduler st'.scheduler := by
  unfold parseStepItem at h
  split at h
  · exact absurd h not_rejected
  · split at h
    · rename_i base stepText hsplit
      have htext := (strSplit_pair hsplit).1
      split at h
      · exact absurd h not_rejected
      · rename_i step hinteger
        have hint : IsInteger stepText step := parseInteger_eq_some.mp hinteger
        have hmax : step ≤ intMax := hint.2.2.2
        split at h
        · exact absurd h not_rejected
        · split at h
          · -- `*/n`
            rename_i hbase
            obtain rfl : base = star := by simpa [isStar] using hbase
            obtain ⟨hstep, _, hfill⟩ := setFieldRange_true hmax h
            exact ⟨.starStep step, ⟨hstep, stepText, htext, hint⟩, hfill⟩
          · split at h
            · -- `$/n`
              rename_i hbase
              obtain ⟨htype, hbase⟩ := hbase
              obtain rfl : base = lastDomToken := by simpa [isLastDomToken] using hbase
              obtain ⟨hstep, _, hfill⟩ := setFieldRange_true hmax h
              exact ⟨.lastDomStep step, ⟨htype, hstep, stepText, htext, hint⟩, hfill⟩
            · split at h
              · split at h
                · exact absurd h not_rejected
                · -- `a-b/n` and `a-$/n`
                  rename_i start finish hrange
                  obtain ⟨hstep, hle, hfill⟩ := setFieldRange_true hmax h
                  rcases parseRange_sound hrange with ⟨x, y, rfl, hx, hy⟩ | ⟨htype, rfl, x, rfl, hx⟩
                  · exact ⟨.rangeStep start finish step,
                      ⟨hstep, hle, x, y, stepText, htext, hx, hy, hint⟩, hfill⟩
                  · exact ⟨.toLastStep start step,
                      ⟨htype, hstep, hle, x, stepText, htext, hx, hint⟩, hfill⟩
              · exact absurd h not_rejected
    · exact absurd h not_rejected

/-- **`parse_field_item`** accepts the texts of items and adds what they mean. -/
theorem parseFieldItem_true {text : CString} {type : FieldType} {fieldIndex tokenIndex : Int}
    {st st' : ParseState}
    (h : (parseFieldItem text type fieldIndex tokenIndex).run st = (true, st')) :
    ∃ item, Writes type text item ∧ Adds type [text] [item] st.scheduler st'.scheduler := by
  unfold parseFieldItem at h
  split at h
  · exact absurd h not_rejected
  · split at h
    · rename_i hlast
      obtain rfl : text = lastDomToken := by simpa [isLastDomToken] using hlast
      split at h
      · exact absurd h not_rejected
      · rename_i htype
        obtain rfl : type = .dom := not_not.mp htype
        cases h
        exact ⟨.lastDom, ⟨rfl, rfl⟩, adds_lastDom st.scheduler⟩
    · rename_i hnotlast
      have hlast : text ≠ lastDomToken := by simpa [isLastDomToken] using hnotlast
      split at h
      · rename_i hisstar
        obtain rfl : text = star := by simpa [isStar] using hisstar
        obtain ⟨ok, st₁, hfill, hrest⟩ := run_bind_eq.mp h
        cases ok with
        | false => cases hrest
        | true =>
          cases hrest
          obtain ⟨_, _, hfill⟩ := setFieldRange_true (by decide) hfill
          exact ⟨.star, rfl, hfill.adds_star⟩
      · rename_i hnotstar
        have hstar : text ≠ star := by simpa [isStar] using hnotstar
        split at h
        · obtain ⟨item, hwrites, hfill⟩ := parseStepItem_true h
          exact ⟨item, hwrites, Fills.adds item hfill hstar hlast⟩
        · split at h
          · split at h
            · exact absurd h not_rejected
            · -- `a-b` and `a-$`
              rename_i start finish hrange
              obtain ⟨_, hle, hfill⟩ := setFieldRange_true (by decide) h
              rcases parseRange_sound hrange with ⟨x, y, htext, hx, hy⟩ | ⟨htype, rfl, x, htext, hx⟩
              · exact ⟨.range start finish, ⟨hle, x, y, htext, hx, hy⟩,
                  Fills.adds (.range start finish) hfill hstar hlast⟩
              · exact ⟨.toLast start, ⟨htype, hle, x, htext, hx⟩,
                  Fills.adds (.toLast start) hfill hstar hlast⟩
          · split at h
            · rename_i number hnumber
              obtain ⟨_, _, hfill⟩ := setFieldValue_true h
              exact ⟨.value number, parseFieldValue_sound hnumber,
                Fills.adds (.value number) hfill hstar hlast⟩
            · exact absurd h not_rejected

/-! ### Fields -/

/-- The loop over the items of a field adds all of them. -/
theorem parseItems_true {type : FieldType} {fieldIndex : Int} {texts : List CString} {i : Int}
    {st st' : ParseState} (h : (parseItems type fieldIndex texts i).run st = (true, st')) :
    ∃ items, List.Forall₂ (Writes type) texts items ∧
      Adds type texts items st.scheduler st'.scheduler := by
  induction texts generalizing i st with
  | nil =>
    obtain rfl : st = st' := congrArg Prod.snd h
    exact ⟨[], List.Forall₂.nil, Adds.nil type st.scheduler⟩
  | cons text texts ih =>
    rw [parseItems, run_bind_eq] at h
    obtain ⟨ok, st₁, hitem, hrest⟩ := h
    cases ok with
    | false =>
      -- a rejected item is reported, and the loop stops
      rw [if_neg Bool.false_ne_true, run_bind_eq] at hrest
      obtain ⟨_, _, _, hrest⟩ := hrest
      dsimp only at hrest
      split at hrest <;> cases hrest
    | true =>
      obtain ⟨item, hwrites, hadds⟩ := parseFieldItem_true hitem
      obtain ⟨items, hwritten, hadds'⟩ := ih hrest
      exact ⟨item :: items, List.Forall₂.cons hwrites hwritten, hadds.append hadds'⟩

/-- Without neighbouring delimiters, and with none at the end, the parts are not empty. -/
theorem ne_nil_of_mem_strSplitLoop {delim : UInt8} {part p t : CString}
    (hstart : part ≠ [] ∨ p ≠ [] ∧ p.head? ≠ some delim) (hend : p.getLast? ≠ some delim)
    (hadjacent : hasAdjacent delim p = false) (ht : t ∈ strSplitLoop delim part p) : t ≠ [] := by
  induction p generalizing part with
  | nil =>
    obtain rfl : t = part := by simpa [strSplitLoop] using ht
    rcases hstart with hpart | ⟨hnil, _⟩
    · exact hpart
    · exact absurd rfl hnil
  | cons c p ih =>
    -- the rest of the text neither ends in a delimiter nor has two side by side
    have hend' : p ≠ [] → p.getLast? ≠ some delim := by
      intro hp
      rwa [List.getLast?_cons_of_ne_nil hp] at hend
    have hadjacent' : hasAdjacent delim p = false := by
      cases p with
      | nil => rfl
      | cons d p => simp only [hasAdjacent, Bool.or_eq_false_iff] at hadjacent; exact hadjacent.2
    rw [strSplitLoop] at ht
    split at ht
    · rename_i hc
      -- a delimiter ends a part, and begins another that is not empty
      have hp : p ≠ [] := by
        rintro rfl
        exact hend (by simp [hc])
      have hhead : p.head? ≠ some delim := by
        cases p with
        | nil => simp
        | cons d p =>
          simp only [hasAdjacent, Bool.or_eq_false_iff] at hadjacent
          simpa [hc] using hadjacent.1
      rcases List.mem_cons.mp ht with rfl | ht
      · rcases hstart with hpart | ⟨_, hc'⟩
        · exact hpart
        · exact absurd (by simp [hc]) hc'
      · exact ih (Or.inr ⟨hp, hhead⟩) (hend' hp) hadjacent' ht
    · by_cases hp : p = []
      · subst hp
        obtain rfl : t = part ++ [c] := by simpa [strSplitLoop] using ht
        simp
      · exact ih (Or.inl (by simp)) (hend' hp) hadjacent' ht

/-- Without empty parts, the parts of a split are not empty. -/
theorem ne_nil_of_mem_strSplit {s t : CString} {delim : UInt8} (h : hasEmptyPart s delim = false)
    (ht : t ∈ strSplit s delim) : t ≠ [] := by
  simp only [hasEmptyPart, Bool.or_eq_false_iff, beq_eq_false_iff_ne] at h
  obtain ⟨⟨hnil, hhead, hlast⟩, hadjacent⟩ := h
  exact ne_nil_of_mem_strSplitLoop (Or.inr ⟨hnil, hhead⟩) hlast hadjacent ht

/-- Every text has a part. -/
theorem strSplit_ne_nil (s : CString) (delim : UInt8) : strSplit s delim ≠ [] := by
  rw [strSplit_eq_splitOn]
  exact List.splitOn_ne_nil delim s

/-- **`parse_cron_field`** accepts comma lists of items. -/
theorem parseCronField_true {field : CString} {type : FieldType} {fieldIndex : Int}
    {st st' : ParseState} (h : (parseCronField field type fieldIndex).run st = (true, st')) :
    ∃ r : FieldReading type field, Adds type r.texts r.items st.scheduler st'.scheduler := by
  unfold parseCronField at h
  split at h
  · exact absurd h not_rejected
  · split at h
    · exact absurd h not_rejected
    · rename_i hparts _
      obtain ⟨items, hwritten, hadds⟩ := parseItems_true h
      exact ⟨{
        texts := strSplit field arrayOfNumbersDelimiter
        items := items
        joined := (intercalate_strSplit field arrayOfNumbersDelimiter).symm
        separate := fun t ht =>
          ⟨ne_nil_of_mem_strSplit (by simpa using hparts) ht, not_mem_of_mem_strSplit ht⟩
        nonempty := strSplit_ne_nil field arrayOfNumbersDelimiter
        written := hwritten }, hadds⟩

/-- An accepting run of a field followed by the rest of the fields. -/
theorem run_field_eq {field : CString} {type : FieldType} {fieldIndex : Int} {rest : Parse Bool}
    {st st' : ParseState}
    (h : (do
      if !(← parseCronField field type fieldIndex) then return false
      rest : Parse Bool).run st = (true, st')) :
    ∃ st₁, (parseCronField field type fieldIndex).run st = (true, st₁) ∧
      rest.run st₁ = (true, st') := by
  obtain ⟨ok, st₁, hfield, hrest⟩ := run_bind_eq.mp h
  cases ok with
  | true => exact ⟨st₁, hfield, hrest⟩
  | false => cases hrest

/-- The readings of the five fields, by field. -/
def fiveTexts (minute hour dom month dow : CString) : FieldType → CString
  | .minute => minute
  | .hour => hour
  | .dom => dom
  | .m => month
  | .dow => dow

/-- **Five accepted fields**: there is a reading of each, and bits and flags are those it asks for.
    -/
theorem parseCronFields_true {minute hour dom month dow : CString} {error : Option CronParseError}
    {st' : ParseState}
    (h : (parseCronFields minute hour dom month dow).run ⟨CronSchedule.zero, error⟩
      = (true, st')) :
    ∃ r : ∀ type, FieldReading type (fiveTexts minute hour dom month dow type),
      (∀ type n, st'.scheduler.bit type n = true ↔ (r type).selects n) ∧
      (∀ type, type ≠ .m → (st'.scheduler.starFlag type = true ↔ star ∈ (r type).texts)) ∧
      (st'.scheduler.lastDom = true ↔ lastDomToken ∈ (r .dom).texts) ∧
      st'.scheduler.seconds = false ∧ st'.scheduler.secondsInterval = 0 := by
  unfold parseCronFields at h
  obtain ⟨st₁, hminute, h⟩ := run_field_eq h
  obtain ⟨st₂, hhour, h⟩ := run_field_eq h
  obtain ⟨st₃, hdom, h⟩ := run_field_eq h
  obtain ⟨st₄, hmonth, hdow⟩ := run_field_eq h
  obtain ⟨r₁, h₁⟩ := parseCronField_true hminute
  obtain ⟨r₂, h₂⟩ := parseCronField_true hhour
  obtain ⟨r₃, h₃⟩ := parseCronField_true hdom
  obtain ⟨r₄, h₄⟩ := parseCronField_true hmonth
  obtain ⟨r₅, h₅⟩ := parseCronField_true hdow
  -- the parser starts from a schedule without a bit
  have hzero : ∀ t n, CronSchedule.zero.bit t n = false := by
    intro t n
    cases t <;> rw [CronSchedule.bit, CronSchedule.zero, Vector.getElem?_replicate] <;>
      split <;> rfl
  let r : ∀ type, FieldReading type (fiveTexts minute hour dom month dow type) := fun type =>
    match type with
    | .minute => r₁
    | .hour => r₂
    | .dom => r₃
    | .m => r₄
    | .dow => r₅
  refine ⟨r, ?_, ?_, ?_, ?_, ?_⟩
  · intro type n
    -- each field sets its own bits, one after the other
    rw [h₅.bits, h₄.bits, h₃.bits, h₂.bits, h₁.bits, hzero]
    cases type <;> simp [FieldReading.selects, r]
  · intro type htype
    rw [h₅.stars type htype, h₄.stars type htype, h₃.stars type htype, h₂.stars type htype,
      h₁.stars type htype]
    cases type <;> simp [CronSchedule.starFlag, CronSchedule.zero, r] at htype ⊢
  · rw [h₅.lastDom, h₄.lastDom, h₃.lastDom, h₂.lastDom, h₁.lastDom]
    simp [CronSchedule.zero, r]
  · rw [h₅.seconds, h₄.seconds, h₃.seconds, h₂.seconds, h₁.seconds]; rfl
  · rw [h₅.secondsInterval, h₄.secondsInterval, h₃.secondsInterval, h₂.secondsInterval,
      h₁.secondsInterval]; rfl

/-! ### Schedules -/

/-- **`N seconds`** gives the schedule with that interval and nothing else. -/
theorem parseSeconds_some {count : CString} {error : Option CronParseError}
    {schedule : CronSchedule} (h : (parseSeconds count error).1 = some schedule) :
    ∃ n, IsInteger count n ∧ 1 ≤ n ∧ n ≤ 59 ∧
      schedule = { CronSchedule.zero with seconds := true, secondsInterval := n } := by
  unfold parseSeconds at h
  cases hcount : parseInteger count with
  | none => simp [hcount] at h
  | some n =>
    simp only [hcount] at h
    split at h
    · simp at h
    · refine ⟨n, parseInteger_eq_some.mp hcount, by omega, by omega, ?_⟩
      simpa using h.symm

/-- **Five fields** give the schedule with the bits and flags of the reading. -/
theorem parseWithError_five {s minute hour dom month dow : CString}
    {error : Option CronParseError} {schedule : CronSchedule}
    (hsplit : strSplit s spaceDelimiter = [minute, hour, dom, month, dow])
    (h : (parseWithError s error).1 = some schedule) : ∃ r : Reading s, r.Denotes schedule := by
  unfold parseWithError at h
  dsimp only at h
  split at h
  · simp at h
  · rw [hsplit] at h
    dsimp only at h
    split at h
    · rename_i st hrun
      obtain rfl : st.scheduler = schedule := by simpa using h
      obtain ⟨r, hbits, hstars, hlast, hseconds, hinterval⟩ := parseCronFields_true hrun
      -- no field has a space in it
      have hseparate : ∀ t ∈ [minute, hour, dom, month, dow], spaceDelimiter ∉ t := by
        rw [← hsplit]
        exact fun t ht => not_mem_of_mem_strSplit ht
      refine ⟨{
        text := fiveTexts minute hour dom month dow
        joined := ?_
        separate := ?_
        field := r }, ⟨hbits, hstars, hlast, hseconds, hinterval⟩⟩
      · rw [← intercalate_strSplit s spaceDelimiter, hsplit]; rfl
      · intro type
        apply hseparate
        cases type <;> simp [fiveTexts]
    · simp at h

/-- **Parser denotation.**  A schedule text that is accepted is `N seconds`, and the schedule
    has that interval and nothing else; or it reads as five comma lists of items, and the
    schedule has exactly the bits and flags of the reading. -/
theorem parseWithError_denotes (s : CString) (error : Option CronParseError)
    (schedule : CronSchedule) (h : (parseWithError s error).1 = some schedule) :
    (∃ n, WritesSeconds s n ∧
      schedule = { CronSchedule.zero with seconds := true, secondsInterval := n }) ∨
    ∃ r : Reading s, r.Denotes schedule := by
  have haccepted := h
  unfold parseWithError at h
  dsimp only at h
  split at h
  · simp at h
  · split at h
    · rename_i count unit hsplit
      obtain ⟨hs, hcount, hunit⟩ := strSplit_pair hsplit
      split at h
      · rename_i heq
        obtain ⟨n, hint, hlow, hhigh, hsched⟩ := parseSeconds_some h
        exact Or.inl ⟨n, ⟨count, unit, hs, hcount, hunit, heq, hint, hlow, hhigh⟩, hsched⟩
      · simp at h
    · rename_i hsplit
      exact Or.inr (parseWithError_five hsplit haccepted)
    · simp at h

/-- The theorem at a text with a step, a list with `$`, a bare star and a Sunday written 7. -/
theorem parseWithError_denotes_list :
    ∃ schedule, (parseWithError (ascii "1-5/2 * 1,$ JAN 7") none).1 = some schedule ∧
      ((∃ n, WritesSeconds (ascii "1-5/2 * 1,$ JAN 7") n ∧
          schedule = { CronSchedule.zero with seconds := true, secondsInterval := n }) ∨
        ∃ r : Reading (ascii "1-5/2 * 1,$ JAN 7"), r.Denotes schedule) := by
  have haccepted : (parseWithError (ascii "1-5/2 * 1,$ JAN 7") none).1.isSome = true := by
    decide +kernel
  refine ⟨_, (Option.some_get haccepted).symm, ?_⟩
  exact parseWithError_denotes _ none _ (Option.some_get haccepted).symm

/-- **Accepted texts** have two parts, a count and `seconds`, or five. -/
theorem strSplit_of_accepted {s : CString} {error : Option CronParseError}
    {schedule : CronSchedule} (h : (parseWithError s error).1 = some schedule) :
    (∃ count unit, strSplit s spaceDelimiter = [count, unit] ∧
      strcasecmpEq unit secondsIdentifier = true ∧
      (parseSeconds count (clearParseError error)).1 = some schedule) ∨
    ∃ minute hour dom month dow,
      strSplit s spaceDelimiter = [minute, hour, dom, month, dow] := by
  unfold parseWithError at h
  dsimp only at h
  split at h
  · cases h
  · split at h
    · rename_i count unit hsplit
      split at h
      · rename_i hunit
        exact Or.inl ⟨count, unit, hsplit, hunit, h⟩
      · cases h
    · rename_i minute hour dom month dow hsplit
      exact Or.inr ⟨minute, hour, dom, month, dow, hsplit⟩
    · cases h

/-! ### Readings are unique -/

/-- Parts without the delimiter are found again in the text they are joined to. -/
theorem strSplit_intercalate {delim : UInt8} {texts : List CString} (hne : texts ≠ [])
    (hsep : ∀ t ∈ texts, delim ∉ t) : strSplit ([delim].intercalate texts) delim = texts := by
  rw [strSplit_eq_splitOn]
  exact List.splitOn_intercalate delim hsep hne

/-- The texts of a field are its parts between commas. -/
theorem FieldReading.texts_eq {type : FieldType} {field : CString} (r : FieldReading type field) :
    r.texts = strSplit field arrayOfNumbersDelimiter := by
  have h := strSplit_intercalate r.nonempty fun t ht => (r.separate t ht).2
  rw [← r.joined] at h
  exact h.symm

/-- The fields of a schedule text are its parts between spaces. -/
theorem Reading.split_eq {s : CString} (r : Reading s) :
    strSplit s spaceDelimiter = fieldTypes.map r.text := by
  have h : strSplit ([spaceDelimiter].intercalate (fieldTypes.map r.text)) spaceDelimiter
      = fieldTypes.map r.text := by
    refine strSplit_intercalate (by simp [fieldTypes]) fun t ht => ?_
    obtain ⟨type, _, rfl⟩ := List.mem_map.mp ht
    exact r.separate type
  rwa [← r.joined] at h

/-- Two readings of a text are of the same fields. -/
theorem Reading.text_eq {s : CString} (r r' : Reading s) : r.text = r'.text := by
  have h : fieldTypes.map r.text = fieldTypes.map r'.text := by rw [← r.split_eq, r'.split_eq]
  simp only [fieldTypes, List.map_cons, List.map_nil, List.cons.injEq, and_true] at h
  obtain ⟨hminute, hhour, hdom, hmonth, hdow⟩ := h
  funext type
  cases type <;> assumption

/-- What the firing rule needs of a schedule that was parsed from five fields. -/
theorem Reading.parsed {s : CString} (r : Reading s) {error : Option CronParseError}
    {schedule : CronSchedule} (h : (parseWithError s error).1 = some schedule) :
    schedule.seconds = false ∧
      (schedule.lastDom = true ↔ lastDomToken ∈ (r.field .dom).texts) := by
  obtain ⟨r', hr'⟩ := parseWithError_five r.split_eq h
  refine ⟨hr'.seconds, ?_⟩
  rw [hr'.lastDom, FieldReading.texts_eq, FieldReading.texts_eq, Reading.text_eq r r']

end NedoCron

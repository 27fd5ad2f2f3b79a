import NedoCron.Runtime

namespace NedoCron

/-!
# nedo_cron — minutes on the clock (`cron_time.c`)

Rounding a timestamp to its minute and counting whole minutes between two timestamps, with
the facts about both that the scheduler's loop relies on.
-/

/-- What a clock reading looks like from the last minute that was accounted for. -/
inductive ClockStatus where
  | jumpBackward
  | progressed
  | jumpForward
  | change
  deriving DecidableEq

/-- Microseconds in a minute. -/
def minute : Int := 60000000

/-- `StartOfMinute`; the C remainder keeps the sign of the timestamp. -/
def startOfMinute (time : Int) : Int := time - time.tmod minute

/-- `EndOfMinute`. -/
def endOfMinute (time : Int) : Int := startOfMinute time + minute

/-- `MinutesPassed`: the seconds are cut to an `int` before the division. -/
def minutesPassed (start stop : Int) : Int :=
  (toInt32 (timestampDifference start stop).1).tdiv 60

/-- A minute begins at a whole number of minutes. -/
theorem minute_dvd_startOfMinute (t : Int) : minute ∣ startOfMinute t :=
  Int.dvd_self_sub_tmod

/-- From the epoch on, rounding goes down. -/
theorem startOfMinute_bounds {t : Int} (h : 0 ≤ t) :
    startOfMinute t ≤ t ∧ t < startOfMinute t + minute := by
  unfold startOfMinute minute
  rw [Int.tmod_eq_emod_of_nonneg h]
  omega

/-- Before the epoch, rounding goes up, at most to the epoch. -/
theorem startOfMinute_nonpos {t : Int} (h : t ≤ 0) : startOfMinute t ≤ 0 := by
  unfold startOfMinute minute
  have hneg : (-t).tmod 60000000 = -(t.tmod 60000000) := Int.neg_tmod t 60000000
  rw [Int.tmod_eq_emod_of_nonneg (show 0 ≤ -t by omega)] at hneg
  omega

/-- A later time is in no earlier minute. -/
theorem startOfMinute_mono {s t : Int} (hs : 0 ≤ s) (h : s ≤ t) :
    startOfMinute s ≤ startOfMinute t := by
  unfold startOfMinute minute
  rw [Int.tmod_eq_emod_of_nonneg hs, Int.tmod_eq_emod_of_nonneg (by omega : 0 ≤ t)]
  omega

/-- No time has passed towards an earlier or equal timestamp. -/
theorem minutesPassed_of_le {start stop : Int} (h : stop ≤ start) :
    minutesPassed start stop = 0 := by
  unfold minutesPassed timestampDifference
  rw [if_pos (by omega)]
  decide

/-- Less than 2^31 seconds forward, the whole minutes are counted. -/
theorem minutesPassed_of_lt {start stop : Int} (h : start ≤ stop)
    (hfar : stop - start < 2147483648000000) :
    minutesPassed start stop = (stop - start) / minute := by
  unfold minutesPassed timestampDifference minute
  by_cases hle : stop - start ≤ 0
  · obtain rfl : stop = start := by omega
    simp [toInt32]
  · rw [if_neg hle, toInt32_of_mem (by omega) (by unfold intMax; omega)]
    rw [Int.tdiv_eq_ediv_of_nonneg (by omega)]
    omega

end NedoCron

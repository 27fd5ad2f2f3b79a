import NedoCron.OneVersion

namespace NedoCron

/-!
# nedo_cron — recorded error texts

`SetTaskError` takes a format, and the texts of libpq are handed to it in that place.  A text
without `%` comes out as it is; a `%%` comes out as one `%`, and any other directive finds no
argument, so that what it leaves in the buffer is not determined.

* `percentPaired`, `collapsePairs` — the format without arguments in closed form;
* `FormatsToItself` — the texts that come out as they are, up to the size of the buffer;
* `recordedText_verbatim_iff` — a step that records a text keeps it exactly for these.
-/

/-! ### A format without arguments -/

/-- `%`. -/
def percent : UInt8 := 37

/-- Read from the left, every `%` is followed by a second one. -/
def percentPaired : CString → Bool
  | [] => true
  | [c] => decide (c ≠ percent)
  | c :: d :: rest =>
    if c = percent then decide (d = percent) && percentPaired rest else percentPaired (d :: rest)

/-- Every pair `%%` becomes one `%`. -/
def collapsePairs : CString → CString
  | [] => []
  | [c] => [c]
  | c :: d :: rest =>
    if c = percent then percent :: collapsePairs rest else c :: collapsePairs (d :: rest)

theorem percentPaired_cons {c : UInt8} (h : c ≠ percent) (rest : CString) :
    percentPaired (c :: rest) = percentPaired rest := by
  cases rest with
  | nil => simp [percentPaired, h]
  | cons d rest => rw [percentPaired, if_neg h]

theorem collapsePairs_cons {c : UInt8} (h : c ≠ percent) (rest : CString) :
    collapsePairs (c :: rest) = c :: collapsePairs rest := by
  cases rest with
  | nil => rfl
  | cons d rest => rw [collapsePairs, if_neg h]

theorem percentPaired_pair (rest : CString) :
    percentPaired (percent :: percent :: rest) = percentPaired rest := by
  rw [percentPaired, if_pos rfl, decide_eq_true rfl, Bool.true_and]

theorem collapsePairs_pair (rest : CString) :
    collapsePairs (percent :: percent :: rest) = percent :: collapsePairs rest := by
  rw [collapsePairs, if_pos rfl]

/-- A text whose `%` are paired starts with another byte, or with a pair. -/
theorem percentPaired_cases {c : UInt8} {rest : CString}
    (h : percentPaired (c :: rest) = true) :
    c ≠ percent ∨
      (c = percent ∧ ∃ rest', rest = percent :: rest' ∧ percentPaired rest' = true) := by
  by_cases hc : c = percent
  · subst hc
    cases rest with
    | nil => exact absurd h (by decide)
    | cons d rest =>
      rw [percentPaired, if_pos rfl, Bool.and_eq_true, decide_eq_true_eq] at h
      exact Or.inr ⟨rfl, rest, by rw [h.1], h.2⟩
  · exact Or.inl hc

/-- A byte that is not a `%` comes out as it is. -/
theorem formatArgs_plain {c : UInt8} (hc : c ≠ percent) (rest : CString) (args : List FmtArg) :
    formatArgs (c :: rest) args = (formatArgs rest args).map (c :: ·) := by
  rw [formatArgs.eq_def]
  exact if_pos hc

/-- **A format without arguments.** -/
theorem formatArgs_nil (fmt : CString) :
    formatArgs fmt [] = if percentPaired fmt then some (collapsePairs fmt) else none := by
  induction fmt using percentPaired.induct with
  | case1 => rfl
  | case2 c =>
    by_cases hc : c = percent
    · subst hc
      rfl
    · rw [formatArgs_plain hc, percentPaired, decide_eq_true hc, if_pos rfl]
      rfl
  | case3 d rest ih =>
    by_cases hd : d = percent
    · subst hd
      have hpair : formatArgs (percent :: percent :: rest) [] =
          (formatArgs rest []).map (percent :: ·) := by
        rw [formatArgs.eq_def]
        rfl
      rw [hpair, ih, percentPaired_pair, collapsePairs_pair]
      split <;> rfl
    · have hd' : d ≠ 37 := hd
      -- a directive without its argument
      have hnone : formatArgs (percent :: d :: rest) [] = none := by
        rw [formatArgs.eq_def]
        simp [percent, hd']
      rw [hnone, percentPaired, if_pos rfl, decide_eq_false hd, Bool.false_and]
      rfl
  | case4 c d rest hc ih =>
    rw [formatArgs_plain hc, ih, percentPaired_cons hc, collapsePairs_cons hc]
    split <;> rfl

/-! ### Texts that come out as they are -/

/-- The part of a text from its first `%` on. -/
def fromPercent (text : CString) : CString := text.dropWhile (· ≠ percent)

/-- The bytes of the buffer that are left at the first `%`. -/
def roomAtPercent (text : CString) : Nat := 1023 - (text.takeWhile (· ≠ percent)).length

/-- The text is not empty, its `%` come in pairs, and from the first of them on there is
    nothing but `%` up to the end of the buffer, counting two for each byte. -/
def FormatsToItself (text : CString) : Prop :=
  text ≠ [] ∧ percentPaired text = true ∧
    (fromPercent text = [] ∨
      List.replicate (2 * roomAtPercent text) percent <+: fromPercent text)

/-- Behind `k` bytes `%`, a text and its collapsed form agree only while there are `%`. -/
theorem collapsePairs_take_iff (m : Nat) {k : Nat} (hk : 0 < k) {text : CString}
    (hpaired : percentPaired text = true) :
    (collapsePairs text).take m = (List.replicate k percent ++ text).take m ↔
      List.replicate (2 * m) percent <+: text := by
  induction m generalizing k text with
  | zero => simp
  | succ m ih =>
    obtain ⟨k, rfl⟩ : ∃ k', k = k' + 1 := ⟨k - 1, by omega⟩
    have hdouble : 2 * (m + 1) = 2 * m + 1 + 1 := by omega
    rw [hdouble, List.replicate_succ, List.replicate_succ]
    cases text with
    | nil => simp [collapsePairs, List.replicate_succ]
    | cons c rest =>
      rcases percentPaired_cases hpaired with hc | ⟨rfl, rest, rfl, hrest⟩
      · rw [collapsePairs_cons hc, List.replicate_succ]
        simp [hc, Ne.symm hc]
      -- one pair more in front: the text lags one byte further behind its collapsed form
      · have hshift : List.replicate k percent ++ percent :: percent :: rest =
            List.replicate (k + 2) percent ++ rest := by
          rw [List.replicate_succ', List.replicate_succ']
          simp
        rw [collapsePairs_pair, List.replicate_succ, List.cons_append, hshift, List.take_succ_cons,
          List.take_succ_cons, List.cons_prefix_cons, List.cons_prefix_cons, List.cons.injEq]
        simp only [true_and]
        exact ih (by omega) hrest

/-- A text has no `%`, or what is left begins with one. -/
theorem fromPercent_cases (text : CString) :
    fromPercent text = [] ∨ ∃ rest, fromPercent text = percent :: rest := by
  unfold fromPercent
  induction text with
  | nil => exact Or.inl rfl
  | cons c text ih =>
    by_cases hc : c = percent
    · exact Or.inr ⟨text, by simp [hc]⟩
    · simpa [hc] using ih

/-- The bytes before the first `%` are kept. -/
theorem percentPaired_fromPercent (text : CString) :
    percentPaired text = percentPaired (fromPercent text) ∧
      collapsePairs text = text.takeWhile (· ≠ percent) ++ collapsePairs (fromPercent text) := by
  unfold fromPercent
  induction text with
  | nil => exact ⟨rfl, rfl⟩
  | cons c text ih =>
    by_cases hc : c = percent
    · simp [hc]
    · rw [percentPaired_cons hc, collapsePairs_cons hc, ih.1, ih.2]
      simp [hc]

/-- **Paired texts**: the collapsed text fills the buffer like the text itself. -/
theorem collapsePairs_take_eq_iff {text : CString} (hpaired : percentPaired text = true) :
    (collapsePairs text).take 1023 = text.take 1023 ↔
      fromPercent text = [] ∨
        List.replicate (2 * roomAtPercent text) percent <+: fromPercent text := by
  obtain ⟨hpaired', hcollapse⟩ := percentPaired_fromPercent text
  rw [hpaired] at hpaired'
  have htext : text = text.takeWhile (· ≠ percent) ++ fromPercent text :=
    (List.takeWhile_append_dropWhile).symm
  -- before the first `%` the two agree, so the rest of the buffer decides
  have htake : (collapsePairs text).take 1023 = text.take 1023 ↔
      (collapsePairs (fromPercent text)).take (roomAtPercent text) =
        (fromPercent text).take (roomAtPercent text) := by
    unfold roomAtPercent
    conv_lhs => rw [hcollapse]; rhs; rw [htext]
    rw [List.take_append, List.take_append, List.append_cancel_left_eq]
  rw [htake]
  rcases fromPercent_cases text with hnil | ⟨rest, hrest⟩
  · simp [hnil, collapsePairs]
  · rw [hrest] at hpaired' ⊢
    rcases percentPaired_cases hpaired'.symm with hne | ⟨-, rest, rfl, hpairs⟩
    · exact absurd rfl hne
    · rw [collapsePairs_pair, or_iff_right (by simp)]
      cases roomAtPercent text with
      | zero => simp
      | succ m =>
        have hone := collapsePairs_take_iff m (k := 1) (by decide) hpairs
        have hdouble : 2 * (m + 1) = 2 * m + 1 + 1 := by omega
        rw [hdouble, List.replicate_succ, List.replicate_succ, List.take_succ_cons,
          List.take_succ_cons, List.cons_prefix_cons, List.cons_prefix_cons, List.cons.injEq]
        simp only [true_and]
        exact hone

/-- What `SetTaskError` stores for a text of libpq. -/
def storedText (leftover text : CString) : CString :=
  vsnprintf leftover 1024
    (if text = [] then ascii "unknown error, message text = '\\0'" else text) []

/-- What is stored for an undefined directive: what the buffer was left with. -/
theorem storedText_unpaired {text : CString} (hne : text ≠ []) (h : percentPaired text = false)
    (leftover : CString) : storedText leftover text = leftover.take 1023 := by
  rw [storedText, if_neg hne, vsnprintf, formatArgs_nil, h]
  rfl

/-- What is stored for pairs: the text with each pair as one, up to the end of the buffer. -/
theorem storedText_paired {text : CString} (hne : text ≠ []) (h : percentPaired text = true)
    (leftover : CString) : storedText leftover text = (collapsePairs text).take 1023 := by
  rw [storedText, if_neg hne, vsnprintf, formatArgs_nil, h]
  rfl

/-- **Texts that come out as they are**, whatever an undefined directive leaves. -/
theorem storedText_eq_iff (text : CString) :
    (∀ leftover, storedText leftover text = text.take 1023) ↔ FormatsToItself text := by
  by_cases hne : text = []
  · -- the empty text is replaced by a message of its own
    subst hne
    refine ⟨fun h => absurd (h []) (by decide +kernel), fun h => absurd rfl h.1⟩
  · cases hpaired : percentPaired text with
    | false =>
      refine ⟨fun h => ?_, fun h => absurd h.2.1 (by rw [hpaired]; simp)⟩
      -- with an empty buffer nothing would be stored
      have hempty := h []
      rw [storedText_unpaired hne hpaired, List.take_nil, eq_comm, List.take_eq_nil_iff] at hempty
      exact absurd hempty (by simp [hne])
    | true =>
      rw [FormatsToItself, ← collapsePairs_take_eq_iff hpaired]
      refine ⟨fun h => ⟨hne, hpaired, ?_⟩, fun h leftover => ?_⟩
      · rw [← storedText_paired hne hpaired []]
        exact h []
      · rw [storedText_paired hne hpaired]
        exact h.2.2

/-! ### Steps that record a text -/

/-- The text of libpq a call returns for the error message: that of `PQerrorMessage`, and that
    of `PQresultErrorMessage` on a result that is an error. -/
def Call.errorText (io : Replies) : Call → Option CString
  | .use .errorMessage conn => some (pqErrorMessage conn io)
  | .getResult _ (some result) _ => if result.status.isError then some result.message else none
  | _ => none

/-- The texts of libpq that a step records as its error message. -/
def recordedTexts (io : Replies) (calls : List Call) : List CString :=
  calls.filterMap (Call.errorText io)

/-- The replies with another content of the buffer after an undefined directive. -/
abbrev Replies.leaving (io : Replies) (leftover : CString) : Replies :=
  { io with leftover := leftover }

@[simp] theorem connectionBad_leaving (conn : Option Nat) (io : Replies) (leftover : CString) :
    connectionBad conn (io.leaving leftover) = connectionBad conn io := rfl

@[simp] theorem pqErrorMessage_leaving (conn : Option Nat) (io : Replies) (leftover : CString) :
    pqErrorMessage conn (io.leaving leftover) = pqErrorMessage conn io := rfl

/-- The step ends in ERROR, and has stored what comes out for the text. -/
def Turn.Stores (turn : Turn) (leftover text : CString) : Prop :=
  ∃ task, turn.fate = .kept task ∧ task.state = .error ∧
    task.errorMessage = some (storedText leftover text)

/-- A step that fails with a text of libpq stores it. -/
theorem stores_fail (task : CronTask) (leftover text : CString) (calls : List Call) :
    (Turn.keep (task.fail leftover text []) calls).Stores leftover text :=
  ⟨_, rfl, rfl, rfl⟩

theorem recordedTexts_append (io : Replies) (calls calls' : List Call) :
    recordedTexts io (calls ++ calls') = recordedTexts io calls ++ recordedTexts io calls' :=
  List.filterMap_append

/-- Of the functions used on a connection, `PQerrorMessage` alone has a text. -/
theorem recordedTexts_uses {io : Replies} {functions : List PqFunction} {conn : Option Nat}
    {text : CString} (h : text ∈ recordedTexts io (uses functions conn)) :
    .errorMessage ∈ functions ∧ text = pqErrorMessage conn io := by
  obtain ⟨call, hcall, htext⟩ := List.mem_filterMap.mp h
  obtain ⟨f, hf, rfl⟩ := List.mem_map.mp hcall
  cases f with
  | errorMessage => exact ⟨hf, (Option.some.inj htext).symm⟩
  | _ => exact absurd htext (by simp [Call.errorText])

variable {io : Replies} {text : CString} {task : CronTask}

/-- START stores the text it records. -/
theorem manageStart_stores {job : CronJob} {statementTimeoutMs currentTime runId : Int} {conn : Nat}
    (h : text ∈ recordedTexts io
      (manageStart task job statementTimeoutMs currentTime runId conn io).calls)
    (leftover : CString) :
    (manageStart task job statementTimeoutMs currentTime runId conn (io.leaving leftover)).Stores
      leftover text := by
  unfold manageStart at h ⊢
  rw [connectionBad_leaving]
  by_cases hconn : io.connection = false
  · rw [if_pos hconn] at h
    exact absurd h (by simp [Turn.keep, recordedTexts, Call.errorText])
  · rw [if_neg hconn] at h ⊢
    by_cases hblocking : io.setnonblocking ≠ 0
    · rw [if_pos hblocking] at h ⊢
      obtain rfl : io.errorMessage = text := by
        simpa [Turn.keep, recordedTexts, uses, Call.errorText, pqErrorMessage] using h
      exact stores_fail _ _ _ _
    · rw [if_neg hblocking] at h ⊢
      by_cases hbad : connectionBad (some conn) io = true
      · rw [if_pos hbad] at h ⊢
        obtain rfl : io.errorMessage = text := by
          simpa [Turn.keep, recordedTexts, uses, Call.errorText, pqErrorMessage] using h
        exact stores_fail _ _ _ _
      · rw [if_neg hbad] at h
        exact absurd h (by simp [Turn.keep, recordedTexts, uses, Call.errorText])

/-- CONNECTING stores the text it records. -/
theorem manageConnecting_stores {currentTime : Int}
    (h : text ∈ recordedTexts io (manageConnecting task currentTime io).calls)
    (leftover : CString) :
    (manageConnecting task currentTime (io.leaving leftover)).Stores leftover text := by
  unfold manageConnecting at h ⊢
  rw [connectionBad_leaving, pqErrorMessage_leaving]
  split at h
  · exact absurd h (by simp [Turn.keep, recordedTexts])
  · rename_i hactive
    rw [if_neg hactive]
    split at h
    · exact absurd h (by simp [Turn.keep, recordedTexts])
    · rename_i hdeadline
      rw [if_neg hdeadline]
      -- a lost connection has its text recorded; a socket that is not ready has none
      split at h
      · rename_i hbad
        rw [if_pos hbad, (recordedTexts_uses h).2]
        exact stores_fail _ _ _ _
      · rename_i hbad
        rw [if_neg hbad]
        split at h
        · exact absurd (recordedTexts_uses h).1 (by decide)
        · rename_i hready
          rw [if_neg hready]
          split at h
          · exact absurd h (by simp [Turn.keep, recordedTexts, uses, Call.errorText])
          · -- so has a poll that fails
            rename_i hpoll
            rw [hpoll, (recordedTexts_uses h).2]
            exact stores_fail _ _ _ _
          · exact absurd (recordedTexts_uses h).1 (by decide)

/-- SENDING stores the text it records. -/
theorem manageSending_stores {job : CronJob} {statementTimeoutMs currentTime : Int}
    (h : text ∈ recordedTexts io (manageSending task job statementTimeoutMs currentTime io).calls)
    (leftover : CString) :
    (manageSending task job statementTimeoutMs currentTime (io.leaving leftover)).Stores
      leftover text := by
  unfold manageSending at h ⊢
  rw [connectionBad_leaving, pqErrorMessage_leaving]
  split at h
  · exact absurd h (by simp [Turn.keep, recordedTexts])
  · rename_i hactive
    rw [if_neg hactive]
    split at h
    · exact absurd h (by simp [Turn.keep, recordedTexts])
    · rename_i hdeadline
      rw [if_neg hdeadline]
      -- a lost connection has its text recorded
      split at h
      · rename_i hbad
        rw [if_pos hbad, (recordedTexts_uses h).2]
        exact stores_fail _ _ _ _
      · rename_i hbad
        rw [if_neg hbad]
        split at h
        · exact absurd (recordedTexts_uses h).1 (by decide)
        · rename_i hready
          rw [if_neg hready]
          split at h
          · exact absurd h (by simp [Turn.keep, recordedTexts, uses, Call.errorText])
          · -- so has a query that could not be sent
            rename_i hsent
            rw [if_neg hsent]
            obtain rfl : pqErrorMessage task.conn io = text := by
              simpa [Turn.keep, recordedTexts, uses, Call.errorText] using h
            exact stores_fail _ _ _ _

/-- Reading results stores the message of the one that is an error. -/
theorem readResults_stores {conn : Option Nat} {lastBusy : Bool} (l : CString)
    {results : List (QueryResult × Bool)}
    (h : text ∈ recordedTexts io (readResults conn l lastBusy task results).2)
    (leftover : CString) :
    (readResults conn leftover lastBusy task results).1.state = .error ∧
      (readResults conn leftover lastBusy task results).1.errorMessage =
        some (storedText leftover text) := by
  induction results with
  | nil => exact absurd h (by simp [readResults, recordedTexts, Call.errorText])
  | cons r results ih =>
    obtain ⟨result, busy⟩ := r
    rw [readResults] at h ⊢
    by_cases herror : result.status.isError = true
    · rw [if_pos herror] at h ⊢
      obtain rfl : text = result.message := by
        simpa [recordedTexts, Call.errorText, herror] using h
      exact ⟨rfl, rfl⟩
    · rw [if_neg herror] at h ⊢
      by_cases hcopy : result.status.isCopy = true
      · rw [if_pos hcopy] at h
        exact absurd h (by simp [recordedTexts, Call.errorText, herror])
      · rw [if_neg hcopy] at h ⊢
        apply ih
        simpa [recordedTexts, Call.errorText, herror] using h

/-- The text of a result that fails is stored. -/
theorem finishRunning_stores (h : text ∈ recordedTexts io (finishRunning task io).calls)
    (leftover : CString) : (finishRunning task (io.leaving leftover)).Stores leftover text := by
  have hread : text ∈ recordedTexts io
      (readResults task.conn io.leftover io.lastBusy task io.results).2 := by
    unfold finishRunning at h
    dsimp only at h
    split at h <;>
      simpa [Turn.keep, recordedTexts, List.filterMap_append, Call.errorText] using h
  -- the connection is closed, but state and message are those of the loop
  obtain ⟨hstate, hmessage⟩ := readResults_stores io.leftover hread leftover
  unfold finishRunning
  dsimp only
  rw [if_neg (by simpa using hstate)]
  exact ⟨_, rfl, hstate, hmessage⟩

/-- The text of input that cannot be read is stored. -/
theorem readInput_stores (functions : List PqFunction) (hfunctions : .errorMessage ∉ functions)
    (h : text ∈ recordedTexts io (readInput task io (uses functions task.conn)).calls)
    (leftover : CString) :
    (readInput task (io.leaving leftover) (uses functions task.conn)).Stores leftover text := by
  -- what was called before the input is read has no text
  have hnone : text ∉ recordedTexts io (uses functions task.conn) := fun hmem =>
    hfunctions (recordedTexts_uses hmem).1
  unfold readInput at h ⊢
  rw [pqErrorMessage_leaving]
  split at h
  · exact absurd h hnone
  · rename_i hready
    rw [if_neg hready]
    split at h
    · rename_i hconsume
      rw [if_pos hconsume]
      rcases List.mem_append.mp (recordedTexts_append io _ _ ▸ h) with h | h
      · exact absurd h hnone
      · rw [(recordedTexts_uses h).2]
        exact stores_fail _ _ _ _
    · rename_i hconsume
      rw [if_neg hconsume]
      split at h
      · rcases List.mem_append.mp (recordedTexts_append io _ _ ▸ h) with h | h
        · exact absurd h hnone
        · exact absurd (recordedTexts_uses h).1 (by decide)
      · rename_i hbusy
        rw [if_neg hbusy]
        have hturn : text ∈ recordedTexts io (finishRunning task io).calls := by
          rw [recordedTexts_append, recordedTexts_append, List.mem_append, List.mem_append] at h
          rcases h with (h | h) | h
          · exact absurd h hnone
          · exact absurd (recordedTexts_uses h).1 (by decide)
          · exact h
        exact finishRunning_stores hturn leftover

/-- RUNNING stores the text it records. -/
theorem manageRunning_stores {currentTime : Int}
    (h : text ∈ recordedTexts io (manageRunning task currentTime io).calls)
    (leftover : CString) :
    (manageRunning task currentTime (io.leaving leftover)).Stores leftover text := by
  unfold manageRunning at h ⊢
  rw [connectionBad_leaving, pqErrorMessage_leaving]
  split at h
  · exact absurd h (by simp [Turn.keep, recordedTexts])
  · rename_i hactive
    rw [if_neg hactive]
    -- the branches of RUNNING: lost connection, overdue, cancelled or not, input
    split at h
    · rename_i hbad
      rw [if_pos hbad, (recordedTexts_uses h).2]
      exact stores_fail _ _ _ _
    · rename_i hbad
      rw [if_neg hbad]
      split at h
      · rename_i hoverdue
        rw [if_pos hoverdue]
        split at h
        · exact absurd (recordedTexts_uses h).1 (by decide)
        · rename_i hcancel
          rw [if_neg hcancel]
          split at h
          · exact absurd (recordedTexts_uses h).1 (by decide)
          · rename_i hfailed
            rw [if_neg hfailed]
            exact readInput_stores [.status, .getCancel, .cancel, .freeCancel] (by decide) h
              leftover
      · rename_i hoverdue
        rw [if_neg hoverdue]
        exact readInput_stores [.status] (by decide) h leftover

/-- The error branch records no new text. -/
theorem recordedTexts_manageError (task : CronTask) (io : Replies) :
    recordedTexts io (manageError task io).calls = [] := by
  unfold manageError
  dsimp only
  rw [recordedTexts_append, List.append_eq_nil_iff]
  constructor
  · split <;> rfl
  · split <;> rfl

theorem recordedTexts_manageWaiting (task : CronTask) (io : Replies) :
    recordedTexts io (manageWaiting task).calls = [] := by
  unfold manageWaiting
  split
  · rfl
  · split <;> rfl

/-- **A step that records a text** ends in ERROR and has stored what comes out for it. -/
theorem manageCronTask_stores {context : StepContext}
    (h : text ∈ recordedTexts io (manageCronTask context task io).calls) (leftover : CString) :
    (manageCronTask context task (io.leaving leftover)).Stores leftover text := by
  -- the states that record nothing
  have hnone : ∀ {calls : List Call}, recordedTexts io calls = [] →
      text ∉ recordedTexts io calls := by
    intro calls hcalls
    rw [hcalls]
    exact List.not_mem_nil
  unfold manageCronTask at h ⊢
  cases hjob : context.job with
  | none =>
    rw [hjob] at h
    cases hstate : task.state with
    | done =>
      rw [hstate] at h
      exact absurd h (hnone rfl)
    | _ =>
      rw [hstate] at h
      exact absurd h (hnone (recordedTexts_manageError _ io))
  | some job =>
    rw [hjob] at h
    cases hstate : task.state with
    | waiting =>
      rw [hstate] at h
      exact absurd h (hnone (recordedTexts_manageWaiting task io))
    | start =>
      rw [hstate] at h
      exact manageStart_stores h leftover
    | connecting =>
      rw [hstate] at h
      exact manageConnecting_stores h leftover
    | sending =>
      rw [hstate] at h
      exact manageSending_stores h leftover
    | running =>
      rw [hstate] at h
      exact manageRunning_stores h leftover
    | error =>
      rw [hstate] at h
      exact absurd h (hnone (recordedTexts_manageError task io))
    | receiving =>
      rw [hstate] at h
      exact absurd h (hnone rfl)
    | done =>
      rw [hstate] at h
      exact absurd h (hnone rfl)

/-! ### Verbatim texts -/

/-- After the step the task has stored the text, cut to the buffer, and the ERROR step that
    follows writes it to the row of the run. -/
def Turn.Keeps (turn : Turn) (text : CString) : Prop :=
  ∃ task, turn.fate = .kept task ∧ task.errorMessage = some (text.take 1023) ∧
    ∀ context io, context.job.isSome = true → task.runId ≠ 0 → ∃ status,
      Call.finishRun task.runId status (some (text.take 1023)) io.timestamp ∈
        (manageCronTask context task io).calls

/-- A step that stored the text verbatim keeps it. -/
theorem Turn.Stores.keeps {turn : Turn} {leftover : CString} (h : turn.Stores leftover text)
    (hverbatim : storedText leftover text = text.take 1023) : turn.Keeps text := by
  obtain ⟨task, hfate, hstate, hmessage⟩ := h
  rw [hverbatim] at hmessage
  refine ⟨task, hfate, hmessage, fun context io hjob hrun => ?_⟩
  obtain ⟨job, hjob⟩ := Option.isSome_iff_exists.mp hjob
  refine ⟨if task.timedOut then .timeout else .failed, ?_⟩
  have hturn : manageCronTask context task io = manageError task io := by
    rw [manageCronTask, hjob, hstate]
  rw [hturn, ← hmessage]
  unfold manageError
  dsimp only
  rw [if_pos hrun]
  exact List.mem_append.mpr (Or.inl List.mem_cons_self)

/-- **Error texts.**  A step that records a text of libpq keeps it verbatim, whatever an
    undefined directive leaves in the buffer, exactly if the text formats to itself. -/
theorem recordedText_verbatim_iff (context : StepContext) (task : CronTask) (io : Replies)
    (text : CString) (h : text ∈ recordedTexts io (manageCronTask context task io).calls) :
    (∀ leftover, (manageCronTask context task (io.leaving leftover)).Keeps text) ↔
      FormatsToItself text := by
  rw [← storedText_eq_iff]
  refine forall_congr' fun leftover => ?_
  have hstores := manageCronTask_stores h leftover
  refine ⟨fun hkeeps => ?_, hstores.keeps⟩
  obtain ⟨task', hfate, -, hmessage⟩ := hstores
  obtain ⟨kept, hfate', hverbatim, -⟩ := hkeeps
  obtain rfl : task' = kept := Fate.kept.inj (hfate.symm.trans hfate')
  rw [hmessage, Option.some.injEq] at hverbatim
  exact hverbatim

/-- A query that runs, with its result at hand. -/
def readyTask : CronTask :=
  { clearedEntry with
    jobId := 7
    runId := 1
    state := .running
    pollingStatus := .reading
    conn := some 0
    isActive := true
    isSocketReady := true }

/-- What its step reads. -/
def readyContext : StepContext where
  job := some (secondsJob (ascii "alice") (ascii "SELECT 1"))
  statementTimeoutMs := 10000
  currentTime := 6000000
  newRunId := 2
  newConn := 1

/-- The query fails with the given message. -/
def failingReplies (message : CString) : Replies :=
  { smoothReplies with
    isBusy := false
    results := [(⟨.fatalError, some (ascii "22012"), message⟩, false)] }

/-- The theorem at a query that divides by zero. -/
theorem recordedText_verbatim_iff_divisionByZero :
    (∀ leftover, (manageCronTask readyContext readyTask
      ((failingReplies (ascii "ERROR:  division by zero")).leaving leftover)).Keeps
        (ascii "ERROR:  division by zero")) ↔
      FormatsToItself (ascii "ERROR:  division by zero") :=
  recordedText_verbatim_iff readyContext readyTask
    (failingReplies (ascii "ERROR:  division by zero")) _ (by decide +kernel)

/-- The message `ERROR:  discount of 50%%` loses a percent sign. -/
theorem not_recordedText_verbatim :
    ¬∀ (context : StepContext) (task : CronTask) (io : Replies) (text : CString),
      text ∈ recordedTexts io (manageCronTask context task io).calls →
        (manageCronTask context task io).Keeps text := by
  intro hall
  obtain ⟨task, hfate, hmessage, -⟩ := hall readyContext readyTask
    (failingReplies (ascii "ERROR:  discount of 50%%")) (ascii "ERROR:  discount of 50%%")
    (by decide +kernel)
  have hstored : (Fate.task (manageCronTask readyContext readyTask
      (failingReplies (ascii "ERROR:  discount of 50%%"))).fate).bind CronTask.errorMessage =
        some (ascii "ERROR:  discount of 50%") := by decide +kernel
  rw [hfate] at hstored
  have hsame : some (ascii "ERROR:  discount of 50%") =
      some ((ascii "ERROR:  discount of 50%%").take 1023) := hstored.symm.trans hmessage
  exact absurd hsame (by decide +kernel)

end NedoCron

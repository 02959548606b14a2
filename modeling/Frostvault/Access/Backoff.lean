import Mathlib.Data.Rat.Floor
import Mathlib.Tactic.Positivity

/-!
The throttle of sign-ins (`app/backoff.py`).

`auth_backoff` has one row for each scope and key: a count of failures, the deadline the last one
set and its time.  A failure counts on from the row unless the row is an hour old, and the
deadline is picked from seven computed beforehand.  Instants are counted in microseconds, and
their texts are compared in the order of instants.

* `recordFailure`, `recordSuccess`, `Backoff.guard`: the three calls;
* `failuresSince`, `burst`: the failures that count, in the history alone;
* `failedRow_row`: the nested `CASE` is the capped exponential;
* `runCalls_eq`: **the row of a key is what its history says**;
* `throttle_law`: the law of the throttle, for every history.
-/

namespace Frostvault

namespace Backoff

/-! ### The table -/

/-- `THRESHOLD`. -/
def threshold : ℕ := 5

/-- `BASE_SECONDS`. -/
def baseSeconds : ℕ := 30

/-- `CAP_SECONDS`. -/
def capSeconds : ℕ := 15 * 60

/-- `DECAY_SECONDS`. -/
def decaySeconds : ℕ := 60 * 60

/-- `timedelta(seconds=…)`. -/
def seconds (n : ℕ) : ℤ := 1000000 * n

/-- The scopes `auth_backoff` admits. -/
inductive Scope
  | ip | account
deriving DecidableEq, Repr

/-- The key of a row. -/
structure Key where
  scope : Scope
  key : List Char
deriving DecidableEq, Repr

/-- A row of `auth_backoff`. -/
structure Row where
  failureCount : ℕ
  nextAllowedAt : Option ℤ
  updatedAt : ℤ
deriving DecidableEq, Repr

/-- `auth_backoff`: its unique constraint leaves one row to a key. -/
abbrev Table := Key → Option Row

/-! ### The calls -/

/-- `_is_decayed`. -/
def isDecayed (row : Row) (now : ℤ) : Bool :=
  seconds decaySeconds ≤ now - row.updatedAt

/-- `_backoff_seconds`. -/
def backoffSeconds (failureCount : ℕ) : ℕ :=
  if failureCount < threshold then 0
  else min (baseSeconds * 2 ^ (failureCount - threshold)) capSeconds

/-- `_next_allowed`. -/
def nextAllowed (row : Row) : Option ℤ :=
  match row.nextAllowedAt with
  | some deadline => some deadline
  | none =>
      let delay := backoffSeconds row.failureCount
      if delay = 0 then none else some (row.updatedAt + seconds delay)

/-- `guard`: the seconds of the `BackoffError` it raises. -/
def guard (table : Table) (key : Key) (now : ℤ) : Option ℤ :=
  match table key with
  | none => none
  | some row =>
      if isDecayed row now then none
      else match nextAllowed row with
        | none => none
        | some deadline =>
            if now < deadline then some ⌈((deadline - now : ℤ) : ℚ) / 1000000⌉ else none

/-- `deadline_values`. -/
def deadlineValue (now : ℤ) (i : ℕ) : ℤ := now + seconds (backoffSeconds (threshold + i))

/-- The row a failure leaves: the `INSERT` or the `DO UPDATE` of `record_failure`. -/
def failedRow (old : Option Row) (now : ℤ) : Row :=
  let decayCutoff := now - seconds decaySeconds
  match old with
  | none => ⟨1, none, now⟩
  | some row =>
      { failureCount := if row.updatedAt ≤ decayCutoff then 1 else row.failureCount + 1
        nextAllowedAt :=
          if row.updatedAt ≤ decayCutoff ∨ row.failureCount < threshold - 1 then none
          else some <|
            if row.failureCount = threshold - 1 then deadlineValue now 0
            else if row.failureCount = threshold then deadlineValue now 1
            else if row.failureCount = threshold + 1 then deadlineValue now 2
            else if row.failureCount = threshold + 2 then deadlineValue now 3
            else if row.failureCount = threshold + 3 then deadlineValue now 4
            else if row.failureCount = threshold + 4 then deadlineValue now 5
            else deadlineValue now 6
        updatedAt := now }

/-- `record_failure`: the table, the count and the deadline. -/
def recordFailure (table : Table) (key : Key) (now : ℤ) : Table × ℕ × Option ℤ :=
  let row := failedRow (table key) now
  (Function.update table key (some row), row.failureCount, row.nextAllowedAt)

/-- `record_success`. -/
def recordSuccess (table : Table) (key : Key) : Table :=
  Function.update table key none

/-! ### The failures that count -/

/-- What is called for a key. -/
inductive Call
  | failure | success | guard
deriving DecidableEq, Repr

/-- A call: when, for which key, what. -/
structure Event where
  time : ℤ
  key : Key
  call : Call
deriving DecidableEq, Repr

/-- The table after a call. -/
def step (table : Table) (e : Event) : Table :=
  match e.call with
  | .failure => (recordFailure table e.key e.time).1
  | .success => recordSuccess table e.key
  | .guard => table

/-- The table after the calls of a history, from the empty one. -/
def runCalls (history : List Event) : Table :=
  history.foldl step fun _ => none

/-- The times of a key's failures since its last success, the last one first. -/
def failuresSince (key : Key) (history : List Event) : List ℤ :=
  history.foldl (fun failures e =>
    if e.key = key then
      match e.call with
      | .failure => e.time :: failures
      | .success => []
      | .guard => failures
    else failures) []

/-- Those since the last gap of the decay time between two of them. -/
def burst : List ℤ → List ℤ
  | [] => []
  | [last] => [last]
  | last :: previous :: failures =>
      if seconds decaySeconds ≤ last - previous then [last]
      else last :: burst (previous :: failures)

/-- The deadline of the `n`-th failure that counts. -/
def deadlineOf (n : ℕ) (failed : ℤ) : Option ℤ :=
  if n < threshold then none
  else some (failed + seconds (min capSeconds (baseSeconds * 2 ^ (n - threshold))))

/-- The deadline of the last failure. -/
def lastDeadline (failures : List ℤ) : Option ℤ :=
  failures.head?.bind (deadlineOf (burst failures).length)

variable {key : Key} {now last retry : ℤ} {failures : List ℤ} {history : List Event} {row : Row}

/-! ### One failure -/

lemma backoffSeconds_le (n : ℕ) : backoffSeconds n ≤ capSeconds := by
  rw [backoffSeconds]
  split
  · exact Nat.zero_le _
  · exact min_le_right _ _

lemma backoffSeconds_eq_zero_iff (n : ℕ) : backoffSeconds n = 0 ↔ n < threshold := by
  have hpos : 0 < min (baseSeconds * 2 ^ (n - threshold)) capSeconds :=
    lt_min (Nat.mul_pos (by decide) (by positivity)) (by decide)
  rw [backoffSeconds]
  split <;> omega

lemma deadlineOf_eq (n : ℕ) (failed : ℤ) : deadlineOf n failed =
    if n < threshold then none else some (failed + seconds (backoffSeconds n)) := by
  rw [deadlineOf, backoffSeconds, min_comm]
  split <;> rfl

lemma backoffSeconds_of_le {n : ℕ} (h : threshold + 5 ≤ n) : backoffSeconds n = capSeconds := by
  have hpow : 2 ^ 5 ≤ 2 ^ (n - threshold) := Nat.pow_le_pow_right (by decide) (by omega)
  rw [backoffSeconds, if_neg (by omega)]
  exact min_eq_right (le_trans (by decide) (Nat.mul_le_mul_left baseSeconds hpow))

lemma failedRow_decayed (h : row.updatedAt ≤ now - seconds decaySeconds) :
    failedRow (some row) now = ⟨1, none, now⟩ := by
  simp [failedRow, h]

/-- **The nested `CASE` is the capped exponential**: a failure that counts on has the deadline of
its own count. -/
lemma failedRow_row (h : ¬row.updatedAt ≤ now - seconds decaySeconds) :
    failedRow (some row) now =
      ⟨row.failureCount + 1, deadlineOf (row.failureCount + 1) now, now⟩ := by
  have hvalue (i : ℕ) (hi : row.failureCount + 1 = threshold + i) :
      some (deadlineValue now i) = deadlineOf (row.failureCount + 1) now := by
    rw [deadlineOf_eq, hi, if_neg (by omega)]
    rfl
  have hcap (hle : threshold + 6 ≤ row.failureCount + 1) :
      some (deadlineValue now 6) = deadlineOf (row.failureCount + 1) now := by
    rw [deadlineOf_eq, if_neg (by omega), deadlineValue, backoffSeconds_of_le (by omega),
      backoffSeconds_of_le (by omega)]
  simp only [failedRow, h, if_false, false_or, Row.mk.injEq, true_and, and_true]
  have hthreshold : threshold = 5 := rfl
  split_ifs with hlow h4 h5 h6 h7 h8 h9
  · rw [deadlineOf, if_pos (by omega)]
  · exact hvalue 0 (by omega)
  · exact hvalue 1 (by omega)
  · exact hvalue 2 (by omega)
  · exact hvalue 3 (by omega)
  · exact hvalue 4 (by omega)
  · exact hvalue 5 (by omega)
  · exact hcap (by omega)

/-! ### A whole history -/

/-- The row that says what counts. -/
def rowOf (failures : List ℤ) : Option Row :=
  failures.head?.map fun last =>
    ⟨(burst failures).length, deadlineOf (burst failures).length last, last⟩

/-- A failure leaves the row of the failures with it. -/
lemma failedRow_rowOf (failures : List ℤ) (now : ℤ) :
    some (failedRow (rowOf failures) now) = rowOf (now :: failures) := by
  cases failures with
  | nil => rfl
  | cons last failures =>
      by_cases hgap : seconds decaySeconds ≤ now - last
      · have hburst : burst (now :: last :: failures) = [now] := by rw [burst, if_pos hgap]
        rw [rowOf, List.head?_cons, Option.map_some, failedRow_decayed (by simpa using by omega),
          rowOf, hburst]
        rfl
      · have hburst : burst (now :: last :: failures) = now :: burst (last :: failures) := by
          rw [burst, if_neg hgap]
        rw [rowOf, List.head?_cons, Option.map_some, failedRow_row (by simpa using by omega),
          rowOf, hburst]
        rfl

lemma runCalls_append (history : List Event) (e : Event) :
    runCalls (history ++ [e]) = step (runCalls history) e := by
  rw [runCalls, List.foldl_append]
  rfl

lemma failuresSince_append (key : Key) (history : List Event) (e : Event) :
    failuresSince key (history ++ [e]) =
      if e.key = key then
        match e.call with
        | .failure => e.time :: failuresSince key history
        | .success => []
        | .guard => failuresSince key history
      else failuresSince key history := by
  rw [failuresSince, List.foldl_append]
  rfl

lemma step_of_ne {e : Event} (table : Table) (h : e.key ≠ key) : step table e key = table key := by
  rw [step]
  cases e.call with
  | failure => exact Function.update_of_ne (Ne.symm h) _ _
  | success => exact Function.update_of_ne (Ne.symm h) _ _
  | guard => rfl

/-- **The row of a key is what its history says.** -/
theorem runCalls_eq (key : Key) (history : List Event) :
    runCalls history key = rowOf (failuresSince key history) := by
  induction history using List.reverseRecOn with
  | nil => rfl
  | append_singleton history e ih =>
      rw [runCalls_append, failuresSince_append]
      by_cases hkey : e.key = key
      · rw [if_pos hkey, step, hkey]
        cases e.call with
        | failure =>
            simp only [recordFailure, Function.update_self, ih]
            exact failedRow_rowOf _ _
        | success => exact Function.update_self _ _ _
        | guard => exact ih
      · rw [if_neg hkey, step_of_ne _ hkey, ih]

/-- The failures of a key are those of its own calls. -/
lemma failuresSince_filter (key : Key) (history : List Event) :
    failuresSince key (history.filter (·.key = key)) = failuresSince key history := by
  induction history using List.reverseRecOn with
  | nil => rfl
  | append_singleton history e ih =>
      rw [List.filter_append, failuresSince_append, ← ih]
      by_cases hkey : e.key = key
      · rw [List.filter_cons_of_pos (by simpa using hkey), List.filter_nil, failuresSince_append]
      · rw [List.filter_cons_of_neg (by simpa using hkey), List.filter_nil, List.append_nil,
          if_neg hkey]

/-- Every failure that counts is in the history. -/
lemma exists_of_mem_failuresSince (h : last ∈ failuresSince key history) :
    ∃ e ∈ history, e.time = last := by
  induction history using List.reverseRecOn with
  | nil => cases h
  | append_singleton history e ih =>
      have hold (hmem : last ∈ failuresSince key history) : ∃ f ∈ history ++ [e], f.time = last :=
        let ⟨f, hf, ht⟩ := ih hmem
        ⟨f, List.mem_append_left _ hf, ht⟩
      rw [failuresSince_append] at h
      split at h
      · cases hcall : e.call with
        | failure =>
            rw [hcall] at h
            rcases List.mem_cons.mp h with rfl | hmem
            · exact ⟨e, by simp, rfl⟩
            · exact hold hmem
        | success => cases hcall ▸ h
        | guard => exact hold (by rwa [hcall] at h)
      · exact hold h

/-! ### The guard -/

/-- The stored deadline and the derived one are that of the last failure. -/
lemma nextAllowed_eq (n : ℕ) (last : ℤ) : nextAllowed ⟨n, deadlineOf n last, last⟩ =
    deadlineOf n last := by
  rw [nextAllowed, deadlineOf_eq]
  split_ifs with hlow
  · simp [(backoffSeconds_eq_zero_iff n).mpr hlow]
  · rfl

/-- A deadline is at most the cap away. -/
lemma le_of_deadlineOf {n : ℕ} {deadline : ℤ} (h : deadlineOf n last = some deadline) :
    deadline ≤ last + seconds capSeconds := by
  rw [deadlineOf_eq] at h
  split at h
  · cases h
  · cases h
    have hle := backoffSeconds_le n
    simp only [seconds]
    omega

/-- What `guard` does when the row is that of the failures. -/
lemma guard_eq {table : Table} (h : table key = rowOf failures) : guard table key now =
    (lastDeadline failures).bind fun deadline =>
      if now < deadline then some ⌈((deadline - now : ℤ) : ℚ) / 1000000⌉ else none := by
  rw [guard, h]
  cases failures with
  | nil => rfl
  | cons last failures =>
      simp only [rowOf, lastDeadline, List.head?_cons, Option.map_some, Option.bind_some,
        nextAllowed_eq, isDecayed]
      split
      · -- an hour after the failure its deadline is long past
        rename_i hdecayed
        cases hdeadline : deadlineOf (burst (last :: failures)).length last with
        | none => rfl
        | some deadline =>
            have hle := le_of_deadlineOf hdeadline
            have hgap : seconds decaySeconds ≤ now - last := by simpa using hdecayed
            have hpast : ¬now < deadline := by
              simp only [seconds, decaySeconds, capSeconds] at hle hgap
              omega
            rw [Option.bind_some, if_neg hpast]
      · cases deadlineOf (burst (last :: failures)).length last <;> rfl

/-- The wait is between a second and the cap. -/
lemma retry_bounds {deadline : ℤ} (hlt : now < deadline)
    (hle : deadline ≤ now + seconds capSeconds) :
    1 ≤ ⌈((deadline - now : ℤ) : ℚ) / 1000000⌉ ∧
      ⌈((deadline - now : ℤ) : ℚ) / 1000000⌉ ≤ (capSeconds : ℤ) := by
  constructor
  · rw [Int.one_le_ceil_iff]
    have hpos : (0 : ℚ) < ((deadline - now : ℤ) : ℚ) := by exact_mod_cast sub_pos.mpr hlt
    positivity
  · rw [Int.ceil_le, div_le_iff₀ (by norm_num)]
    have hcap : deadline - now ≤ (capSeconds : ℤ) * 1000000 := by
      rw [seconds] at hle
      omega
    exact_mod_cast hcap

/-! ### The law -/

/-- **The law of the throttle.**  After any history, a failure counts on in its burst and sets the
capped exponential deadline, and `guard` raises exactly before the deadline of the last failure;
the wait is never longer than the cap, and no other key's calls matter. -/
theorem throttle_law (history : List Event) (key : Key) (now : ℤ)
    (hmono : (history.map Event.time ++ [now]).Pairwise (· ≤ ·)) :
    let failures := failuresSince key history
    let n := (burst (now :: failures)).length
    (recordFailure (runCalls history) key now).2 = (n, deadlineOf n now) ∧
      (∀ retry, guard (runCalls history) key now = some retry ↔
        ∃ deadline, lastDeadline failures = some deadline ∧ now < deadline ∧
          retry = ⌈((deadline - now : ℤ) : ℚ) / 1000000⌉) ∧
      (∀ retry, guard (runCalls history) key now = some retry → 1 ≤ retry ∧ retry ≤ capSeconds) ∧
      (∀ last, failures.head? = some last → last + seconds capSeconds ≤ now →
        guard (runCalls history) key now = none) ∧
      (∀ others, others.filter (·.key = key) = history.filter (·.key = key) →
        guard (runCalls others) key now = guard (runCalls history) key now ∧
          (recordFailure (runCalls others) key now).2 =
            (recordFailure (runCalls history) key now).2) := by
  intro failures n
  have hrow : runCalls history key = rowOf failures := runCalls_eq key history
  have hguard (retry : ℤ) : guard (runCalls history) key now = some retry ↔
      ∃ deadline, lastDeadline failures = some deadline ∧ now < deadline ∧
        retry = ⌈((deadline - now : ℤ) : ℚ) / 1000000⌉ := by
    rw [guard_eq hrow, Option.bind_eq_some_iff]
    refine exists_congr fun deadline => and_congr_right fun _ => ?_
    split_ifs with hlt <;> simp [hlt, eq_comm]
  -- the deadline is that of the last failure, which is in the past
  have hdeadline {deadline : ℤ} (h : lastDeadline failures = some deadline) :
      ∃ last, failures.head? = some last ∧ last ≤ now ∧ deadline ≤ last + seconds capSeconds := by
    obtain ⟨last, hlast, hd⟩ := Option.bind_eq_some_iff.mp h
    obtain ⟨e, he, rfl⟩ := exists_of_mem_failuresSince (List.mem_of_head? hlast)
    have hle : e.time ≤ now := (List.pairwise_append.mp hmono).2.2 _
      (List.mem_map_of_mem he) now (List.mem_singleton_self now)
    exact ⟨e.time, hlast, hle, le_of_deadlineOf hd⟩
  refine ⟨?_, hguard, ?_, ?_, ?_⟩
  · have hfailed : failedRow (rowOf failures) now = ⟨n, deadlineOf n now, now⟩ :=
      Option.some_inj.mp (failedRow_rowOf failures now)
    rw [recordFailure, hrow, hfailed]
  · intro retry h
    obtain ⟨deadline, hd, hlt, rfl⟩ := (hguard retry).mp h
    obtain ⟨last, -, hle, hcap⟩ := hdeadline hd
    exact retry_bounds hlt (by omega)
  · intro last hlast hcap
    refine Option.eq_none_iff_forall_ne_some.mpr fun retry h => ?_
    obtain ⟨deadline, hd, hlt, -⟩ := (hguard retry).mp h
    obtain ⟨last', hlast', -, hcap'⟩ := hdeadline hd
    obtain rfl : last = last' := Option.some_inj.mp (hlast.symm.trans hlast')
    omega
  · intro others h
    have hsame : runCalls others key = runCalls history key := by
      rw [runCalls_eq, runCalls_eq, ← failuresSince_filter key others, h, failuresSince_filter]
    constructor
    · rw [guard, guard, hsame]
    · rw [recordFailure, recordFailure, hsame]

/-- Five failures in a row, one a second: the fifth waits thirty seconds. -/
theorem throttle_law_five :
    let key : Key := ⟨.ip, "203.0.113.9".toList⟩
    let history := (List.range 4).map fun i => (⟨seconds i, key, .failure⟩ : Event)
    (recordFailure (runCalls history) key (seconds 4)).2 = (5, some (seconds 34)) :=
  (throttle_law _ _ _ (by decide)).1

end Backoff

end Frostvault

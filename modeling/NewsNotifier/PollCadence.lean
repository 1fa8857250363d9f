import NewsNotifier.SearchMerge

namespace NewsNotifier

def minute : Int := 60 * 1000000

/-- The resolution date is past or at most 30 days away: a fixed tier applies. -/
def isNear (resolutionDate : Option Int) (now : Int) : Bool :=
  resolutionDate.any fun r => r - now ≤ 30 * 24 * 60 * minute

/-- The minutes of the fixed tier of a near date. -/
def tierMinutes (resolutionDate now : Int) : Int :=
  if resolutionDate - now ≤ 24 * 60 * minute then 60
  else if resolutionDate - now ≤ 7 * 24 * 60 * minute then 360
  else 1440

/-- The minutes between two polls. -/
def cadenceMinutes (resolutionDate : Option Int) (now : Int) (defaultMinutes : Int) : Int :=
  match resolutionDate with
  | none => defaultMinutes
  | some r => if isNear (some r) now then tierMinutes r now else defaultMinutes

variable {r : Int} {r₂ : Option Int} {now : Int} {defaultMinutes : Int}

theorem tierMinutes_bounds (r now : Int) : 60 ≤ tierMinutes r now ∧ tierMinutes r now ≤ 1440 := by
  unfold tierMinutes
  split
  next => omega
  next =>
    split
    · omega
    · omega

theorem tierMinutes_mono {r' : Int} (h : r ≤ r') : tierMinutes r now ≤ tierMinutes r' now := by
  unfold tierMinutes
  split
  next => have := (tierMinutes_bounds r' now).1; unfold tierMinutes at this; exact this
  next notDay =>
    have notDay' : ¬ r' - now ≤ 24 * 60 * minute := by omega
    rw [if_neg notDay']
    split
    next => split <;> omega
    next notWeek =>
      have notWeek' : ¬ r' - now ≤ 7 * 24 * 60 * minute := by omega
      rw [if_neg notWeek']

theorem tierMinutes_past (h : r ≤ now) : tierMinutes r now = 60 := by
  have day : r - now ≤ 24 * 60 * minute := by unfold minute; omega
  rw [tierMinutes, if_pos day]

theorem isNear_past (h : r ≤ now) : isNear (some r) now = true := by
  have near : r - now ≤ 30 * 24 * 60 * minute := by unfold minute; omega
  simpa [isNear] using near

theorem pollStep_eq (resolutionDate : Option Int) (now : Int) (defaultMinutes : Int) :
    pollStep resolutionDate now defaultMinutes =
      cadenceMinutes resolutionDate now defaultMinutes * minute := by
  cases resolutionDate with
  | none => rfl
  | some r =>
    simp only [pollStep, cadenceMinutes, isNear, Option.any_some, decide_eq_true_eq]
    by_cases past : r - now ≤ 0
    · have near : r - now ≤ 30 * 24 * 60 * minute := by unfold minute; omega
      rw [if_pos past, if_pos near, tierMinutes_past (by omega)]
      rfl
    · rw [if_neg past]
      unfold tierMinutes minute
      by_cases day : r - now ≤ 24 * 3600 * 1000000
      · grind [adaptiveTiers]
      · by_cases week : r - now ≤ 7 * 24 * 3600 * 1000000
        · grind [adaptiveTiers]
        · grind [adaptiveTiers]

theorem nextPollAt_punctual (resolutionDate : Option Int) (u : Rat) :
    nextPollAt resolutionDate now defaultMinutes 0 u =
      now + cadenceMinutes resolutionDate now defaultMinutes * minute := by
  simp only [nextPollAt, if_true, pollStep_eq]

theorem nextPollAt_le (first second : Option Int) (u v : Rat) :
    nextPollAt first now defaultMinutes 0 u ≤ nextPollAt second now defaultMinutes 0 v ↔
      cadenceMinutes first now defaultMinutes ≤ cadenceMinutes second now defaultMinutes := by
  rw [nextPollAt_punctual, nextPollAt_punctual]
  show (now + cadenceMinutes first now defaultMinutes * minute : Int) ≤
    now + cadenceMinutes second now defaultMinutes * minute ↔ _
  unfold minute
  omega

/-- A later date is near only if the earlier one is. -/
theorem isNear_earlier (order : ∀ later ∈ r₂, r ≤ later) (h : isNear r₂ now = true) :
    isNear (some r) now = true := by
  cases hr : r₂ with
  | none => simp [hr, isNear] at h
  | some later =>
    have before := order later (by simp [hr])
    simp only [hr, isNear, Option.any_some, decide_eq_true_eq] at h ⊢
    omega

theorem cadenceMinutes_le_iff (order : ∀ later ∈ r₂, r ≤ later) :
    cadenceMinutes (some r) now defaultMinutes ≤ cadenceMinutes r₂ now defaultMinutes ↔
      isNear r₂ now = true ∨ isNear (some r) now = false ∨ tierMinutes r now ≤ defaultMinutes := by
  by_cases far : isNear r₂ now = true
  · have near := isNear_earlier order far
    cases hr : r₂ with
    | none => simp [hr, isNear] at far
    | some later =>
      have tiers : tierMinutes r now ≤ tierMinutes later now :=
        tierMinutes_mono (order later (by simp [hr]))
      rw [hr] at far
      simp [cadenceMinutes, near, far, tiers]
  · have second : cadenceMinutes r₂ now defaultMinutes = defaultMinutes := by
      cases hr : r₂ with
      | none => rfl
      | some later =>
        rw [hr] at far
        simp [cadenceMinutes, far]
    rw [second]
    by_cases near : isNear (some r) now = true
    · simp [cadenceMinutes, near, far]
    · simp [cadenceMinutes, near, far]

theorem cadenceMinutes_past (h : r ≤ now) :
    (∀ r₂, cadenceMinutes (some r) now defaultMinutes ≤ cadenceMinutes r₂ now defaultMinutes) ↔
      60 ≤ defaultMinutes := by
  have hourly : cadenceMinutes (some r) now defaultMinutes = 60 := by
    simp [cadenceMinutes, isNear_past h, tierMinutes_past h]
  rw [hourly]
  constructor
  · exact fun all => all none
  · intro slow r₂
    cases r₂ with
    | none => exact slow
    | some later =>
      have tier := (tierMinutes_bounds later now).1
      by_cases near : isNear (some later) now = true
      · simpa [cadenceMinutes, near] using tier
      · simpa [cadenceMinutes, near] using slow

/-- The earlier date is polled no later exactly where a fixed tier applies to the later one, none to the earlier, or
the default is no smaller than the earlier one's tier. The sums are those of the calls that return: outside the range
of a datetime `nextPoll` has no value. -/
theorem polling_cadence (now : Int) (defaultMinutes : Int) (u v : Rat) :
    (∀ (r₁ : Int) (r₂ : Option Int), (∀ later ∈ r₂, r₁ ≤ later) →
      (nextPollAt (some r₁) now defaultMinutes 0 u ≤ nextPollAt r₂ now defaultMinutes 0 v ↔
        isNear r₂ now = true ∨ isNear (some r₁) now = false ∨ tierMinutes r₁ now ≤ defaultMinutes)) ∧
    (∀ r₁ ≤ now, (∀ r₂, nextPollAt (some r₁) now defaultMinutes 0 u ≤
      nextPollAt r₂ now defaultMinutes 0 v) ↔ 60 ≤ defaultMinutes) := by
  constructor
  · intro r₁ r₂ order
    rw [nextPollAt_le, cadenceMinutes_le_iff order]
  · intro r₁ past
    simp only [nextPollAt_le]
    exact cadenceMinutes_past past

theorem polling_cadence_sample :
    nextPollAt (some 0) (60 * minute) 60 0 0 ≤ nextPollAt (some (2 * 60 * minute)) (60 * minute) 60 0 0 :=
  ((polling_cadence (60 * minute) 60 0 0).1 0 (some (2 * 60 * minute)) (by decide)).mpr (by decide)

/-- A market past its date is polled hourly, one without a date every 30 minutes. -/
theorem frequent_default : (1 : Int) ≤ 30 ∧
    ¬ nextPollAt (some 0) (60 * minute) 30 0 0 ≤ nextPollAt none (60 * minute) 30 0 0 := by
  decide +kernel

end NewsNotifier

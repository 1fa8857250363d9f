import NewsNotifier.PyValues
import Mathlib.Tactic.Linarith
import Mathlib.Tactic.NormNum

namespace NewsNotifier

theorem roundHalfEven_floor_le (q : Rat) : q.floor ≤ roundHalfEven q := by
  unfold roundHalfEven
  grind

theorem roundHalfEven_le_floor_succ (q : Rat) : roundHalfEven q ≤ q.floor + 1 := by
  unfold roundHalfEven
  grind

/-- The rounded value is one of the nearest integers. -/
theorem roundHalfEven_near (q : Rat) :
    q - 1 / 2 ≤ roundHalfEven q ∧ (roundHalfEven q : Rat) ≤ q + 1 / 2 := by
  have low : (q.floor : Rat) ≤ q := Rat.floor_le q
  have high : q < (q.floor : Rat) + 1 := by exact_mod_cast Rat.lt_floor_add_one q
  simp only [roundHalfEven]
  split
  next below => constructor <;> linarith
  next notBelow =>
    split
    next above =>
      push_cast
      constructor <;> linarith
    next notAbove =>
      split
      · constructor <;> linarith
      · push_cast
        constructor <;> linarith

theorem roundHalfEven_mono {q r : Rat} (h : q ≤ r) : roundHalfEven q ≤ roundHalfEven r := by
  have floors : q.floor ≤ r.floor := Rat.floor_monotone h
  by_cases same : q.floor = r.floor
  · have parts : q - q.floor ≤ r - r.floor := by rw [same]; linarith
    unfold roundHalfEven
    rw [same] at parts ⊢
    grind
  · have below := roundHalfEven_le_floor_succ q
    have above := roundHalfEven_floor_le r
    omega

theorem roundHalfEven_intCast (n : Int) : roundHalfEven (n : Rat) = n := by
  unfold roundHalfEven
  simp

theorem roundHalfEven_le {q : Rat} {n : Int} (h : q ≤ n) : roundHalfEven q ≤ n := by
  have rounded := roundHalfEven_mono h
  rwa [roundHalfEven_intCast] at rounded

theorem le_roundHalfEven {q : Rat} {n : Int} (h : n ≤ q) : n ≤ roundHalfEven q := by
  have rounded := roundHalfEven_mono h
  rwa [roundHalfEven_intCast] at rounded

end NewsNotifier

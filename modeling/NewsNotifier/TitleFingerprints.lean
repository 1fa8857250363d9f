import NewsNotifier.CharacterRuns
import NewsNotifier.NewsRuns
import Mathlib

namespace NewsNotifier

theorem toSigned64_range {f : Nat} (h : f < 2 ^ 64) :
    -2 ^ 63 ≤ toSigned64 f ∧ toSigned64 f < 2 ^ 63 := by
  unfold toSigned64
  split <;> omega

theorem fromSigned64_lt (v : Int) : fromSigned64 v < 2 ^ 64 := by
  unfold fromSigned64
  omega

theorem toSigned64_fromSigned64 {v : Int} (low : -2 ^ 63 ≤ v) (high : v < 2 ^ 63) :
    toSigned64 (fromSigned64 v) = v := by
  unfold fromSigned64 toSigned64
  split <;> omega

theorem signed64_maps :
    Set.MapsTo toSigned64 (Set.Iio (2 ^ 64)) (Set.Ico (-2 ^ 63) (2 ^ 63)) ∧
      Set.MapsTo fromSigned64 (Set.Ico (-2 ^ 63) (2 ^ 63)) (Set.Iio (2 ^ 64)) :=
  ⟨fun _ h => toSigned64_range h, fun v _ => fromSigned64_lt v⟩

theorem signed64_inverse :
    Set.InvOn fromSigned64 toSigned64 (Set.Iio (2 ^ 64)) (Set.Ico (-2 ^ 63) (2 ^ 63)) :=
  ⟨fun _ h => fromSigned64_toSigned64 h, fun _ h => toSigned64_fromSigned64 h.1 h.2⟩

/-- The positions, among the 64 of a fingerprint, where two values differ. -/
def differingBits (a b : Nat) : Nat := (List.range 64).countP fun i => a.testBit i != b.testBit i

theorem digits_count_one (width : Nat) {n : Nat} (h : n < 2 ^ width) :
    (Nat.digits 2 n).count 1 = (List.range width).countP n.testBit := by
  induction width generalizing n with
  | zero =>
    have none : n = 0 := by omega
    simp [none]
  | succ width ih =>
    by_cases none : n = 0
    · have unset : ∀ i ∈ List.range (width + 1), ¬ Nat.testBit 0 i = true := by simp
      rw [none, List.countP_eq_zero.mpr unset]
      rfl
    · have half : n / 2 < 2 ^ width := by omega
      have shifted : (n.testBit ∘ Nat.succ) = (n / 2).testBit := by
        funext i
        simp [Nat.testBit_add_one]
      rw [Nat.digits_def' (by omega) (by omega), List.range_succ_eq_map, List.countP_cons,
        List.countP_map, shifted, List.count_cons, ih half]
      simp

theorem hammingDistance_bits {a b : Nat} (ha : a < 2 ^ 64) (hb : b < 2 ^ 64) :
    hammingDistance a b = differingBits a b := by
  unfold hammingDistance differingBits
  rw [digits_count_one 64 (Nat.xor_lt_two_pow ha hb)]
  congr 1
  funext i
  simp [Nat.testBit_xor, bne]

theorem addDigest_comm (weights : List Int) (d e : Nat) :
    addDigest (addDigest weights d) e = addDigest (addDigest weights e) d := by
  unfold addDigest
  rw [List.mapIdx_mapIdx, List.mapIdx_mapIdx]
  congr 1
  funext i w
  simp only [Function.comp_apply]
  split <;> split <;> omega

theorem addDigest_foldl_perm {ds es : List Nat} (h : ds.Perm es) (weights : List Int) :
    ds.foldl addDigest weights = es.foldl addDigest weights := by
  have swaps : RightCommutative addDigest := ⟨addDigest_comm⟩
  exact h.foldl_eq weights

theorem simhash_perm (lib : PyLib) {a b : String} (h : (tokenize lib a).Perm (tokenize lib b)) :
    simhash lib a = simhash lib b := by
  have votes := addDigest_foldl_perm (h.map lib.md5) (List.replicate 64 0)
  have blank : (tokenize lib a).isEmpty = (tokenize lib b).isEmpty := by
    cases ha : tokenize lib a <;> cases hb : tokenize lib b <;> simp [ha, hb] at h ⊢
  simp only [simhash, blank, votes]

theorem tokenize_spelled (lib : PyLib) {title : String} {words : List (List Char)}
    (h : Spells lib.isWord words (lib.lower title).toList) :
    tokenize lib title = words.map String.ofList := by
  unfold tokenize
  rw [h.runs]

/-- What the int8 column holds for rows with these titles; a row may have no fingerprint. -/
def storedTitles (lib : PyLib) (titles : List (String × Option String)) :
    List (String × Option Int) :=
  titles.map fun row => (row.1, row.2.map fun title => toSigned64 (simhash lib title))

/-- The decision on fingerprints that were never stored. -/
def dupFreshTitle (lib : PyLib) (threshold : Int) (a : String)
    (titles : List (String × Option String)) : Bool :=
  titles.any fun row =>
    row.2.any fun title => differingBits (simhash lib a) (simhash lib title) ≤ threshold

theorem dupTitle_stored (lib : PyLib) (cfg : Settings) (a : String)
    (titles : List (String × Option String)) :
    dupTitle cfg (simhash lib a) (storedTitles lib titles) =
      dupFreshTitle lib cfg.simhashHammingThreshold a titles := by
  unfold dupTitle dupFreshTitle storedTitles
  rw [List.any_map]
  congr 1
  funext row
  cases hr : row.2 with
  | none => simp [hr]
  | some title =>
    have wide := simhash_lt lib title
    simp [hr, fromSigned64_toSigned64 wide, hammingDistance_bits (simhash_lt lib a) wide]

theorem title_fingerprint (lib : PyLib) (a b : String) :
    simhash lib a < 2 ^ 64 ∧
    toSigned64 (simhash lib a) ∈ Set.Ico (-2 ^ 63) (2 ^ 63) ∧
    Set.MapsTo toSigned64 (Set.Iio (2 ^ 64)) (Set.Ico (-2 ^ 63) (2 ^ 63)) ∧
    Set.MapsTo fromSigned64 (Set.Ico (-2 ^ 63) (2 ^ 63)) (Set.Iio (2 ^ 64)) ∧
    Set.InvOn fromSigned64 toSigned64 (Set.Iio (2 ^ 64)) (Set.Ico (-2 ^ 63) (2 ^ 63)) ∧
    hammingDistance (simhash lib a) (fromSigned64 (toSigned64 (simhash lib b))) =
      differingBits (simhash lib a) (simhash lib b) ∧
    (∀ (cfg : Settings) (titles : List (String × Option String)),
      dupTitle cfg (simhash lib a) (storedTitles lib titles) =
        dupFreshTitle lib cfg.simhashHammingThreshold a titles) ∧
    (∀ wordsA wordsB : List (List Char), Spells lib.isWord wordsA (lib.lower a).toList →
      Spells lib.isWord wordsB (lib.lower b).toList → wordsA.Perm wordsB →
      simhash lib a = simhash lib b) := by
  have wideA := simhash_lt lib a
  have wideB := simhash_lt lib b
  refine ⟨wideA, toSigned64_range wideA, signed64_maps.1, signed64_maps.2, signed64_inverse, ?_,
    fun cfg titles => dupTitle_stored lib cfg a titles, ?_⟩
  · rw [fromSigned64_toSigned64 wideB]
    exact hammingDistance_bits wideA wideB
  · intro wordsA wordsB spelledA spelledB same
    apply simhash_perm
    rw [tokenize_spelled lib spelledA, tokenize_spelled lib spelledB]
    exact same.map String.ofList

theorem title_fingerprint_sample :
    simhash sampleLib "rates fall" = simhash sampleLib " fall  rates" := by
  have spelled : Spells sampleLib.isWord ["rates".toList, "fall".toList]
      (sampleLib.lower "rates fall").toList := spells_iff.mpr (by decide +kernel)
  have turned : Spells sampleLib.isWord ["fall".toList, "rates".toList]
      (sampleLib.lower " fall  rates").toList := spells_iff.mpr (by decide +kernel)
  obtain ⟨_, _, _, _, _, _, _, unordered⟩ := title_fingerprint sampleLib "rates fall" " fall  rates"
  exact unordered _ _ spelled turned (by decide)

end NewsNotifier

import NewsNotifier.HalfEvenRounding
import NewsNotifier.CandidateProgram
import NewsNotifier.ExecutionTraces
import Mathlib.Data.List.MinMax

namespace NewsNotifier

open Interleaving

section Labels

variable {cs c : List Char}

/-- `c` has two labels or more and is `cs`, or what follows a dot in it. -/
def IsLabelSuffix (cs c : List Char) : Prop := '.' ∈ c ∧ (c = cs ∨ ('.' :: c) <:+ cs)

instance : Decidable (IsLabelSuffix cs c) := inferInstanceAs (Decidable (_ ∧ _))

theorem two_labels_iff : 2 ≤ (c.splitOn '.').length ↔ '.' ∈ c := by
  constructor
  · intro two
    by_contra absent
    rw [List.splitOn_eq_singleton absent] at two
    simp at two
  · intro dot
    obtain ⟨front, back, split⟩ := List.append_of_mem dot
    have some := List.length_pos_iff.mpr (List.splitOn_ne_nil '.' front)
    have more := List.length_pos_iff.mpr (List.splitOn_ne_nil '.' back)
    rw [split, List.splitOn_append_cons_self, List.length_append]
    omega

theorem dots_append {front back : List (List Char)} (hf : front ≠ []) (hb : back ≠ []) :
    ['.'].intercalate (front ++ back) =
      ['.'].intercalate front ++ '.' :: ['.'].intercalate back := by
  induction front with
  | nil => exact absurd rfl hf
  | cons label front ih =>
    obtain ⟨next, back, rfl⟩ := List.exists_cons_of_ne_nil hb
    cases front with
    | nil => simp [List.intercalate_cons_cons]
    | cons second front =>
      have later := ih (by simp)
      simp only [List.cons_append] at later ⊢
      rw [List.intercalate_cons_cons, later, List.intercalate_cons_cons]
      simp

/-- The labels of `cs` from the `i`-th on. -/
def labelsFrom (cs : List Char) (i : Nat) : List Char := ['.'].intercalate ((cs.splitOn '.').drop i)

theorem labelsFrom_zero : labelsFrom cs 0 = cs := by
  simp [labelsFrom, List.intercalate_splitOn]

theorem labelsFrom_split {i j : Nat} (hij : i < j) (hj : j < (cs.splitOn '.').length) :
    ∃ front, labelsFrom cs i = front ++ '.' :: labelsFrom cs j := by
  have parts : (cs.splitOn '.').drop i =
      ((cs.splitOn '.').drop i).take (j - i) ++ (cs.splitOn '.').drop j := by
    have rest := List.take_append_drop (j - i) ((cs.splitOn '.').drop i)
    rw [List.drop_drop, show i + (j - i) = j by omega] at rest
    exact rest.symm
  have taken : ((cs.splitOn '.').drop i).take (j - i) ≠ [] := by
    have : 0 < (((cs.splitOn '.').drop i).take (j - i)).length := by simp; omega
    exact List.ne_nil_of_length_pos this
  have left : (cs.splitOn '.').drop j ≠ [] := by simp; omega
  refine ⟨['.'].intercalate (((cs.splitOn '.').drop i).take (j - i)), ?_⟩
  calc labelsFrom cs i
      = ['.'].intercalate (((cs.splitOn '.').drop i).take (j - i) ++ (cs.splitOn '.').drop j) := by
        rw [labelsFrom, ← parts]
    _ = _ := dots_append taken left

theorem labelsFrom_suffix {i : Nat} (hi : i < (cs.splitOn '.').length - 1) :
    IsLabelSuffix cs (labelsFrom cs i) := by
  have dot : '.' ∈ labelsFrom cs i := by
    obtain ⟨front, split⟩ := @labelsFrom_split cs i (i + 1) (by omega) (by omega)
    rw [split]
    simp
  refine ⟨dot, ?_⟩
  by_cases first : i = 0
  · left
    rw [first, labelsFrom_zero]
  · right
    obtain ⟨front, split⟩ := @labelsFrom_split cs 0 i (by omega) (by omega)
    rw [labelsFrom_zero] at split
    exact ⟨front, split.symm⟩

theorem suffix_labelsFrom (h : IsLabelSuffix cs c) :
    ∃ i < (cs.splitOn '.').length - 1, labelsFrom cs i = c := by
  obtain ⟨dot, rfl | ⟨front, split⟩⟩ := h
  · have two := two_labels_iff.mpr dot
    exact ⟨0, by omega, labelsFrom_zero⟩
  · have two := two_labels_iff.mpr dot
    have labels : cs.splitOn '.' = front.splitOn '.' ++ c.splitOn '.' := by
      rw [← split, List.splitOn_append_cons_self]
    refine ⟨(front.splitOn '.').length, ?_, ?_⟩
    · rw [labels, List.length_append]
      omega
    · simp [labelsFrom, labels, List.intercalate_splitOn]

end Labels

/-- The seeded domain is the article's, or a parent of it on a label boundary, and no bare label. -/
def Covers (seeded domain : String) : Prop := IsLabelSuffix domain.toList seeded.toList

instance {seeded domain : String} : Decidable (Covers seeded domain) :=
  inferInstanceAs (Decidable (IsLabelSuffix _ _))

example : ¬ Covers "cnn.com" "notcnn.com" ∧ ¬ Covers "com" "cnn.com" ∧
    Covers "cnn.com" "edition.cnn.com" := by decide

theorem domainCandidates_eq (domain : String) : domainCandidates domain =
    (List.range ((domain.toList.splitOn '.').length - 1)).map
      fun i => String.ofList (labelsFrom domain.toList i) := rfl

theorem mem_domainCandidates {domain seeded : String} :
    seeded ∈ domainCandidates domain ↔ Covers seeded domain := by
  rw [domainCandidates_eq, List.mem_map]
  constructor
  · rintro ⟨i, hi, rfl⟩
    have suffix := labelsFrom_suffix (List.mem_range.mp hi)
    simpa [Covers] using suffix
  · intro covers
    obtain ⟨i, hi, labels⟩ := suffix_labelsFrom covers
    exact ⟨i, List.mem_range.mpr hi, by rw [labels, String.ofList_toList]⟩

theorem domainCandidates_longest_first (domain : String) :
    (domainCandidates domain).Pairwise fun a b => b.length < a.length := by
  rw [domainCandidates_eq, List.pairwise_map]
  have ordered := List.pairwise_lt_range (n := (domain.toList.splitOn '.').length - 1)
  apply ordered.imp_of_mem
  intro i j _ hj hij
  have last := List.mem_range.mp hj
  obtain ⟨front, split⟩ := @labelsFrom_split domain.toList i j hij (by omega)
  rw [String.length_ofList, String.length_ofList, split, List.length_append, List.length_cons]
  omega

structure LongestMatch (table : List Source) (domain : String) (best : Source) : Prop where
  seeded : best ∈ table
  covers : Covers best.domain domain
  longest : ∀ s ∈ table, Covers s.domain domain → s.domain.length ≤ best.domain.length

/-- The tier the reputation table gives a domain. -/
inductive Reputation (table : List Source) (domain : String) : ReliabilityTier → Prop
  | known {best : Source} (longest : LongestMatch table domain best) :
      Reputation table domain best.reliabilityTier
  | unknown (uncovered : ∀ s ∈ table, ¬ Covers s.domain domain) : Reputation table domain .unknown

def tierOf (source : Option Source) : ReliabilityTier :=
  match source with
  | some source => source.reliabilityTier
  | none => .unknown

def firstHit (domain : String) (rows : List Source) : Option Source :=
  (domainCandidates domain).findSome? fun c => rows.find? (·.domain == c)

def blend (tier : ReliabilityTier) (signal : Rat) : Rat :=
  (roundHalfEven ((sourceWeight * tierBaseScore tier + llmSignalWeight * clamp01 signal) * 1000) : Rat) /
    1000

theorem credibilityOf_eq (domain : String) (rows : List Source) (signal : Rat) :
    credibilityOf domain rows signal = blend (tierOf (firstHit domain rows)) signal := by
  unfold credibilityOf blend firstHit tierOf
  cases (domainCandidates domain).findSome? fun c => rows.find? (·.domain == c) <;> rfl

section Rows

variable {table rows : List Source} {domain : String}

theorem firstHit_longest (unique : (table.map (·.domain)).Nodup)
    (answer : ∀ s, s ∈ rows ↔ s ∈ table ∧ Covers s.domain domain) {best : Source}
    (longest : LongestMatch table domain best) : firstHit domain rows = some best := by
  have bestRow : best ∈ rows := (answer best).mpr ⟨longest.seeded, longest.covers⟩
  have candidate : best.domain ∈ domainCandidates domain := mem_domainCandidates.mpr longest.covers
  unfold firstHit
  cases hit : (domainCandidates domain).findSome? fun c => rows.find? (·.domain == c) with
  | none =>
    have missed := List.findSome?_eq_none_iff.mp hit best.domain candidate
    have := List.find?_eq_none.mp missed best bestRow
    simp at this
  | some s =>
    obtain ⟨before, c, after, split, found, earlier⟩ := List.findSome?_eq_some_iff.mp hit
    have row := (answer s).mp (List.mem_of_find?_eq_some found)
    have named : s.domain = c := by simpa using List.find?_some found
    have ordered := domainCandidates_longest_first domain
    rw [split] at candidate ordered
    rcases List.mem_append.mp candidate with inBefore | inRest
    · have missed := List.find?_eq_none.mp (earlier _ inBefore) best bestRow
      simp at missed
    · rcases List.mem_cons.mp inRest with same | inAfter
      · have equal : s.domain = best.domain := by rw [named, same]
        rw [List.inj_on_of_nodup_map unique row.1 longest.seeded equal]
      · have shorter := (List.pairwise_cons.mp (List.pairwise_append.mp ordered).2.1).1 _ inAfter
        have bound := longest.longest s row.1 row.2
        rw [named] at bound
        omega

theorem firstHit_uncovered (answer : ∀ s, s ∈ rows ↔ s ∈ table ∧ Covers s.domain domain)
    (uncovered : ∀ s ∈ table, ¬ Covers s.domain domain) : firstHit domain rows = none := by
  apply List.findSome?_eq_none_iff.mpr
  intro c _
  apply List.find?_eq_none.mpr
  intro s hs
  have row := (answer s).mp hs
  exact absurd row.2 (uncovered s row.1)

theorem tierOf_reputation (unique : (table.map (·.domain)).Nodup)
    (answer : ∀ s, s ∈ rows ↔ s ∈ table ∧ Covers s.domain domain) {tier : ReliabilityTier}
    (reputation : Reputation table domain tier) : tierOf (firstHit domain rows) = tier := by
  cases reputation with
  | known longest => rw [firstHit_longest unique answer longest, tierOf]
  | unknown uncovered => rw [firstHit_uncovered answer uncovered, tierOf]

/-- A finite table has a longest match or none. -/
theorem reputation_exists (table : List Source) (domain : String) :
    ∃ tier, Reputation table domain tier := by
  let matching := table.filter fun s => decide (Covers s.domain domain)
  have mem {s : Source} : s ∈ matching ↔ s ∈ table ∧ Covers s.domain domain := by simp [matching]
  cases hm : matching.argmax (·.domain.length) with
  | none =>
    have empty := List.argmax_eq_none.mp hm
    refine ⟨.unknown, .unknown fun s hs covers => ?_⟩
    have := mem.mpr ⟨hs, covers⟩
    simp [empty] at this
  | some best =>
    have chosen := mem.mp (List.argmax_mem hm)
    refine ⟨best.reliabilityTier, .known ⟨chosen.1, chosen.2, fun s hs covers => ?_⟩⟩
    exact List.le_of_mem_argmax (f := fun s : Source => s.domain.length) (mem.mpr ⟨hs, covers⟩) hm

end Rows

theorem blend_bounds (tier : ReliabilityTier) (signal : Rat) :
    0 ≤ blend tier signal ∧ blend tier signal ≤ 1 := by
  have low : 0 ≤ clamp01 signal := by simp [clamp01]
  have high : clamp01 signal ≤ 1 := by simp [clamp01]
  have base : 0 ≤ tierBaseScore tier ∧ tierBaseScore tier ≤ 1 := by
    cases tier <;> norm_num [tierBaseScore]
  unfold blend sourceWeight llmSignalWeight
  constructor
  · have scaled : (0 : Int) ≤ roundHalfEven
        ((6 / 10 * tierBaseScore tier + 4 / 10 * clamp01 signal) * 1000) := by
      apply le_roundHalfEven
      push_cast
      linarith
    have : (0 : Rat) ≤ roundHalfEven
        ((6 / 10 * tierBaseScore tier + 4 / 10 * clamp01 signal) * 1000) := by exact_mod_cast scaled
    linarith
  · have scaled : roundHalfEven
        ((6 / 10 * tierBaseScore tier + 4 / 10 * clamp01 signal) * 1000) ≤ 1000 := by
      apply roundHalfEven_le
      push_cast
      linarith
    have : (roundHalfEven
        ((6 / 10 * tierBaseScore tier + 4 / 10 * clamp01 signal) * 1000) : Rat) ≤ 1000 := by
      exact_mod_cast scaled
    linarith

theorem clamp01_mono {x y : Rat} (h : x ≤ y) : clamp01 x ≤ clamp01 y :=
  max_le_max_left 0 (min_le_min_left 1 h)

theorem blend_mono {tier tier' : ReliabilityTier} {signal signal' : Rat}
    (base : tierBaseScore tier ≤ tierBaseScore tier') (h : signal ≤ signal') :
    blend tier signal ≤ blend tier' signal' := by
  have clamped := clamp01_mono h
  have rounded : roundHalfEven
      ((sourceWeight * tierBaseScore tier + llmSignalWeight * clamp01 signal) * 1000) ≤
      roundHalfEven
        ((sourceWeight * tierBaseScore tier' + llmSignalWeight * clamp01 signal') * 1000) := by
    apply roundHalfEven_mono
    unfold sourceWeight llmSignalWeight
    linarith
  unfold blend
  have cast : (_ : Rat) ≤ _ := Int.cast_le.mpr rounded
  linarith

theorem blend_clamped {tier : ReliabilityTier} {signal signal' : Rat}
    (h : clamp01 signal = clamp01 signal') : blend tier signal = blend tier signal' := by
  unfold blend
  rw [h]

/-- The rows of the table a query may return, in any order. -/
def readsSources (table : List Source) : (s : Stmt) → Answer s → Prop
  | .sourcesIn domains, rows => rows.Perm (table.filter fun s => domains.contains s.domain)
  | _, _ => True

/-- Whatever order the rows come in, `compute_credibility` returns this score. -/
def Scores (table : List Source) (domain : String) (signal score : Rat) : Prop :=
  (computeCredibility domain (.num signal)).Returns (readsSources table) fun result => result = score

theorem computeCredibility_scores {table : List Source} (unique : (table.map (·.domain)).Nodup)
    {domain : String} {tier : ReliabilityTier} (reputation : Reputation table domain tier)
    (signal : Rat) : Scores table domain signal (blend tier signal) := by
  unfold Scores computeCredibility sourceRows
  by_cases bare : domainCandidates domain = []
  · have answer (s : Source) : s ∈ ([] : List Source) ↔ s ∈ table ∧ Covers s.domain domain := by
      simp [← mem_domainCandidates, bare]
    simp only [bare, if_true, Prog.pure_eq, Prog.bind_eq, Prog.ret_bind, Json.number]
    show credibilityOf domain [] signal = blend tier signal
    rw [credibilityOf_eq, tierOf_reputation unique answer reputation]
  · simp only [bare, if_false, await_eq, Prog.bind_eq, Prog.stmt_bind, Prog.ret_bind, Json.number]
    refine ⟨True.intro, fun rows given => ?_⟩
    have answer (s : Source) : s ∈ rows ↔ s ∈ table ∧ Covers s.domain domain := by
      have listed := given.mem_iff (a := s)
      simpa [mem_domainCandidates] using listed
    show credibilityOf domain rows signal = blend tier signal
    rw [credibilityOf_eq, tierOf_reputation unique answer reputation]

theorem source_reputation (table : List Source) (unique : (table.map (·.domain)).Nodup)
    (domain : String) :
    ∃ tier, Reputation table domain tier ∧
      (∀ other, Reputation table domain other → other = tier) ∧
      (∀ signal, Scores table domain signal (blend tier signal)) ∧
      (∀ signal, 0 ≤ blend tier signal ∧ blend tier signal ≤ 1) ∧
      (∀ signal signal', clamp01 signal = clamp01 signal' → blend tier signal = blend tier signal') ∧
      (∀ tier' signal signal', tierBaseScore tier ≤ tierBaseScore tier' → signal ≤ signal' →
        blend tier signal ≤ blend tier' signal') := by
  obtain ⟨tier, reputation⟩ := reputation_exists table domain
  have answer (s : Source) : s ∈ (table.filter fun s => Covers s.domain domain) ↔
      s ∈ table ∧ Covers s.domain domain := by simp
  have named := tierOf_reputation unique answer reputation
  refine ⟨tier, reputation, fun other also => ?_, computeCredibility_scores unique reputation,
    blend_bounds tier, fun _ _ same => blend_clamped same, fun _ _ _ base h => blend_mono base h⟩
  rw [← named, ← tierOf_reputation unique answer also]

def yahooSources : List Source :=
  [⟨"yahoo.com", .tier2MajorMedia⟩, ⟨"finance.yahoo.com", .tier1Official⟩]

theorem source_reputation_sample : Scores yahooSources "uk.finance.yahoo.com" 2 (97 / 100) := by
  have longest : LongestMatch yahooSources "uk.finance.yahoo.com"
      ⟨"finance.yahoo.com", .tier1Official⟩ := ⟨by decide, by decide, by decide⟩
  obtain ⟨tier, _, only, scores, _⟩ :=
    source_reputation yahooSources (by decide) "uk.finance.yahoo.com"
  have value : blend .tier1Official 2 = 97 / 100 := by decide +kernel
  have score := scores 2
  rwa [← only _ (.known longest), value] at score

end NewsNotifier

import NewsNotifier.SearchMerge
import NewsNotifier.StableRanking

namespace NewsNotifier

open StableRanking

section Pairs

variable {β : Type} {sims : List β} {candidates : List Candidate}

/-- The similarity and the candidate of a position. -/
def pairAt (same : sims.length = candidates.length) (i : Fin sims.length) : β × Candidate :=
  (sims.get i, candidates.get (i.cast same))

theorem zip_positions (same : sims.length = candidates.length) :
    sims.zip candidates = (List.finRange sims.length).map (pairAt same) := by
  refine List.ext_getElem (by simp [same]) fun n h h' => ?_
  simp [pairAt]

end Pairs

section Ranking

variable {β : Type} [LinearOrder β] {sims : List β} {candidates : List Candidate} {topK : Int} {minSimilarity : β}

/-- `kept` is a best selection: positions that reach the minimum, ranked, as many as there may be, and
before each position that reaches the minimum and is left out. -/
structure BestRanked (sims : List β) (topK : Int) (minSimilarity : β) (kept : List (Fin sims.length)) : Prop where
  distinct : kept.Nodup
  reaching : ∀ i ∈ kept, minSimilarity ≤ sims.get i
  ranked : kept.Pairwise (Before sims.get)
  count : (kept.length : Int) = min topK (sims.countP fun sim => minSimilarity ≤ sim)
  best : ∀ j, j ∉ kept → minSimilarity ≤ sims.get j → ∀ i ∈ kept, Before sims.get i j

/-- A best selection is unique. -/
theorem BestRanked.unique {kept kept' : List (Fin sims.length)} (h : BestRanked sims topK minSimilarity kept)
    (h' : BestRanked sims topK minSimilarity kept') : kept = kept' := by
  have size : kept.length = kept'.length := by
    have := h.count
    have := h'.count
    omega
  exact eq_of_before h.ranked h'.ranked h.reaching h'.reaching size h.best h'.best

/-- The positions that reach the minimum, in the order of the input. -/
def reaching (sims : List β) (minSimilarity : β) : List (Fin sims.length) :=
  (List.finRange sims.length).filter fun i => minSimilarity ≤ sims.get i

def keptPositions (sims : List β) (topK : Int) (minSimilarity : β) : List (Fin sims.length) :=
  (rank sims.get (reaching sims minSimilarity)).take topK.toNat

theorem mem_reaching {i : Fin sims.length} : i ∈ reaching sims minSimilarity ↔ minSimilarity ≤ sims.get i := by
  simp [reaching]

theorem reaching_length : (reaching sims minSimilarity).length = sims.countP fun sim => minSimilarity ≤ sim := by
  have all : sims.countP (fun sim => minSimilarity ≤ sim) =
      ((List.finRange sims.length).map sims.get).countP fun sim => minSimilarity ≤ sim := by
    rw [List.map_get_finRange]
  rw [all, List.countP_map, reaching, List.countP_eq_length_filter]
  rfl

theorem reaching_sorted : (reaching sims minSimilarity).Pairwise (· < ·) :=
  (List.pairwise_lt_finRange sims.length).sublist List.filter_sublist

theorem keptPositions_best (positive : 1 ≤ topK) :
    BestRanked sims topK minSimilarity (keptPositions sims topK minSimilarity) := by
  have all : (rank sims.get (reaching sims minSimilarity)).Pairwise (Before sims.get) := rank_before reaching_sorted
  have ranked := all.sublist (List.take_sublist topK.toNat _)
  constructor
  case distinct => exact before_nodup ranked
  case reaching =>
    intro i hi
    exact mem_reaching.mp ((rank_perm _).mem_iff.mp (List.mem_of_mem_take hi))
  case ranked => exact ranked
  case count =>
    rw [keptPositions, List.length_take, (rank_perm _).length_eq, reaching_length]
    omega
  case best =>
    intro j out reaches i hi
    exact cut_after all ((rank_perm _).mem_iff.mpr (mem_reaching.mpr reaches)) out hi

theorem rankSims_eq (sims : List β) (candidates : List Candidate) (topK : Int) (minSimilarity : β) :
    rankSims sims candidates topK minSimilarity =
      ((rank Prod.fst ((sims.zip candidates).filter fun pair => minSimilarity ≤ pair.1)).take topK.toNat).map (·.2) :=
  rfl

theorem reaching_pairs (same : sims.length = candidates.length) (minSimilarity : β) :
    ((sims.zip candidates).filter fun pair => minSimilarity ≤ pair.1) =
      (reaching sims minSimilarity).map (pairAt same) := by
  rw [zip_positions same, List.filter_map]
  rfl

theorem kept_pairs (same : sims.length = candidates.length) (topK : Int) (minSimilarity : β) :
    (rank Prod.fst ((sims.zip candidates).filter fun pair => minSimilarity ≤ pair.1)).take topK.toNat =
      (keptPositions sims topK minSimilarity).map (pairAt same) := by
  rw [reaching_pairs same, rank_map, ← List.map_take]
  rfl

/-- `rank_by_similarity` returns the candidates at the kept positions. -/
theorem rankSims_positions (same : sims.length = candidates.length) :
    rankSims sims candidates topK minSimilarity =
      (keptPositions sims topK minSimilarity).map fun i => candidates.get (i.cast same) := by
  rw [rankSims_eq, kept_pairs same, List.map_map]
  rfl

theorem rankSims_append_below {sim : β} (candidate : Candidate) (same : sims.length = candidates.length)
    (below : sim < minSimilarity) :
    rankSims (sims ++ [sim]) (candidates ++ [candidate]) topK minSimilarity =
      rankSims sims candidates topK minSimilarity := by
  simp only [rankSims_eq, List.zip_append same, List.filter_append]
  simp [not_le.mpr below]

theorem rankSims_append_behind {sim : β} (candidate : Candidate) (same : sims.length = candidates.length)
    (full : ((keptPositions sims topK minSimilarity).length : Int) = topK)
    (last : ∀ i, (keptPositions sims topK minSimilarity).getLast? = some i → sim ≤ sims.get i)
    (positive : 1 ≤ topK) :
    rankSims (sims ++ [sim]) (candidates ++ [candidate]) topK minSimilarity =
      rankSims sims candidates topK minSimilarity := by
  by_cases reaches : minSimilarity ≤ sim
  · simp only [rankSims_eq, List.zip_append same, List.zip_cons_cons, List.zip_nil_left, List.filter_append]
    have new : ([(sim, candidate)].filter fun pair => minSimilarity ≤ pair.1) = [(sim, candidate)] := by
      simp [reaches]
    have size : topK.toNat ≤ ((sims.zip candidates).filter fun pair => minSimilarity ≤ pair.1).length := by
      have cut := congrArg List.length (kept_pairs same topK minSimilarity)
      rw [List.length_take, (rank_perm _).length_eq, List.length_map] at cut
      omega
    have least : ∀ pair ∈ (rank Prod.fst ((sims.zip candidates).filter fun pair => minSimilarity ≤ pair.1)).take
        topK.toNat, sim ≤ pair.1 := by
      intro pair hp
      rw [kept_pairs same] at hp
      obtain ⟨i, hi, rfl⟩ := List.mem_map.mp hp
      have some_last := List.getLast?_eq_some_getLast (List.ne_nil_of_mem hi)
      exact (last _ some_last).trans (last_least (keptPositions_best positive).ranked some_last hi)
    rw [new, take_rank_append size least]
  · exact rankSims_append_below candidate same (not_le.mp reaches)

end Ranking

theorem rankBySimilarity_eq (lib : PyLib) (queryVec : Embedding) (candidateVecs : List Embedding)
    (candidates : List Candidate) {topK : Int} (positive : 1 ≤ topK) (minSimilarity : Rat) :
    rankBySimilarity lib queryVec candidateVecs candidates topK minSimilarity =
      rankSims (candidateVecs.map (lib.cosine queryVec)) candidates topK (lib.toFloat32 minSimilarity) := by
  unfold rankBySimilarity
  split
  next unranked =>
    rcases unranked with disabled | none
    · omega
    · simp [none, rankSims]
  next => rfl

/-- `rank_by_similarity` returns the candidates of the one best selection. A candidate more at the end
changes nothing if it is below the minimum, or not above the last of `top_k` kept ones. -/
theorem best_candidates {topK : Int} (positive : 1 ≤ topK) :
    (∀ (lib : PyLib) (queryVec : Embedding) (candidateVecs : List Embedding) (candidates : List Candidate)
      (minSimilarity : Rat), rankBySimilarity lib queryVec candidateVecs candidates topK minSimilarity =
        rankSims (candidateVecs.map (lib.cosine queryVec)) candidates topK (lib.toFloat32 minSimilarity)) ∧
    ∀ {β : Type} [LinearOrder β] (sims : List β) (candidates : List Candidate)
      (same : sims.length = candidates.length) (minSimilarity : β),
      ∃ kept : List (Fin sims.length), (∀ kept', BestRanked sims topK minSimilarity kept' ↔ kept' = kept) ∧
        rankSims sims candidates topK minSimilarity = kept.map (fun i => candidates.get (i.cast same)) ∧
        ∀ (sim : β) (candidate : Candidate),
          sim < minSimilarity ∨
            ((kept.length : Int) = topK ∧ ∀ i, kept.getLast? = some i → sim ≤ sims.get i) →
          rankSims (sims ++ [sim]) (candidates ++ [candidate]) topK minSimilarity =
            rankSims sims candidates topK minSimilarity := by
  constructor
  · intro lib queryVec candidateVecs candidates minSimilarity
    exact rankBySimilarity_eq lib queryVec candidateVecs candidates positive minSimilarity
  · intro β _ sims candidates same minSimilarity
    have best : BestRanked sims topK minSimilarity (keptPositions sims topK minSimilarity) :=
      keptPositions_best positive
    refine ⟨keptPositions sims topK minSimilarity, fun kept' => ?_, rankSims_positions same, ?_⟩
    · constructor
      · exact fun best' => best'.unique best
      · rintro rfl
        exact best
    · intro sim candidate spared
      rcases spared with below | ⟨full, last⟩
      · exact rankSims_append_below candidate same below
      · exact rankSims_append_behind candidate same full last positive

def titledCandidate (title : String) : Candidate := ⟨title, title, "", .none, "s", title⟩

def sampleSims : List Int := [1, 3, 2, 3]

/-- Of three as similar ones the first two are kept, also when the third comes last. -/
theorem best_candidates_sample :
    rankSims (sampleSims ++ [3]) (["a", "b", "c", "d"].map titledCandidate ++ [titledCandidate "e"]) 2 2 =
      ["b", "d"].map titledCandidate := by
  have positive : (1 : Int) ≤ 2 := by decide
  obtain ⟨kept, only, result, append⟩ :=
    (best_candidates positive).2 sampleSims (["a", "b", "c", "d"].map titledCandidate) rfl 2
  have best : BestRanked sampleSims 2 2 [(1 : Fin 4), (3 : Fin 4)] :=
    ⟨by decide, by decide, by decide, by decide, by decide⟩
  obtain rfl := (only _).mp best
  have last : ∀ i, [(1 : Fin 4), (3 : Fin 4)].getLast? = some i → 3 ≤ sampleSims.get i := by
    intro i hi
    obtain rfl : 3 = i := Option.some.inj hi
    decide
  exact (append 3 (titledCandidate "e") (.inr ⟨by decide, last⟩)).trans result

end NewsNotifier

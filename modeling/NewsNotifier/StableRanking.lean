import Mathlib.Data.List.Sort

namespace StableRanking

variable {α β ι : Type*} [LinearOrder β]

/-- The entries by non-increasing key, where those of one key stay in their order. -/
def rank (key : α → β) (l : List α) : List α := l.insertionSort fun a b => key b ≤ key a

section Entries

variable {key : α → β}

theorem rank_perm (l : List α) : (rank key l).Perm l := List.perm_insertionSort _ l

theorem rank_cons (a : α) (l : List α) :
    rank key (a :: l) = (rank key l).orderedInsert (fun a b => key b ≤ key a) a := rfl

theorem rank_map (f : ι → α) (l : List ι) : rank key (l.map f) = (rank (key ∘ f) l).map f :=
  (List.map_insertionSort _ _ f l fun _ _ _ _ => Iff.rfl).symm

/-- What is cut off a list comes after all that is left of it. -/
theorem cut_after {R : α → α → Prop} {l : List α} {k : ℕ} (sorted : l.Pairwise R) {a b : α} (hb : b ∈ l)
    (cut : b ∉ l.take k) (ha : a ∈ l.take k) : R a b := by
  rw [← List.take_append_drop k l] at sorted hb
  have dropped : b ∈ l.drop k := (List.mem_append.mp hb).resolve_left cut
  exact (List.pairwise_append.mp sorted).2.2 a ha b dropped

/-- An entry goes behind all those whose keys are not less. -/
def insertLast (key : α → β) (x : α) (l : List α) : List α := l.orderedInsert (fun a b => key b < key a) x

theorem insert_insertLast (a x : α) (l : List α) :
    (insertLast key x l).orderedInsert (fun a b => key b ≤ key a) a =
      insertLast key x (l.orderedInsert (fun a b => key b ≤ key a) a) := by
  induction l with
  | nil =>
    by_cases le : key x ≤ key a
    · simp [insertLast, le, not_lt.mpr le]
    · simp [insertLast, le, not_le.mp le]
  | cons y l ih =>
    unfold insertLast at ih ⊢
    by_cases first : key y < key x
    · by_cases le : key x ≤ key a
      · have above : key y ≤ key a := first.le.trans le
        simp [first, le, above, not_lt.mpr le]
      · have below : key a < key x := not_le.mp le
        by_cases above : key y ≤ key a
        · simp [first, le, above, below]
        · simp [first, le, above]
    · have le : key x ≤ key y := not_lt.mp first
      by_cases above : key y ≤ key a
      · have behind : ¬ key a < key x := not_lt.mpr (le.trans above)
        simp [first, above, behind]
      · simp [first, above, ih]

/-- A new entry at the end is ranked behind its equals. -/
theorem rank_append (l : List α) (x : α) : rank key (l ++ [x]) = insertLast key x (rank key l) := by
  induction l with
  | nil => rfl
  | cons a l ih => rw [List.cons_append, rank_cons, ih, insert_insertLast, rank_cons]

theorem take_insertLast {k : ℕ} {x : α} {l : List α} (full : k ≤ l.length)
    (least : ∀ y ∈ l.take k, key x ≤ key y) : (insertLast key x l).take k = l.take k := by
  unfold insertLast
  induction l generalizing k with
  | nil =>
    have none : k = 0 := by simpa using full
    simp [none]
  | cons y l ih =>
    cases k with
    | zero => simp
    | succ k =>
      have behind : ¬ key y < key x := not_lt.mpr (least y (by simp))
      have rest := ih (Nat.le_of_succ_le_succ full) fun z hz => least z (List.mem_cons_of_mem y hz)
      simp [behind, rest]

/-- A new entry that is not above the first `k` leaves them as they are. -/
theorem take_rank_append {k : ℕ} {l : List α} {x : α} (full : k ≤ l.length)
    (least : ∀ y ∈ (rank key l).take k, key x ≤ key y) :
    (rank key (l ++ [x])).take k = (rank key l).take k := by
  rw [rank_append]
  exact take_insertLast (by rw [(rank_perm l).length_eq]; exact full) least

end Entries

section Positions

variable [LinearOrder ι] {key : ι → β} {i j : ι} {l l' : List ι}

/-- `i` ranks before `j`: its key is greater, or the same and `i` comes first. -/
def Before (key : ι → β) (i j : ι) : Prop := key j < key i ∨ key j = key i ∧ i < j

instance : Decidable (Before key i j) := inferInstanceAs (Decidable (_ ∨ _ ∧ _))

theorem before_of_le (le : key j ≤ key i) (first : i < j) : Before key i j :=
  (lt_or_eq_of_le le).imp_right fun same => ⟨same, first⟩

theorem Before.le (h : Before key i j) : key j ≤ key i := by
  rcases h with less | ⟨same, _⟩
  · exact less.le
  · exact same.le

theorem Before.asymm (h : Before key i j) : ¬ Before key j i := by
  intro h'
  rcases h with less | ⟨same, first⟩
  · exact absurd h'.le (not_le.mpr less)
  · rcases h' with less' | ⟨_, first'⟩
    · exact absurd same (ne_of_gt less')
    · exact absurd first' (not_lt.mpr first.le)

theorem insert_before (sorted : l.Pairwise (Before key)) (first : ∀ j ∈ l, i < j) :
    (l.orderedInsert (fun a b => key b ≤ key a) i).Pairwise (Before key) := by
  induction l with
  | nil => simp
  | cons j l ih =>
    obtain ⟨least, rest⟩ := List.pairwise_cons.mp sorted
    have earlier := first j List.mem_cons_self
    by_cases le : key j ≤ key i
    · rw [List.orderedInsert_cons, if_pos le]
      refine List.pairwise_cons.mpr ⟨fun k hk => ?_, sorted⟩
      rcases List.mem_cons.mp hk with rfl | hk
      · exact before_of_le le earlier
      · exact before_of_le ((least k hk).le.trans le) (first k (List.mem_cons_of_mem j hk))
    · rw [List.orderedInsert_cons, if_neg le]
      refine List.pairwise_cons.mpr ⟨fun k hk => ?_, ih rest fun k hk => first k (List.mem_cons_of_mem j hk)⟩
      rcases (List.mem_orderedInsert _).mp hk with rfl | hk
      · exact .inl (not_le.mp le)
      · exact least k hk

theorem rank_before (sorted : l.Pairwise (· < ·)) : (rank key l).Pairwise (Before key) := by
  induction l with
  | nil => simp [rank]
  | cons i l ih =>
    obtain ⟨first, rest⟩ := List.pairwise_cons.mp sorted
    rw [rank_cons]
    exact insert_before (ih rest) fun j hj => first j ((rank_perm l).mem_iff.mp hj)

theorem before_nodup (sorted : l.Pairwise (Before key)) : l.Nodup := by
  refine sorted.imp fun before same => ?_
  subst same
  exact before.asymm before

theorem last_least (sorted : l.Pairwise (Before key)) (last : l.getLast? = some j) (hi : i ∈ l) : key j ≤ key i := by
  obtain ⟨front, rfl⟩ := List.getLast?_eq_some_iff.mp last
  rcases List.mem_append.mp hi with hi | hi
  · exact ((List.pairwise_append.mp sorted).2.2 i hi j List.mem_cons_self).le
  · obtain rfl := List.mem_singleton.mp hi
    exact le_rfl

/-- Two rankings of as many entries, where each comes before all that it leaves out, are the same. -/
theorem eq_of_before {P : ι → Prop} (sorted : l.Pairwise (Before key)) (sorted' : l'.Pairwise (Before key))
    (of : ∀ i ∈ l, P i) (of' : ∀ i ∈ l', P i) (size : l.length = l'.length)
    (left : ∀ j, j ∉ l → P j → ∀ i ∈ l, Before key i j)
    (left' : ∀ j, j ∉ l' → P j → ∀ i ∈ l', Before key i j) : l = l' := by
  have sub : l ⊆ l' := by
    intro i hi
    by_contra out
    have some_out : ∃ j ∈ l', j ∉ l := by
      by_contra none
      have all : l' ⊆ l := fun j hj => by_contra fun other => none ⟨j, hj, other⟩
      have perm := (List.subperm_of_subset (before_nodup sorted') all).perm_of_length_le size.le
      exact out (perm.mem_iff.mpr hi)
    obtain ⟨j, hj, other⟩ := some_out
    exact (left j other (of' j hj) i hi).asymm (left' i out (of i hi) j hj)
  have perm := (List.subperm_of_subset (before_nodup sorted) sub).perm_of_length_le size.ge
  exact perm.eq_of_pairwise (fun i j _ _ before before' => absurd before' before.asymm) sorted sorted'

end Positions

end StableRanking

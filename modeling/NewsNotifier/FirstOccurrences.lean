import Mathlib.Data.List.Induction
import Mathlib.Data.List.Nodup

namespace FirstOccurrences

variable {α β κ : Type} [DecidableEq κ] {key : α → κ} {l m : List α} {a : α}

/-- Of the entries with one key the first. -/
def firsts (key : α → κ) : List α → List α
  | [] => []
  | a :: l => a :: (firsts key l).filter fun b => key b ≠ key a

/-- One step of a loop that skips the keys it has seen. -/
def addFirst (key : α → κ) (kept : List α) (a : α) : List α :=
  if key a ∈ kept.map key then kept else kept ++ [a]

theorem firsts_sublist (l : List α) : (firsts key l).Sublist l := by
  induction l with
  | nil => exact .slnil
  | cons a l ih => exact (List.filter_sublist.trans ih).cons_cons a

theorem mem_keys {k : κ} : k ∈ (firsts key l).map key ↔ k ∈ l.map key := by
  induction l with
  | nil => rfl
  | cons a l ih =>
    rw [firsts, List.map_cons, List.map_cons, List.mem_cons, List.mem_cons, ← ih]
    by_cases same : k = key a
    · exact iff_of_true (.inl same) (.inl same)
    · refine or_congr_right ⟨fun h => ?_, fun h => ?_⟩
      · obtain ⟨b, hb, rfl⟩ := List.mem_map.mp h
        exact List.mem_map_of_mem (List.mem_filter.mp hb).1
      · obtain ⟨b, hb, rfl⟩ := List.mem_map.mp h
        exact List.mem_map_of_mem (List.mem_filter.mpr ⟨hb, decide_eq_true same⟩)

theorem keys_nodup (l : List α) : ((firsts key l).map key).Nodup := by
  induction l with
  | nil => exact List.nodup_nil
  | cons a l ih =>
    refine List.nodup_cons.mpr ⟨fun h => ?_, ih.sublist (List.filter_sublist.map key)⟩
    obtain ⟨b, hb, same⟩ := List.mem_map.mp h
    exact of_decide_eq_true (List.mem_filter.mp hb).2 same

theorem firsts_append (l m : List α) :
    firsts key (l ++ m) = firsts key l ++ (firsts key m).filter fun b => key b ∉ l.map key := by
  induction l with
  | nil => simp [firsts]
  | cons a l ih =>
    rw [List.cons_append, firsts, firsts, ih, List.filter_append, List.filter_filter, List.cons_append]
    congr 2
    refine List.filter_congr fun b _ => ?_
    simp [not_or]

/-- What is kept stays kept as entries come in. -/
theorem firsts_prefix (h : l <+: m) : firsts key l <+: firsts key m := by
  obtain ⟨more, rfl⟩ := h
  rw [firsts_append]
  exact List.prefix_append _ _

theorem firsts_snoc (l : List α) (a : α) : firsts key (l ++ [a]) = addFirst key (firsts key l) a := by
  rw [firsts_append, addFirst]
  by_cases seen : key a ∈ l.map key
  · rw [if_pos (mem_keys.mpr seen), List.filter_eq_nil_iff.mpr, List.append_nil]
    simpa [firsts] using seen
  · rw [if_neg (mt mem_keys.mp seen), List.filter_eq_self.mpr]
    · rfl
    · simpa [firsts] using seen

/-- The loop keeps the first entries. -/
theorem foldl_addFirst (l : List α) : l.foldl (addFirst key) [] = firsts key l := by
  induction l using List.reverseRecOn with
  | nil => rfl
  | append_singleton l a ih => rw [List.foldl_append, ih, List.foldl_cons, List.foldl_nil, firsts_snoc]

/-- Where entries with different keys share nothing, the first ones of all keys give everything once. -/
theorem flatMap_nodup {f : α → List β} (each : ∀ a ∈ l, (f a).Nodup)
    (apart : ∀ a ∈ l, ∀ b ∈ l, key a ≠ key b → ∀ x ∈ f a, x ∉ f b) : ((firsts key l).flatMap f).Nodup := by
  have inside : ∀ a ∈ firsts key l, a ∈ l := fun a ha => (firsts_sublist l).subset ha
  refine List.nodup_flatMap.mpr ⟨fun a ha => each a (inside a ha), ?_⟩
  have keys : (firsts key l).Pairwise fun a b => key a ≠ key b := List.pairwise_map.mp (keys_nodup l)
  exact keys.imp_of_mem fun ha hb ne x hx => apart _ (inside _ ha) _ (inside _ hb) ne x hx

end FirstOccurrences

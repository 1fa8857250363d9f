import Mathlib.Data.List.Nodup

namespace KeyedRows

variable {α β κ : Type} [DecidableEq κ]

/-- `UPDATE ... WHERE key = k`. -/
def update (key : α → κ) (k : κ) (f : α → α) (rows : List α) : List α :=
  rows.map fun row => if key row = k then f row else row

theorem mem_update {key : α → κ} {k : κ} {f : α → α} {rows : List α} {x : α} :
    x ∈ update key k f rows ↔ ∃ row ∈ rows, x = if key row = k then f row else row := by
  simp only [update, List.mem_map]
  exact ⟨fun ⟨row, h, e⟩ => ⟨row, h, e.symm⟩, fun ⟨row, h, e⟩ => ⟨row, h, e.symm⟩⟩

theorem map_update {key : α → κ} {k : κ} {f : α → α} {g : α → β} (same : ∀ row, g (f row) = g row)
    (rows : List α) : (update key k f rows).map g = rows.map g := by
  simp only [update, List.map_map]
  apply List.map_congr_left
  intro row _
  by_cases h : key row = k <;> simp [h, same]

theorem update_update {key : α → κ} {k : κ} {f g : α → α} (same : ∀ row, key (f row) = key row)
    (rows : List α) : update key k g (update key k f rows) = update key k (g ∘ f) rows := by
  simp only [update, List.map_map]
  apply List.map_congr_left
  intro row _
  by_cases h : key row = k <;> simp [h, same]

theorem mem_update_of_ne {key : α → κ} {k : κ} {f : α → α} {rows : List α} {x : α}
    (same : ∀ row, key (f row) = key row) (h : key x ≠ k) :
    x ∈ update key k f rows ↔ x ∈ rows := by
  rw [mem_update]
  constructor
  · rintro ⟨row, hr, e⟩
    by_cases hk : key row = k
    · rw [if_pos hk] at e
      exact absurd (by rw [e, same, hk]) h
    · rw [if_neg hk] at e
      exact e ▸ hr
  · exact fun hx => ⟨x, hx, by simp [h]⟩

/-- Under a primary key a row is found by its own key. -/
theorem find_of_mem {key : α → κ} {rows : List α} (unique : (rows.map key).Nodup) {row : α}
    (h : row ∈ rows) : rows.find? (fun x => key x = key row) = some row := by
  obtain ⟨found, hf⟩ : ∃ found, rows.find? (fun x => key x = key row) = some found :=
    Option.isSome_iff_exists.mp (List.find?_isSome.mpr ⟨row, h, by simp⟩)
  have hk : key found = key row := by simpa using List.find?_some hf
  rw [hf, List.inj_on_of_nodup_map unique (List.mem_of_find?_eq_some hf) h hk]

theorem key_of_find {key : α → κ} {rows : List α} {k : κ} {row : α}
    (h : rows.find? (fun x => key x = k) = some row) : row ∈ rows ∧ key row = k :=
  ⟨List.mem_of_find?_eq_some h, by simpa using List.find?_some h⟩

theorem find_update {key : α → κ} {k j : κ} {f : α → α} (same : ∀ row, key (f row) = key row) (rows : List α) :
    (update key k f rows).find? (fun x => key x = j) =
      (rows.find? fun x => key x = j).map fun row => if key row = k then f row else row := by
  have keys : ∀ row, key (if key row = k then f row else row) = key row := by
    intro row
    split
    · exact same row
    · rfl
  simp only [update, List.find?_map, Function.comp_def, keys]

omit [DecidableEq κ] in
theorem eq_of_keys {key : α → κ} {rows xs ys : List α} (unique : (rows.map key).Nodup)
    (hx : ∀ x ∈ xs, x ∈ rows) (hy : ∀ y ∈ ys, y ∈ rows) (same : xs.map key = ys.map key) : xs = ys := by
  induction xs generalizing ys with
  | nil => exact (List.map_eq_nil_iff.mp same.symm).symm
  | cons x xs ih =>
    cases ys with
    | nil => simp at same
    | cons y ys =>
      obtain ⟨first, rest⟩ := List.cons.inj same
      have equal : x = y :=
        List.inj_on_of_nodup_map unique (hx x List.mem_cons_self) (hy y List.mem_cons_self) first
      rw [equal, ih (fun x h => hx x (List.mem_cons_of_mem _ h)) (fun y h => hy y (List.mem_cons_of_mem _ h)) rest]

omit [DecidableEq κ] in
/-- Rows with the same keys in another order are the same rows in another order. -/
theorem perm_of_keys {key : α → κ} {rows xs ys : List α} (unique : (rows.map key).Nodup)
    (hx : ∀ x ∈ xs, x ∈ rows) (hy : ∀ y ∈ ys, y ∈ rows) (distinct : (ys.map key).Nodup)
    (same : (xs.map key).Perm (ys.map key)) : xs.Perm ys := by
  refine (List.perm_ext_iff_of_nodup (.of_map key (same.nodup_iff.mpr distinct)) (.of_map key distinct)).mpr fun x => ?_
  constructor
  · intro mem
    obtain ⟨y, own, equal⟩ := List.mem_map.mp (same.mem_iff.mp (List.mem_map_of_mem mem))
    exact List.inj_on_of_nodup_map unique (hy y own) (hx x mem) equal ▸ own
  · intro mem
    obtain ⟨y, own, equal⟩ := List.mem_map.mp (same.mem_iff.mpr (List.mem_map_of_mem mem))
    exact List.inj_on_of_nodup_map unique (hx y own) (hy x mem) equal ▸ own

end KeyedRows

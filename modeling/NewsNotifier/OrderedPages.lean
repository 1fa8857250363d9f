import NewsNotifier.StableRanking
import Mathlib.Data.List.Perm.Subperm

namespace OrderedPages

variable {α β : Type} {R : α → α → Prop} {n m : ℕ} {rows rows' page page' : List α}

/-- What `ORDER BY .. LIMIT n` may return: the first `n` rows in one of the orders that the keys allow. -/
def Page (R : α → α → Prop) (n : ℕ) (rows page : List α) : Prop :=
  ∃ sorted : List α, sorted.Perm rows ∧ sorted.Pairwise R ∧ page = sorted.take n

namespace Page

theorem length (h : Page R n rows page) : page.length = min n rows.length := by
  obtain ⟨sorted, perm, _, rfl⟩ := h
  rw [List.length_take, perm.length_eq]

theorem pairwise (h : Page R n rows page) : page.Pairwise R := by
  obtain ⟨sorted, _, ordered, rfl⟩ := h
  exact ordered.sublist (List.take_sublist n sorted)

theorem subperm (h : Page R n rows page) : page.Subperm rows := by
  obtain ⟨sorted, perm, _, rfl⟩ := h
  exact (List.take_sublist n sorted).subperm.trans perm.subperm

theorem mem (h : Page R n rows page) {a : α} (ha : a ∈ page) : a ∈ rows := h.subperm.subset ha

theorem nodup (h : Page R n rows page) {f : α → β} (distinct : (rows.map f).Nodup) : (page.map f).Nodup := by
  obtain ⟨sorted, perm, _, rfl⟩ := h
  exact ((perm.map f).nodup_iff.mpr distinct).sublist ((List.take_sublist n sorted).map f)

/-- What a page leaves out comes after all that it has. -/
theorem missed (h : Page R n rows page) {a b : α} (hb : b ∈ rows) (out : b ∉ page) (ha : a ∈ page) : R a b := by
  obtain ⟨sorted, perm, ordered, rfl⟩ := h
  exact StableRanking.cut_after ordered (perm.mem_iff.mpr hb) out ha

/-- Only a full page leaves rows out. -/
theorem full (h : Page R n rows page) {b : α} (hb : b ∈ rows) (out : b ∉ page) : page.length = n := by
  obtain ⟨sorted, perm, _, rfl⟩ := h
  have more : n < sorted.length := by
    by_contra le
    exact out (by rwa [List.take_of_length_le (not_lt.mp le), perm.mem_iff])
  rw [List.length_take, Nat.min_eq_left more.le]

theorem whole (h : Page R n rows page) (all : rows.length ≤ n) : page.Perm rows := by
  obtain ⟨sorted, perm, _, rfl⟩ := h
  rwa [List.take_of_length_le (perm.length_eq.trans_le all)]

/-- A shorter page begins a longer one. -/
theorem longer (h : Page R n rows page) (le : n ≤ m) : ∃ page', Page R m rows page' ∧ page <+: page' := by
  obtain ⟨sorted, perm, ordered, rfl⟩ := h
  refine ⟨sorted.take m, ⟨sorted, perm, ordered, rfl⟩, ?_⟩
  rw [← Nat.min_eq_left le, ← List.take_take]
  exact List.take_prefix n _

/-- The rows of one kind on a page are a page of the rows of that kind. -/
theorem filter (h : Page R n rows page) (p : α → Bool) :
    Page R (page.filter p).length (rows.filter p) (page.filter p) := by
  obtain ⟨sorted, perm, ordered, rfl⟩ := h
  refine ⟨sorted.filter p, perm.filter p, ordered.sublist List.filter_sublist, ?_⟩
  have parts : sorted.filter p = (sorted.take n).filter p ++ (sorted.drop n).filter p := by
    rw [← List.filter_append, List.take_append_drop]
  rw [parts, List.take_left]

theorem map {S : β → β → Prop} {f : α → β} (keeps : ∀ a b, R a b → S (f a) (f b)) (h : Page R n rows page) :
    Page S n (rows.map f) (page.map f) := by
  obtain ⟨sorted, perm, ordered, rfl⟩ := h
  exact ⟨sorted.map f, perm.map f, List.pairwise_map.mpr (ordered.imp fun {a b} => keeps a b), List.map_take⟩

/-- A row is pushed off a page by as many rows as the page can hold. -/
theorem pushed (later : Page R n rows' page') {a : α} (stays : a ∈ rows') (out : a ∉ page') :
    page'.length = n ∧ ∀ b ∈ page', R b a :=
  ⟨later.full stays out, fun _ hb => later.missed stays out hb⟩

end Page

section Check

variable {le : α → α → Bool}

/-- No row comes before an earlier one. -/
def isSorted (le : α → α → Bool) : List α → Bool
  | [] => true
  | a :: rows => rows.all (le a) && isSorted le rows

theorem isSorted_iff {rows : List α} : isSorted le rows = true ↔ rows.Pairwise fun a b => le a b = true := by
  induction rows with
  | nil => simp [isSorted]
  | cons a rows ih => simp [isSorted, ih]

variable [DecidableEq α]

/-- `Page` as a check: the page is sorted, as long as it can be, and nothing left out comes before it. -/
def isPage (le : α → α → Bool) (n : ℕ) (rows page : List α) : Bool :=
  isSorted le page && (page ++ rows.diff page).isPerm rows && page.length == min n rows.length &&
    page.all fun a => (rows.diff page).all (le a)

theorem isPage_iff [Std.Total fun a b => le a b = true] [IsTrans α fun a b => le a b = true] :
    isPage le n rows page = true ↔ Page (fun a b => le a b = true) n rows page := by
  simp only [isPage, Bool.and_eq_true, List.isPerm_iff, beq_iff_eq, List.all_eq_true, isSorted_iff]
  constructor
  · rintro ⟨⟨⟨ordered, perm⟩, length⟩, missed⟩
    let rest := (rows.diff page).insertionSort fun a b => le a b = true
    have rested : rest.Perm (rows.diff page) := List.perm_insertionSort _ _
    refine ⟨page ++ rest, (rested.append_left page).trans perm, ?_, ?_⟩
    · refine List.pairwise_append.mpr ⟨ordered, List.pairwise_insertionSort _ _, fun a ha b hb => ?_⟩
      exact missed a ha b (rested.mem_iff.mp hb)
    · rcases Nat.le_total n rows.length with short | long
      · rw [List.take_left' (length.trans (Nat.min_eq_left short))]
      · have all : page.length = rows.length := length.trans (Nat.min_eq_right long)
        have none : rest = [] := by
          have sizes := perm.length_eq
          rw [List.length_append, ← rested.length_eq] at sizes
          exact List.length_eq_zero_iff.mp (by omega)
        rw [none, List.append_nil, List.take_of_length_le (by omega)]
  · intro page
    have whole := List.subperm_append_diff_self_of_count_le (List.subperm_ext_iff.mp page.subperm)
    refine ⟨⟨⟨page.pairwise, whole⟩, page.length⟩, ?_⟩
    obtain ⟨sorted, perm, ordered, rfl⟩ := page
    rw [← List.take_append_drop n sorted] at ordered
    have parts : (sorted.take n ++ sorted.drop n).Perm rows := by rwa [List.take_append_drop]
    have left := (List.perm_append_left_iff _).mp (whole.trans parts.symm)
    exact fun a ha b hb => (List.pairwise_append.mp ordered).2.2 a ha b (left.mem_iff.mp hb)

end Check

end OrderedPages

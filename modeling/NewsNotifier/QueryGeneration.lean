import NewsNotifier.ArticleProvenance
import NewsNotifier.FirstOccurrences
import NewsNotifier.QuoteVerification

namespace NewsNotifier

open FirstOccurrences

section Queries

variable {lib : PyLib}

theorem collapse_strip (s : String) : collapse lib (pyStrip lib s) = collapse lib s := by
  have same : pySplit lib (pyStrip lib s) = pySplit lib s := congrArg (List.map String.ofList) (strip_runs lib s)
  rw [collapse, collapse, same]

/-- The texts with a normal form. -/
def namedQueries (lib : PyLib) (texts : List String) : List String := texts.filter fun q => collapse lib q ≠ ""

/-- The loop holds the normal forms it has seen beside the texts it has kept. -/
theorem addQuery_folds (texts kept : List String) :
    (texts.map Json.str).foldlM (addQuery lib) (kept.map (collapse lib), kept.map (pyStrip lib)) =
      .ok (((namedQueries lib texts).foldl (addFirst (collapse lib)) kept).map (collapse lib),
        ((namedQueries lib texts).foldl (addFirst (collapse lib)) kept).map (pyStrip lib)) := by
  induction texts generalizing kept with
  | nil => rfl
  | cons q texts ih =>
    rw [List.map_cons, List.foldlM_cons]
    by_cases blank : collapse lib q = ""
    · have round : addQuery lib (kept.map (collapse lib), kept.map (pyStrip lib)) (.str q) =
          .ok (kept.map (collapse lib), kept.map (pyStrip lib)) := if_pos (.inl blank)
      have dropped : namedQueries lib (q :: texts) = namedQueries lib texts := by simp [namedQueries, blank]
      rw [round, dropped]
      exact ih kept
    · have named : namedQueries lib (q :: texts) = q :: namedQueries lib texts := by simp [namedQueries, blank]
      have round : addQuery lib (kept.map (collapse lib), kept.map (pyStrip lib)) (.str q) =
          .ok ((addFirst (collapse lib) kept q).map (collapse lib), (addFirst (collapse lib) kept q).map (pyStrip lib)) := by
        by_cases seen : collapse lib q ∈ kept.map (collapse lib)
        · rw [addFirst, if_pos seen]
          exact if_pos (.inr seen)
        · rw [addFirst, if_neg seen, List.map_append, List.map_append]
          exact if_neg fun h => h.elim blank seen
      rw [round, named, List.foldl_cons]
      exact ih _

theorem addQuery_strings {xs : List Json} {acc acc' : List String × List String}
    (h : xs.foldlM (addQuery lib) acc = .ok acc') : ∃ texts : List String, xs = texts.map Json.str := by
  induction xs generalizing acc with
  | nil => exact ⟨[], rfl⟩
  | cons x xs ih =>
    rw [List.foldlM_cons] at h
    cases x with
    | str q =>
      cases added : addQuery lib acc (.str q) with
      | error e =>
        rw [added] at h
        cases h
      | ok next =>
        rw [added] at h
        obtain ⟨texts, rfl⟩ := ih h
        exact ⟨q :: texts, rfl⟩
    | _ => cases h

theorem ensured {required : List String} {fields : List (String × Json)}
    (h : ensureRequiredKeys required (.obj fields) = .ok ()) :
    ∀ key ∈ required, (Json.field fields key).isSome = true := by
  simp only [ensureRequiredKeys] at h
  split at h
  next all => exact List.all_eq_true.mp all
  next => cases h

theorem generateJson_ok {required : List String} {raw : Option Json} {fields : List (String × Json)} :
    generateJson required raw = .ok fields ↔
      raw = some (.obj fields) ∧ ∀ key ∈ required, (Json.field fields key).isSome = true := by
  constructor
  · intro h
    cases raw with
    | none => cases h
    | some data =>
      obtain ⟨_, shaped, read⟩ := ok_of_bind h
      cases data with
      | obj fields' =>
        obtain rfl := Except.ok.inj read
        exact ⟨rfl, ensured shaped⟩
      | _ => cases read
  · rintro ⟨rfl, all⟩
    have shaped : ensureRequiredKeys required (.obj fields) = .ok () := if_pos (List.all_eq_true.mpr all)
    rw [generateJson, shaped]
    rfl

/-- The model has answered with an object whose `queries` are these texts, or with nothing there. -/
def AnswersQueries (raw : Option Json) (texts : List String) : Prop :=
  ∃ fields, raw = some (.obj fields) ∧ (Json.field fields "queries").isSome = true ∧
    elementsOrEmpty (Json.field fields "queries") = .ok (texts.map Json.str)

theorem generateQueries_eq {raw : Option Json} {unique : List String} : generateQueries lib raw = .ok unique ↔
    ∃ texts, AnswersQueries raw texts ∧
      unique = ((firsts (collapse lib) (namedQueries lib texts)).map (pyStrip lib)).take 5 := by
  have loop : ∀ texts : List String, (texts.map Json.str).foldlM (addQuery lib) ([], []) =
      .ok ((firsts (collapse lib) (namedQueries lib texts)).map (collapse lib),
        (firsts (collapse lib) (namedQueries lib texts)).map (pyStrip lib)) := by
    intro texts
    rw [← foldl_addFirst]
    exact addQuery_folds texts []
  have required : ∀ fields, (∀ key ∈ queryGenRequired, (Json.field fields key).isSome = true) ↔
      (Json.field fields "queries").isSome = true := fun fields => List.forall_mem_singleton
  constructor
  · intro h
    obtain ⟨fields, read, h⟩ := ok_of_bind h
    obtain ⟨xs, found, h⟩ := ok_of_bind h
    obtain ⟨kept, folded, h⟩ := ok_of_bind h
    obtain ⟨rfl, has⟩ := generateJson_ok.mp read
    obtain ⟨texts, rfl⟩ := addQuery_strings folded
    obtain rfl := Except.ok.inj ((loop texts).symm.trans folded)
    exact ⟨texts, ⟨fields, rfl, (required fields).mp has, found⟩, (Except.ok.inj h).symm⟩
  · rintro ⟨texts, ⟨fields, rfl, has, found⟩, rfl⟩
    have read : generateJson queryGenRequired (some (.obj fields)) = .ok fields :=
      generateJson_ok.mpr ⟨rfl, (required fields).mpr has⟩
    simp only [generateQueries, read, found, loop, bind, Except.bind]
    rfl

theorem kept_forms (kept : List String) :
    ((kept.map (pyStrip lib)).take 5).map (collapse lib) = (kept.map (collapse lib)).take 5 := by
  rw [List.map_take, List.map_map]
  exact congrArg (List.take 5) (List.map_congr_left fun q _ => collapse_strip q)

/-- `generate_queries` returns exactly where the model has answered with texts, or with nothing, and then the first
text of each of the first five normal forms, in the model's order: stripped, none blank, no two alike, and with
fewer than five of them none left out. -/
theorem query_generation (lib : PyLib) (raw : Option Json) :
    (∀ unique, generateQueries lib raw = .ok unique ↔ ∃ texts, AnswersQueries raw texts ∧
      unique = ((firsts (collapse lib) (namedQueries lib texts)).map (pyStrip lib)).take 5) ∧
    ∀ texts unique, AnswersQueries raw texts → generateQueries lib raw = .ok unique →
      unique.length ≤ 5 ∧ (unique.map (collapse lib)).Nodup ∧
      (∀ q ∈ unique, pyStrip lib q = q ∧ collapse lib q ≠ "" ∧ ∃ text ∈ texts, q = pyStrip lib text) ∧
      ∀ text ∈ texts, collapse lib text ≠ "" → unique.length < 5 → collapse lib text ∈ unique.map (collapse lib) := by
  refine ⟨fun unique => generateQueries_eq, fun texts unique answers ok => ?_⟩
  obtain ⟨texts', ⟨fields, rfl, has, found⟩, rfl⟩ := generateQueries_eq.mp ok
  obtain ⟨fields', same, _, found'⟩ := answers
  obtain rfl := Json.obj.inj (Option.some.inj same)
  have alike : texts'.map Json.str = texts.map Json.str := Except.ok.inj (found.symm.trans found')
  obtain rfl := List.map_injective_iff.mpr (fun _ _ => Json.str.inj) alike
  have inside : ∀ q ∈ firsts (collapse lib) (namedQueries lib texts'), q ∈ texts' ∧ collapse lib q ≠ "" := by
    intro q hq
    obtain ⟨mem, named⟩ := List.mem_filter.mp ((firsts_sublist _).subset hq)
    exact ⟨mem, of_decide_eq_true named⟩
  refine ⟨List.length_take_le _ _, ?_, fun q hq => ?_, fun text ht named few => ?_⟩
  · rw [kept_forms]
    exact (keys_nodup _).sublist (List.take_sublist _ _)
  · obtain ⟨text, kept, rfl⟩ := List.mem_map.mp (List.mem_of_mem_take hq)
    obtain ⟨mem, named⟩ := inside text kept
    exact ⟨strip_strip lib text, (collapse_strip text).symm ▸ named, text, mem, rfl⟩
  · rw [List.length_take, List.length_map] at few
    have all : (firsts (collapse lib) (namedQueries lib texts')).length ≤ 5 := by omega
    rw [kept_forms, List.take_of_length_le (by rwa [List.length_map])]
    exact mem_keys.mpr (List.mem_map_of_mem (List.mem_filter.mpr ⟨ht, decide_eq_true named⟩))

/-- Of two texts with one normal form the first is kept, blank ones never. -/
example : generateQueries sampleLib
    (some (.obj [("queries", .arr [.str " rate cut", .str "rate  cut ", .str "  ", .str "powell"])])) =
      .ok ["rate cut", "powell"] := by
  decide +kernel

end Queries

end NewsNotifier

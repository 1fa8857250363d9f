import NewsNotifier.MarketProgram
import NewsNotifier.UrlNormalForm
import NewsNotifier.NewsRuns
import NewsNotifier.ExecutionTraces

namespace NewsNotifier

open Interleaving

/-- The outcomes of the source calls of one query; an exception is `none`. -/
structure QueryAnswers where
  gdelt : Option (List SearchItem)
  googleNews : Option (List SearchItem)
  duckduckgo : Option (List SearchItem)

/-- `asyncio.gather`, query by query and source by source. -/
def gathered (answers : List QueryAnswers) : List (Option (List SearchItem)) :=
  answers.flatMap fun a => [a.gdelt, a.googleNews, a.duckduckgo]

def foundItems (answers : List QueryAnswers) : List SearchItem := (gathered answers).flatMap (·.getD [])

/-- The url of an item, if it has one that is not empty. -/
def SearchItem.link (item : SearchItem) : Option String :=
  match item.url with
  | none => none
  | some url => if url = "" then none else some url

def SearchItem.candidate (item : SearchItem) (url hash : String) : Candidate :=
  ⟨url, item.title, item.sourceDomain, item.publishedAt, item.sourceName, hash⟩

/-- The item with its hash, when its url is not empty and can be normalised. -/
def SearchItem.hashed (lib : PyLib) (item : SearchItem) : Option Candidate :=
  match item.link with
  | none => none
  | some url => (urlHash lib url).toOption.map (item.candidate url)

/-- One candidate per hash, the first one, in the order of the items. -/
structure MergeOf (lib : PyLib) (items : List SearchItem) (merged : List Candidate) : Prop where
  inOrder : merged.Sublist (items.filterMap (·.hashed lib))
  distinct : UniqueHashes merged
  first : ∀ before c after, items.filterMap (·.hashed lib) = before ++ c :: after →
    (∀ b ∈ before, b.canonicalUrlHash ≠ c.canonicalUrlHash) → c ∈ merged
  complete : ∀ c ∈ items.filterMap (·.hashed lib),
    ∃ kept ∈ merged, kept.canonicalUrlHash = c.canonicalUrlHash

def insertNew (merged : List Candidate) (c : Candidate) : List Candidate :=
  if merged.any (·.canonicalUrlHash == c.canonicalUrlHash) then merged else merged ++ [c]

section Insertion

variable {merged : List Candidate} {c : Candidate}

theorem insertNew_known (h : ∃ kept ∈ merged, kept.canonicalUrlHash = c.canonicalUrlHash) :
    insertNew merged c = merged := by
  obtain ⟨kept, hk, same⟩ := h
  exact if_pos (List.any_eq_true.mpr ⟨kept, hk, by simpa using same⟩)

theorem insertNew_fresh (h : ∀ kept ∈ merged, kept.canonicalUrlHash ≠ c.canonicalUrlHash) :
    insertNew merged c = merged ++ [c] := by
  refine if_neg fun found => ?_
  obtain ⟨kept, hk, same⟩ := List.any_eq_true.mp found
  exact h kept hk (by simpa using same)

theorem mem_insertNew {b : Candidate} (h : b ∈ merged) : b ∈ insertNew merged c := by
  unfold insertNew
  split
  · exact h
  · exact List.mem_append_left _ h

theorem insertNew_complete (merged : List Candidate) (c : Candidate) :
    ∃ kept ∈ insertNew merged c, kept.canonicalUrlHash = c.canonicalUrlHash := by
  by_cases known : ∃ kept ∈ merged, kept.canonicalUrlHash = c.canonicalUrlHash
  · rw [insertNew_known known]
    exact known
  · have fresh : ∀ kept ∈ merged, kept.canonicalUrlHash ≠ c.canonicalUrlHash :=
      fun kept hk same => known ⟨kept, hk, same⟩
    rw [insertNew_fresh fresh]
    exact ⟨c, by simp, rfl⟩

theorem insertNew_distinct (old : UniqueHashes merged) : UniqueHashes (insertNew merged c) := by
  by_cases known : ∃ kept ∈ merged, kept.canonicalUrlHash = c.canonicalUrlHash
  · rw [insertNew_known known]
    exact old
  · have fresh : ∀ kept ∈ merged, kept.canonicalUrlHash ≠ c.canonicalUrlHash :=
      fun kept hk same => known ⟨kept, hk, same⟩
    rw [insertNew_fresh fresh]
    unfold UniqueHashes at old ⊢
    rw [List.map_append]
    refine List.nodup_append.mpr ⟨old, by simp, ?_⟩
    intro h hh h' hh' same
    obtain ⟨kept, hk, rfl⟩ := List.mem_map.mp hh
    exact fresh kept hk (same.trans (List.mem_singleton.mp hh'))

end Insertion

/-- The insertions so far are the merge of what was seen, by induction at the end. -/
theorem insertions (seen : List Candidate) :
    (seen.foldl insertNew []).Sublist seen ∧ UniqueHashes (seen.foldl insertNew []) ∧
    (∀ before c after, seen = before ++ c :: after →
      (∀ b ∈ before, b.canonicalUrlHash ≠ c.canonicalUrlHash) → c ∈ seen.foldl insertNew []) ∧
    ∀ c ∈ seen, ∃ kept ∈ seen.foldl insertNew [], kept.canonicalUrlHash = c.canonicalUrlHash := by
  induction seen using List.reverseRecOn with
  | nil => exact ⟨.refl _, by simp [UniqueHashes], by simp, by simp⟩
  | append_singleton seen c ih =>
    obtain ⟨inOrder, distinct, first, complete⟩ := ih
    rw [List.foldl_append, List.foldl_cons, List.foldl_nil]
    refine ⟨?_, insertNew_distinct distinct, ?_, ?_⟩
    · unfold insertNew
      split
      · exact inOrder.trans (List.sublist_append_left seen [c])
      · exact inOrder.append (.refl [c])
    · intro before b after split fresh
      rcases List.eq_nil_or_concat after with rfl | ⟨after, last, rfl⟩
      · obtain ⟨rfl, same⟩ := List.append_inj' split rfl
        obtain rfl := (List.cons.inj same).1
        have new : ∀ kept ∈ seen.foldl insertNew [], kept.canonicalUrlHash ≠ c.canonicalUrlHash :=
          fun kept hk => fresh kept (inOrder.subset hk)
        rw [insertNew_fresh new]
        simp
      · rw [List.concat_eq_append, ← List.cons_append, ← List.append_assoc] at split
        exact mem_insertNew (first before b after (List.append_inj' split rfl).1 fresh)
    · intro b hb
      rcases List.mem_append.mp hb with hb | hb
      · obtain ⟨kept, hk, same⟩ := complete b hb
        exact ⟨kept, mem_insertNew hk, same⟩
      · obtain rfl := List.mem_singleton.mp hb
        exact insertNew_complete _ b

section Merge

variable (lib : PyLib)

/-- The url of the item is missing, empty, or can be hashed. -/
def SearchItem.usable (item : SearchItem) : Bool := item.link.all (hashable lib)

variable {lib}

theorem mergeItem_unlinked {item : SearchItem} (h : item.link = none) (merged : List Candidate) :
    mergeItem lib merged item = .ok merged := by
  rcases hu : item.url with _ | url
  · simp only [mergeItem, hu]
  · by_cases empty : url = ""
    · simp only [mergeItem, hu, empty, if_true]
    · simp [SearchItem.link, hu, empty] at h

theorem mergeItem_linked {item : SearchItem} {url : String} (h : item.link = some url)
    (merged : List Candidate) : mergeItem lib merged item =
      (urlHash lib url).map fun k => insertNew merged (item.candidate url k) := by
  rcases hu : item.url with _ | url'
  · simp [SearchItem.link, hu] at h
  · by_cases empty : url' = ""
    · simp [SearchItem.link, hu, empty] at h
    · obtain rfl : url' = url := by simpa [SearchItem.link, hu, empty] using h
      simp only [mergeItem, hu, empty, if_false]
      cases urlHash lib url' with
      | error e => rfl
      | ok k =>
        exact (apply_ite Except.ok (merged.any (·.canonicalUrlHash == k) = true) merged
          (merged ++ [item.candidate url' k])).symm

theorem mergeItem_usable {item : SearchItem} (usable : item.usable lib = true) (merged : List Candidate) :
    mergeItem lib merged item = .ok ((item.hashed lib).toList.foldl insertNew merged) := by
  cases link : item.link with
  | none =>
    rw [mergeItem_unlinked link, SearchItem.hashed, link]
    rfl
  | some url =>
    have can : hashable lib url = true := by simpa [SearchItem.usable, link] using usable
    obtain ⟨k, hashed⟩ := urlHash_ok.mpr can
    rw [mergeItem_linked link]
    simp [SearchItem.hashed, link, hashed, Except.map, Except.toOption]

theorem mergeItem_unusable {item : SearchItem} (unusable : item.usable lib = false) (merged : List Candidate) :
    ∃ e, mergeItem lib merged item = .error e := by
  cases link : item.link with
  | none => simp [SearchItem.usable, link] at unusable
  | some url =>
    rw [mergeItem_linked link]
    cases hashed : urlHash lib url with
    | error e => exact ⟨e, rfl⟩
    | ok k =>
      have can := urlHash_ok.mp ⟨k, hashed⟩
      simp [SearchItem.usable, link, can] at unusable

theorem mergeItems {items : List SearchItem} (usable : ∀ item ∈ items, item.usable lib = true)
    (merged : List Candidate) : items.foldlM (mergeItem lib) merged =
      .ok ((items.filterMap (·.hashed lib)).foldl insertNew merged) := by
  induction items generalizing merged with
  | nil => rfl
  | cons item items ih =>
    rw [List.foldlM_cons, mergeItem_usable (usable item (by simp))]
    have rest := ih (fun later hl => usable later (by simp [hl]))
    simp only [bind, Except.bind, rest]
    cases hashed : item.hashed lib <;> simp [hashed]

theorem mergeItems_fails {items : List SearchItem} (unusable : ∃ item ∈ items, item.usable lib = false)
    (merged : List Candidate) : ∃ e, items.foldlM (mergeItem lib) merged = .error e := by
  induction items generalizing merged with
  | nil => simp at unusable
  | cons item items ih =>
    rw [List.foldlM_cons]
    cases usable : item.usable lib with
    | true =>
      obtain ⟨bad, hb, no⟩ := unusable
      rcases List.mem_cons.mp hb with rfl | hb
      · simp [no] at usable
      · rw [mergeItem_usable usable]
        exact ih ⟨bad, hb, no⟩ _
    | false =>
      obtain ⟨e, failed⟩ := mergeItem_unusable usable merged
      exact ⟨e, by rw [failed]; rfl⟩

end Merge

theorem mergeResults_usable {lib : PyLib} {answers : List QueryAnswers}
    (usable : ∀ item ∈ foundItems answers, item.usable lib = true) : ∃ merged,
      mergeResults lib (gathered answers) = .ok merged ∧ MergeOf lib (foundItems answers) merged := by
  obtain ⟨inOrder, distinct, first, complete⟩ := insertions ((foundItems answers).filterMap (·.hashed lib))
  exact ⟨_, mergeItems usable [], inOrder, distinct, first, complete⟩

/-- The sources answer as given. -/
def sourcesAnswer (answers : List QueryAnswers) : (s : Stmt) → Answer s → Prop
  | .searchSources _ _, results => results = gathered answers
  | _, _ => True

theorem search_complete (lib : PyLib) (queries : List String) (perSource : Nat)
    (answers : List QueryAnswers) :
    (searchAllSources lib queries perSource).Returns (sourcesAnswer answers)
        (MergeOf lib (foundItems answers)) ↔
      ∀ item ∈ foundItems answers, item.usable lib = true := by
  have program : (searchAllSources lib queries perSource).Returns (sourcesAnswer answers)
      (MergeOf lib (foundItems answers)) ↔ (ofExcept (mergeResults lib (gathered answers))).Returns
        (sourcesAnswer answers) (MergeOf lib (foundItems answers)) := by
    constructor
    · exact fun returns => returns.2 (gathered answers) rfl
    · intro merge
      refine ⟨True.intro, fun results given => ?_⟩
      obtain rfl : results = gathered answers := given
      exact merge
  rw [program]
  constructor
  · intro merge
    by_contra bad
    have unusable : ∃ item ∈ foundItems answers, item.usable lib = false := by simpa using bad
    obtain ⟨e, failed⟩ := mergeItems_fails unusable []
    rw [show mergeResults lib (gathered answers) = .error e from failed] at merge
    exact merge
  · intro usable
    obtain ⟨merged, ok, merge⟩ := mergeResults_usable usable
    rw [ok]
    exact merge

/-- `urlsplit` refuses a netloc with an unbalanced bracket. -/
def bracketLib : PyLib :=
  sampleLib.withUrls fun netloc => netloc.toList.contains '[' == netloc.toList.contains ']'

def searchItem (url : String) : SearchItem := ⟨some url, "t", "", .none, "s"⟩

def oneQuery (url : String) : List QueryAnswers :=
  [⟨some [searchItem "https://a.example/x"], some [searchItem url], none⟩]

theorem search_complete_sample : (searchAllSources bracketLib ["q"] 5).Returns
    (sourcesAnswer (oneQuery "https://[::1]/y")) (MergeOf bracketLib (foundItems (oneQuery "https://[::1]/y"))) := by
  apply (search_complete bracketLib ["q"] 5 (oneQuery "https://[::1]/y")).mpr
  decide +kernel

/-- One unbalanced bracket loses the cycle, the good item too. -/
theorem unbalanced_bracket :
    mergeResults bracketLib (gathered (oneQuery "https://[a/y")) = .error .valueError ∧
    ¬ (searchAllSources bracketLib ["q"] 5).Returns (sourcesAnswer (oneQuery "https://[a/y"))
      (MergeOf bracketLib (foundItems (oneQuery "https://[a/y"))) := by
  have failed : mergeResults bracketLib (gathered (oneQuery "https://[a/y")) = .error .valueError := by
    decide +kernel
  refine ⟨failed, fun returns => ?_⟩
  have merge : (ofExcept (mergeResults bracketLib (gathered (oneQuery "https://[a/y")))).Returns _ _ :=
    returns.2 (gathered (oneQuery "https://[a/y")) rfl
  rw [failed] at merge
  exact merge

end NewsNotifier

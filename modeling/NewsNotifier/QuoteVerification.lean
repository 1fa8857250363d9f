import NewsNotifier.CharacterRuns
import NewsNotifier.NewsRuns
import Mathlib.Data.List.DropRight

namespace NewsNotifier

theorem pyContains_iff {needle haystack : String} :
    pyContains needle haystack = true ↔ needle.toList <:+: haystack.toList := by
  unfold pyContains
  rw [List.any_eq_true]
  constructor
  · rintro ⟨tail, within, starts⟩
    have suffix := (List.mem_tails _ _).mp within
    exact (List.isPrefixOf_iff_prefix.mp starts).isInfix.trans suffix.isInfix
  · rintro ⟨front, back, split⟩
    have suffix : needle.toList ++ back <:+ haystack.toList := ⟨front, by rw [← split, List.append_assoc]⟩
    exact ⟨_, (List.mem_tails _ _).mpr suffix, List.isPrefixOf_iff_prefix.mpr (List.prefix_append _ _)⟩

section Stripping

variable (lib : PyLib) (s : String)

theorem strip_toList : (pyStrip lib s).toList =
    (s.toList.dropWhile lib.isSpace).rdropWhile lib.isSpace := by
  simp [pyStrip, List.rdropWhile]

theorem strip_split : ∃ front back : List Char,
    s.toList = front ++ ((pyStrip lib s).toList ++ back) ∧
      (∀ c ∈ front, lib.isSpace c = true) ∧ ∀ c ∈ back, lib.isSpace c = true := by
  refine ⟨s.toList.takeWhile lib.isSpace, (s.toList.dropWhile lib.isSpace).rtakeWhile lib.isSpace,
    ?_, fun c hc => List.mem_takeWhile_imp hc, fun c hc => List.mem_rtakeWhile_imp hc⟩
  rw [strip_toList, List.rdropWhile_append_rtakeWhile, List.takeWhile_append_dropWhile]

theorem strip_strip : pyStrip lib (pyStrip lib s) = pyStrip lib s := by
  apply String.toList_injective
  rw [strip_toList, strip_toList]
  have starts : ((s.toList.dropWhile lib.isSpace).rdropWhile lib.isSpace).dropWhile lib.isSpace =
      (s.toList.dropWhile lib.isSpace).rdropWhile lib.isSpace := by
    apply List.dropWhile_eq_self_iff.mpr
    intro nonempty
    obtain ⟨back, split⟩ := List.rdropWhile_prefix lib.isSpace (s.toList.dropWhile lib.isSpace)
    have long : 0 < (s.toList.dropWhile lib.isSpace).length := by
      rw [← split, List.length_append]
      omega
    have solid := List.dropWhile_get_zero_not lib.isSpace s.toList long
    have same : (s.toList.dropWhile lib.isSpace)[0]? =
        ((s.toList.dropWhile lib.isSpace).rdropWhile lib.isSpace)[0]? := by
      have front := (@List.getElem?_append_left _ _ back _ nonempty).symm
      rw [front, split]
    rw [List.getElem?_eq_getElem long, List.getElem?_eq_getElem nonempty] at same
    rw [← Option.some.inj same]
    simpa using solid
  rw [starts, List.rdropWhile_idempotent]

/-- The characters of words. -/
def isSolid (c : Char) : Bool := !lib.isSpace c

theorem strip_runs : runsOf (isSolid lib) [] (pyStrip lib s).toList =
    runsOf (isSolid lib) [] s.toList := by
  obtain ⟨front, back, split, frontBlank, backBlank⟩ := strip_split lib s
  have outsideFront : ∀ c ∈ front, isSolid lib c = false := fun c hc => by simp [isSolid, frontBlank c hc]
  have outsideBack : ∀ c ∈ back, isSolid lib c = false := fun c hc => by simp [isSolid, backBlank c hc]
  rw [split, runsOf_gap outsideFront, runsOf_trailing outsideBack]

theorem strip_ne_empty {lib : PyLib} {s : String} {c : Char} (hc : c ∈ s.toList)
    (solid : lib.isSpace c = false) : pyStrip lib s ≠ "" := by
  intro empty
  have gone : runsOf (isSolid lib) [] s.toList = [] := by
    rw [← strip_runs, empty]
    rfl
  have spelled := spells_runs (isSolid lib) s.toList
  rw [gone] at spelled
  cases spelled with
  | blank outside =>
    have := outside c hc
    simp [isSolid, solid] at this

theorem collapse_toList {fold : Char → List Char}
    (perChar : ∀ s, (lib.casefold s).toList = s.toList.flatMap fold) :
    (collapse lib s).toList = (spaced (isSolid lib) s.toList).flatMap fold := by
  have words : (pySplit lib s).map String.toList = runsOf (isSolid lib) [] s.toList := by
    simp only [pySplit, List.map_map, Function.comp_def, String.toList_ofList, List.map_id']
    rfl
  rw [collapse, perChar, String.toList_intercalate, words]
  rfl

end Stripping

/-- The quote occurs in the article up to blanks and case. -/
def Occurs (lib : PyLib) (quote article : String) : Prop :=
  (collapse lib quote).toList <:+: (collapse lib article).toList

instance {lib : PyLib} {quote article : String} : Decidable (Occurs lib quote article) :=
  decidable_of_iff _ pyContains_iff

theorem flatMap_occurs {fold : Char → List Char} {s t : List Char} (h : s <:+: t) :
    s.flatMap fold <:+: t.flatMap fold := by
  obtain ⟨front, back, rfl⟩ := h
  exact ⟨front.flatMap fold, back.flatMap fold, by simp [List.flatMap_append]⟩

/-- A stretch of the article, its blanks rewritten, is found in it once stripped. -/
theorem occurs_of_respaced {lib : PyLib} {fold : Char → List Char}
    (perChar : ∀ s, (lib.casefold s).toList = s.toList.flatMap fold) {stretch : List Char}
    {quote article : String} (within : stretch <:+: article.toList)
    (rewritten : Respaced lib.isSpace stretch quote.toList) :
    Occurs lib (pyStrip lib quote) article := by
  have words : runsOf (isSolid lib) [] stretch = runsOf (isSolid lib) [] quote.toList := rewritten.runs []
  have same : spaced (isSolid lib) (pyStrip lib quote).toList = spaced (isSolid lib) stretch := by
    unfold spaced
    rw [strip_runs, words]
  unfold Occurs
  rw [collapse_toList lib _ perChar, collapse_toList lib _ perChar, same]
  exact flatMap_occurs (spaced_occurs within)

theorem Respaced.mem {blank : Char → Bool} {s t : List Char} (h : Respaced blank s t) {c : Char}
    (hc : c ∈ s) (solid : blank c = false) : c ∈ t := by
  induction h with
  | done => exact hc
  | @keep d s t _ later ih =>
    rcases List.mem_cons.mp hc with rfl | hc
    · exact List.mem_cons_self
    · exact List.mem_cons_of_mem _ (ih hc)
  | @run a b s t left leftBlank right rightBlank later ih =>
    rcases List.mem_append.mp hc with inGap | hc
    · simp [leftBlank c inGap] at solid
    · exact List.mem_append_right b (ih hc)

/-- A dict whose quote is missing, null or a string. -/
structure ProofDict where
  fields : List (String × Json)
  quote : Option String
  present : Json.field fields "quote" = none ∧ quote = none ∨
    Json.field fields "quote" = some .null ∧ quote = none ∨
    ∃ s, Json.field fields "quote" = some (.str s) ∧ quote = some s

namespace ProofDict

def json (proof : ProofDict) : Json := .obj proof.fields

def text (proof : ProofDict) : String := proof.quote.getD ""

/-- The dict that stands for a kept quote. -/
def verified (quote : String) : ProofDict :=
  ⟨[("quote", .str quote)], some quote, .inr (.inr ⟨quote, by simp [Json.field], rfl⟩)⟩

end ProofDict

variable (lib : PyLib)

theorem quoteOf_json (proof : ProofDict) : quoteOf lib proof.json = .ok (pyStrip lib proof.text) := by
  have blank : pyStrip lib "" = "" := rfl
  rcases proof.present with ⟨field, quote⟩ | ⟨field, quote⟩ | ⟨s, field, quote⟩
  · simp [quoteOf, ProofDict.json, ProofDict.text, field, quote, blank]
  · simp [quoteOf, ProofDict.json, ProofDict.text, field, quote, blank, Json.truthy]
  · by_cases empty : s = ""
    · simp [quoteOf, ProofDict.json, ProofDict.text, field, quote, blank, Json.truthy, empty]
    · simp [quoteOf, ProofDict.json, ProofDict.text, field, quote, Json.truthy, empty]

/-- The stripped quotes that are kept, in input order. -/
def keptQuotes (article : String) (proofs : List ProofDict) : List String :=
  (proofs.map fun proof => pyStrip lib proof.text).filter
    fun quote => decide (quote ≠ "" ∧ Occurs lib quote article)

/-- One round of the loop of `_verify_proofs`. -/
def keepProof (normalizedArticle : String) (verified : List String) (proof : Json) :
    Except PyError (List String) := do
  let quote ← quoteOf lib proof
  if quote ≠ "" ∧ pyContains (collapse lib quote) normalizedArticle then .ok (verified ++ [quote])
  else .ok verified

theorem keepProof_folds (article : String) (proofs : List ProofDict) (verified : List String) :
    (proofs.map ProofDict.json).foldlM (keepProof lib (collapse lib article)) verified =
      .ok (verified ++ keptQuotes lib article proofs) := by
  induction proofs generalizing verified with
  | nil => exact congrArg Except.ok (List.append_nil verified).symm
  | cons proof proofs ih =>
    have occurs : pyContains (collapse lib (pyStrip lib proof.text)) (collapse lib article) = true ↔
        Occurs lib (pyStrip lib proof.text) article := pyContains_iff
    rw [List.map_cons, List.foldlM_cons]
    by_cases kept : pyStrip lib proof.text ≠ "" ∧ Occurs lib (pyStrip lib proof.text) article
    · have round : keepProof lib (collapse lib article) verified proof.json =
          .ok (verified ++ [pyStrip lib proof.text]) := by
        simp only [keepProof, quoteOf_json]
        exact if_pos ⟨kept.1, occurs.mpr kept.2⟩
      have first : keptQuotes lib article (proof :: proofs) =
          pyStrip lib proof.text :: keptQuotes lib article proofs := by simp [keptQuotes, kept]
      have later := ih (verified ++ [pyStrip lib proof.text])
      rw [List.append_assoc, List.singleton_append, ← first] at later
      rw [round]
      exact later
    · have round : keepProof lib (collapse lib article) verified proof.json = .ok verified := by
        simp only [keepProof, quoteOf_json]
        exact if_neg fun h => kept ⟨h.1, occurs.mp h.2⟩
      have first : keptQuotes lib article (proof :: proofs) = keptQuotes lib article proofs := by
        simp [keptQuotes, kept]
      rw [round, first]
      exact ih verified

theorem verifyProofs_kept (article : String) (proofs : List ProofDict) :
    verifyProofs lib (proofs.map ProofDict.json) article = .ok (keptQuotes lib article proofs) :=
  keepProof_folds lib article proofs []

theorem keptQuotes_again (article : String) (proofs : List ProofDict) :
    keptQuotes lib article ((keptQuotes lib article proofs).map ProofDict.verified) =
      keptQuotes lib article proofs := by
  have stripped : ∀ quote ∈ keptQuotes lib article proofs, pyStrip lib quote = quote := by
    intro quote hq
    obtain ⟨proof, _, rfl⟩ := List.mem_map.mp (List.mem_filter.mp hq).1
    exact strip_strip lib proof.text
  have same : (((keptQuotes lib article proofs).map ProofDict.verified).map
      fun proof => pyStrip lib proof.text) = keptQuotes lib article proofs := by
    rw [List.map_map]
    exact (List.map_congr_left stripped).trans (List.map_id _)
  rw [keptQuotes, same]
  apply List.filter_eq_self.mpr
  intro quote hq
  exact (List.mem_filter.mp hq).2

theorem quote_verification {fold : Char → List Char}
    (perChar : ∀ s, (lib.casefold s).toList = s.toList.flatMap fold) (article : String)
    (proofs : List ProofDict) :
    verifyProofs lib (proofs.map ProofDict.json) article = .ok (keptQuotes lib article proofs) ∧
    (∀ quote ∈ keptQuotes lib article proofs, Occurs lib quote article) ∧
    (∀ proof ∈ proofs, ∀ stretch : List Char, stretch <:+: article.toList →
      (∃ c ∈ stretch, lib.isSpace c = false) → Respaced lib.isSpace stretch proof.text.toList →
      pyStrip lib proof.text ∈ keptQuotes lib article proofs) ∧
    verifyProofs lib ((keptQuotes lib article proofs).map fun quote => (ProofDict.verified quote).json)
      article = .ok (keptQuotes lib article proofs) := by
  refine ⟨verifyProofs_kept lib article proofs, fun quote hq => ?_, ?_, ?_⟩
  · have kept := (List.mem_filter.mp hq).2
    exact (of_decide_eq_true kept).2
  · intro proof hp stretch within ⟨c, hc, solid⟩ rewritten
    have nonempty := strip_ne_empty (rewritten.mem hc solid) solid
    have occurs := occurs_of_respaced perChar within rewritten
    exact List.mem_filter.mpr ⟨List.mem_map.mpr ⟨proof, hp, rfl⟩, decide_eq_true ⟨nonempty, occurs⟩⟩
  · have again := verifyProofs_kept lib article ((keptQuotes lib article proofs).map ProofDict.verified)
    rw [List.map_map, keptQuotes_again] at again
    exact again

/-- A stretch that starts inside a word, with a longer run of blanks. -/
theorem quote_verification_sample :
    pyStrip sampleLib "es   will" ∈
      keptQuotes sampleLib "rates  will fall" [ProofDict.verified "es   will"] := by
  have perChar (s : String) : (sampleLib.casefold s).toList = s.toList.flatMap fun c => [c] := by
    simp [sampleLib]
  have text : (ProofDict.verified "es   will").text.toList =
      ['e', 's', ' ', ' ', ' ', 'w', 'i', 'l', 'l'] := by decide +kernel
  have within : ['e', 's', ' ', ' ', 'w', 'i', 'l', 'l'] <:+: "rates  will fall".toList :=
    ⟨['r', 'a', 't'], [' ', 'f', 'a', 'l', 'l'], by decide +kernel⟩
  have tail : Respaced sampleLib.isSpace ['w', 'i', 'l', 'l'] ['w', 'i', 'l', 'l'] :=
    .keep rfl (.keep rfl (.keep rfl (.keep rfl .done)))
  have gap := @Respaced.run sampleLib.isSpace [' ', ' '] [' ', ' ', ' '] _ _
    (by simp) (by simp [sampleLib]) (by simp) (by simp [sampleLib]) tail
  obtain ⟨_, _, complete, _⟩ :=
    quote_verification sampleLib perChar "rates  will fall" [ProofDict.verified "es   will"]
  apply complete _ List.mem_cons_self _ within ⟨'e', List.mem_cons_self, rfl⟩
  rw [text]
  exact .keep rfl (.keep rfl gap)

end NewsNotifier

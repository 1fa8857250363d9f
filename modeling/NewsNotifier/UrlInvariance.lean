import NewsNotifier.UrlNormalForm

namespace NewsNotifier

open QueryStrings UrlText

section Changes

variable {lib : PyLib} {accepts : String → Bool} {r r' : SplitResult}

theorem parseQsl_joinQuery (fields : List String) : (lib.withUrls accepts).parseQsl (joinQuery fields) =
    fields.flatMap (lib.withUrls accepts).parseQsl := by
  simp only [parseQsl_withUrls, joinQuery, String.toList_ofList, parseQsl_joinFields, List.flatMap_map,
    List.map_flatMap]
  rfl

theorem params_eq (accepts : String → Bool) (query : String) : params lib query.toList =
    (keptFields (lib.withUrls accepts) query).insertionSort pairLe := rfl

/-- A tracking field adds nothing to the parameters. -/
theorem keptFields_tracking {field : String} (h : isTracking (lib.withUrls accepts) field = true) :
    keptFields (lib.withUrls accepts) field = [] := by
  simp only [isTracking, Bool.and_eq_true, Bool.not_eq_true', List.contains_eq_mem,
    decide_eq_false_iff_not, decide_eq_true_eq] at h
  obtain ⟨single, tracks⟩ := h
  rw [keptFields, parseQsl_withUrls, parseQsl_single single]
  refine List.filter_eq_nil_iff.mpr fun kv hkv => ?_
  obtain ⟨cs, hcs, rfl⟩ := List.mem_map.mp hkv
  have parsed : parseField false field.toList = some cs := by simpa using hcs
  have name : cs.1 = unquotePlus (splitFirst '=' field.toList).1 := by
    unfold parseField at parsed
    split at parsed
    next => simp at parsed
    next =>
      split at parsed
      next cut => simp at parsed
      next cut =>
        split at parsed
        next => simp at parsed
        next =>
          cases Option.some.inj parsed
          rw [cut]
  simpa [ofChars, name, fieldName] using tracks

theorem keptFields_joinQuery (fields : List String) : keptFields (lib.withUrls accepts) (joinQuery fields) =
    fields.flatMap (keptFields (lib.withUrls accepts)) := by
  rw [keptFields, parseQsl_joinQuery, List.filter_flatMap]
  rfl

theorem canonical_query (accepts : String → Bool) {query query' : String} (r : SplitResult)
    (same : (keptFields (lib.withUrls accepts) query).Perm (keptFields (lib.withUrls accepts) query')) :
    canonical lib (partsOf { r with query := query }) = canonical lib (partsOf { r with query := query' }) := by
  have sorted : params lib query.toList = params lib query'.toList := insertionSort_of_perm same
  simp only [canonical, normalized, partsOf, sorted]

theorem lowerChars_same (laws : lib.letters.Lawful) {s s' : String}
    (h : List.Forall₂ lib.letters.SameLetter s.toList s'.toList) :
    lowerChars lib s.toList = lowerChars lib s'.toList := by
  rw [lowerChars_eq, lowerChars_eq, String.ofList_toList, String.ofList_toList, laws.lower_same h]

theorem UrlChange.canonical (laws : lib.letters.Lawful) (h : UrlChange (lib.withUrls accepts) r r') :
    NewsNotifier.canonical lib (partsOf r) = NewsNotifier.canonical lib (partsOf r') := by
  cases h with
  | tracking r before after field tracks =>
    refine canonical_query accepts r (List.Perm.of_eq ?_)
    simp only [keptFields_joinQuery, List.flatMap_append, List.flatMap_cons, keptFields_tracking tracks,
      List.nil_append]
  | permuted r same =>
    refine canonical_query accepts r ?_
    rw [keptFields_joinQuery, keptFields_joinQuery]
    exact same.flatMap_right _
  | fragment => rfl
  | letterCase r hs hn =>
    simp only [NewsNotifier.canonical, normalized, partsOf, lowerChars_same laws hs, lowerChars_same laws hn]
  | slashes r n empty =>
    have none_ : params lib r.query.toList = [] := by
      rw [params_eq accepts, empty]
      rfl
    simp only [NewsNotifier.canonical, normalized, partsOf, none_, List.map_nil, urlencode_eq_nil.mpr,
      Parts.trim, if_true, String.toList_append, String.toList_ofList, rstripSlash_slashes]

theorem canonical_changes (laws : lib.letters.Lawful) (h : Relation.EqvGen (UrlChange (lib.withUrls accepts)) r r') :
    canonical lib (partsOf r) = canonical lib (partsOf r') := by
  induction h with
  | rel _ _ change => exact change.canonical laws
  | refl => rfl
  | symm _ _ _ ih => exact ih.symm
  | trans _ _ _ _ _ ih ih' => exact ih.trans ih'

end Changes

section Idempotence

variable {lib : PyLib} {p : Parts}

theorem params_nonblank {query : List Char} {kv : String × String} (h : kv ∈ params lib query) :
    (toChars kv).2 ≠ [] := by
  rw [params, List.mem_insertionSort] at h
  obtain ⟨cs, hcs, rfl⟩ := List.mem_map.mp (List.mem_filter.mp h).1
  rw [parseQsl_keep] at hcs
  simpa [toChars, ofChars] using (List.mem_filter.mp hcs).2

theorem params_urlencode (query : List Char) :
    params lib (urlencode ((params lib query).map toChars)) = params lib query := by
  have kept : ((params lib query).map toChars).filter (fun kv => kv.2 ≠ []) = (params lib query).map toChars := by
    refine List.filter_eq_self.mpr fun cs hcs => ?_
    obtain ⟨kv, hkv, rfl⟩ := List.mem_map.mp hcs
    simpa using params_nonblank hkv
  have chars : ((params lib query).map toChars).map ofChars = params lib query := by
    rw [List.map_map]
    exact (List.map_congr_left fun kv _ => ofChars_toChars kv).trans (List.map_id _)
  have untracked : (params lib query).filter (fun kv => !trackingParams.contains (lib.lower kv.1)) =
      params lib query := by
    refine List.filter_eq_self.mpr fun kv hkv => ?_
    rw [params, List.mem_insertionSort] at hkv
    exact (List.mem_filter.mp hkv).2
  have sorted : (params lib query).Pairwise pairLe := List.pairwise_insertionSort pairLe _
  conv => lhs; rw [params, parseQsl_urlencode, kept, chars, untracked]
  exact sorted.insertionSort_eq

theorem trim_trim (p : Parts) : p.trim.trim = p.trim := by
  unfold Parts.trim
  by_cases query : p.query = []
  · simp [query, UrlText.rstripSlash, List.rdropWhile_idempotent]
  · simp [query]

theorem canonical_front (p : Parts) : (canonical lib p).scheme = lowerChars lib p.scheme ∧
    (canonical lib p).netloc = lowerChars lib p.netloc ∧ (canonical lib p).fragment = [] := by
  unfold canonical Parts.trim
  split <;> exact ⟨rfl, rfl, rfl⟩

theorem canonical_idem (laws : lib.letters.Lawful) (p : Parts) :
    canonical lib (canonical lib p) = canonical lib p := by
  have query : (canonical lib p).query = urlencode ((params lib p.query).map toChars) := by
    unfold canonical Parts.trim
    split <;> rfl
  have front := @canonical_front lib p
  have again : normalized lib (canonical lib p) = canonical lib p := by
    rw [normalized, query, params_urlencode, front.1, front.2.1, lowerChars_idem laws, lowerChars_idem laws,
      ← query]
    cases hc : canonical lib p with
    | mk scheme netloc path query fragment =>
      simp only [hc] at front
      obtain ⟨rfl, rfl, rfl⟩ := front
      rfl
  have trimmed : (canonical lib p).trim = canonical lib p := trim_trim _
  rw [canonical, again, trimmed]

theorem canonical_params {p p' : Parts} (same : canonical lib p = canonical lib p') :
    params lib p.query = params lib p'.query := by
  have query : ∀ p : Parts, params lib (canonical lib p).query = params lib p.query := by
    intro p
    have kept : (canonical lib p).query = (normalized lib p).query := by
      unfold canonical Parts.trim
      split <;> rfl
    rw [kept]
    exact params_urlencode p.query
  rw [← query p, same, query p']

/-- What has to be encoded is told by the canonical parts. -/
theorem writable_canonical {accepts : String → Bool} {query query' : String}
    (same : params lib query.toList = params lib query'.toList) :
    writableFields (lib.withUrls accepts) (keptFields (lib.withUrls accepts) query) =
      writableFields (lib.withUrls accepts) (keptFields (lib.withUrls accepts) query') := by
  have sorted : ∀ query, (params lib query.toList).Perm (keptFields (lib.withUrls accepts) query) := fun query =>
    (params_eq accepts query).symm ▸ List.perm_insertionSort pairLe _
  exact ((sorted query).symm.trans (same ▸ sorted query')).all_eq

end Idempotence

/-- An absolute URL is split as it was joined, if its authority is accepted. -/
theorem joined_isHttpUrl (lib : PyLib) {accepts : String → Bool} {p : Parts} (h : p.Absolute)
    (ok : accepts (String.ofList p.netloc) = true)
    (scheme : String.ofList p.scheme = "http" ∨ String.ofList p.scheme = "https") :
    IsHttpUrl (lib.withUrls accepts) (String.ofList (unsplitUrl p)) (splitResult p) := by
  refine ⟨?_, scheme, fun empty => ?_⟩
  · simp only [PyLib.withUrls, String.toList_ofList, h.split_unsplit, ok, if_true]
  · have gone : String.ofList p.netloc = "" := empty
    exact h.authority (by simpa using gone)

/-- The canonical URL is a normal form: canonicalising it again changes nothing, and no sequence of the listed
changes of the URL changes it, its hash, or that a field cannot be encoded. -/
theorem url_normal_form (lib : PyLib) (laws : lib.letters.Lawful) (accepts : String → Bool)
    (lowerAccepted : ∀ netloc, accepts netloc = true → accepts (lib.lower netloc) = true)
    {url : String} {parts : SplitResult} (h : IsHttpUrl (lib.withUrls accepts) url parts) :
    (writableFields (lib.withUrls accepts) (keptFields (lib.withUrls accepts) parts.query) = true →
      ∃ normal, normalizeUrl (lib.withUrls accepts) url = .ok normal ∧
        normalizeUrl (lib.withUrls accepts) normal = .ok normal) ∧
    ∀ url' parts', IsHttpUrl (lib.withUrls accepts) url' parts' →
      Relation.EqvGen (UrlChange (lib.withUrls accepts)) parts parts' →
        normalizeUrl (lib.withUrls accepts) url' = normalizeUrl (lib.withUrls accepts) url ∧
        urlHash (lib.withUrls accepts) url' = urlHash (lib.withUrls accepts) url := by
  have normal := h.normalize laws
  constructor
  · intro writable
    rw [if_pos writable] at normal
    refine ⟨_, normal, ?_⟩
    have absolute := canonical_absolute laws h.absolute
    have accepted := lowerAccepted _ (urlsplit_withUrls h.split).1
    have netloc : String.ofList (canonical lib (partsOf parts)).netloc = lib.lower parts.netloc := by
      simp [(canonical_front _).2.1, lowerChars, partsOf]
    have scheme : String.ofList (canonical lib (partsOf parts)).scheme = parts.scheme := by
      rw [(canonical_front _).1, lowerChars_scheme laws h.absolute]
      simp [partsOf]
    have again := joined_isHttpUrl lib absolute (netloc ▸ accepted) (scheme ▸ h.scheme)
    have idem := canonical_idem laws (partsOf parts)
    have fields :
        params lib (splitResult (canonical lib (partsOf parts))).query.toList = params lib parts.query.toList := by
      have same := canonical_params idem
      simpa [splitResult, partsOf] using same
    rw [again.normalize laws, writable_canonical fields, if_pos writable, partsOf_splitResult, idem]
  · intro url' parts' h' changes
    have parts_eq := canonical_changes laws changes
    have same : normalizeUrl (lib.withUrls accepts) url' = normalizeUrl (lib.withUrls accepts) url := by
      rw [normal, h'.normalize laws, parts_eq, writable_canonical (canonical_params parts_eq)]
    exact ⟨same, by rw [urlHash, urlHash, same]⟩

def greekLower (c : Char) : Char :=
  if c = 'Κ' then 'κ' else if c = 'Ο' then 'ο' else if c = 'Μ' then 'μ' else if c = 'Σ' then 'σ' else c.toLower

def greekUpper (c : Char) : Char :=
  if c = 'κ' then 'Κ' else if c = 'ο' then 'Ο' else if c = 'μ' then 'Μ'
  else if c = 'σ' ∨ c = 'ς' then 'Σ' else c.toUpper

/-- The case data of ASCII and of a few Greek letters. -/
def greekTable : LetterCase.CaseTable where
  lowerChar c := [greekLower c]
  upperChar c := [greekUpper c]
  cased c := (greekLower c).isLower || ['κ', 'ο', 'μ', 'σ', 'ς'].contains (greekLower c)
  ignorable c := greekLower c == '.'

theorem toLower_ne {c d : Char} (h : c ≠ d) (large : ¬d.toNat < 128) : c.toLower ≠ d := by
  intro same
  by_cases upper : c.isUpper
  · have alpha : c.toLower.isAlpha = true := by simp [Char.isAlpha, upper]
    have small := (@unreserved_bounds c.toLower (by simp [unreserved, Char.isAlphanum, alpha])).1
    exact large (same ▸ small)
  · rw [Char.toLower_eq_of_not_isUpper upper] at same
    exact h same

theorem greekLower_other {c : Char} (h : c ≠ 'Κ' ∧ c ≠ 'Ο' ∧ c ≠ 'Μ' ∧ c ≠ 'Σ') : greekLower c = c.toLower := by
  rw [greekLower, if_neg h.1, if_neg h.2.1, if_neg h.2.2.1, if_neg h.2.2.2]

/-- A character is one of the capitals, or is lower-cased as in ASCII. -/
theorem greekLower_cases (c : Char) : (c ∈ ['Κ', 'Ο', 'Μ', 'Σ'] ∧ greekLower c ∈ ['κ', 'ο', 'μ', 'σ']) ∨
    (c ≠ 'Κ' ∧ c ≠ 'Ο' ∧ c ≠ 'Μ' ∧ c ≠ 'Σ') ∧ greekLower c = c.toLower := by
  by_cases h : c ≠ 'Κ' ∧ c ≠ 'Ο' ∧ c ≠ 'Μ' ∧ c ≠ 'Σ'
  · exact .inr ⟨h, greekLower_other h⟩
  · have capital : c = 'Κ' ∨ c = 'Ο' ∨ c = 'Μ' ∨ c = 'Σ' := by
      by_contra none_
      exact h (by simpa [not_or] using none_)
    rcases capital with rfl | rfl | rfl | rfl <;> exact .inl ⟨by simp, by simp [greekLower]⟩

theorem greekLower_fixed (c : Char) : greekLower c ≠ 'Σ' ∧ greekLower (greekLower c) = greekLower c := by
  rcases greekLower_cases c with ⟨_, small⟩ | ⟨⟨kappa, omicron, mu, sigma⟩, same⟩
  · simp only [List.mem_cons, List.not_mem_nil, or_false] at small
    rcases small with h | h | h | h <;> rw [h] <;> decide
  · have ne := toLower_ne sigma (by decide)
    have plain := greekLower_other ⟨toLower_ne kappa (by decide), toLower_ne omicron (by decide),
      toLower_ne mu (by decide), ne⟩
    rw [same, plain]
    exact ⟨ne, by simp⟩

theorem greekTable_lawful : greekTable.Lawful where
  fixed c _ d hd := by
    obtain rfl := List.mem_singleton.mp hd
    exact ⟨(greekLower_fixed c).1, congrArg (fun x => [x]) (greekLower_fixed c).2⟩
  sigma := ⟨by decide, by decide⟩
  ascii c small := by
    have apart : ∀ d : Char, ¬d.toNat < 128 → c ≠ d := by
      rintro d large rfl
      exact large small
    exact congrArg (fun x => [x]) (greekLower_other ⟨apart _ (by decide), apart _ (by decide), apart _ (by decide),
      apart _ (by decide)⟩)
  uncased c d hd small uncased := by
    obtain rfl := List.mem_singleton.mp hd
    rcases greekLower_cases c with ⟨_, large⟩ | ⟨_, same⟩
    · simp only [List.mem_cons, List.not_mem_nil, or_false] at large
      rcases large with h | h | h | h <;> rw [h] at small <;> exact absurd small (by decide)
    · rw [same, Char.isAlpha_toLower_eq_isAlpha] at uncased
      have plain : ¬c.isUpper := by
        intro upper
        simp [Char.isAlpha, upper] at uncased
      rw [same, Char.toLower_eq_of_not_isUpper plain]
  nonempty c := by simp [greekTable]
  classes c d same := by
    have same : greekLower c = greekLower d := List.head_eq_of_cons_eq same
    simp only [greekTable, same, and_self]

def greekLib : PyLib := { sampleLib with letters := greekTable, surrogate := fun c => c == '\uFDD0' }

theorem url_normal_form_sample :
    (∃ normal, normalizeUrl (greekLib.withUrls fun _ => true) "HTTPS://ΚΟΜ.gr/a/?utm_source=x#top" = .ok normal ∧
      normalizeUrl (greekLib.withUrls fun _ => true) normal = .ok normal) ∧
    normalizeUrl (greekLib.withUrls fun _ => true) "https://κομ.gr/a" =
      normalizeUrl (greekLib.withUrls fun _ => true) "HTTPS://ΚΟΜ.gr/a/?utm_source=x#top" := by
  have h : IsHttpUrl (greekLib.withUrls fun _ => true) "HTTPS://ΚΟΜ.gr/a/?utm_source=x#top"
      ⟨"https", "ΚΟΜ.gr", "/a/", "utm_source=x", "top"⟩ :=
    ⟨by decide +kernel, .inr rfl, by decide⟩
  have h' : IsHttpUrl (greekLib.withUrls fun _ => true) "https://κομ.gr/a"
      ⟨"https", "κομ.gr", "/a", "", ""⟩ :=
    ⟨by decide +kernel, .inr rfl, by decide⟩
  have tracking : UrlChange (greekLib.withUrls fun _ => true) ⟨"https", "ΚΟΜ.gr", "/a/", "utm_source=x", "top"⟩
      ⟨"https", "ΚΟΜ.gr", "/a/", "", "top"⟩ :=
    .tracking ⟨"https", "ΚΟΜ.gr", "/a/", "", "top"⟩ [] [] "utm_source=x" (by decide +kernel)
  have fragment : UrlChange (greekLib.withUrls fun _ => true) ⟨"https", "ΚΟΜ.gr", "/a/", "", "top"⟩
      ⟨"https", "ΚΟΜ.gr", "/a/", "", ""⟩ := .fragment _ ""
  have letters : List.Forall₂ greekTable.SameLetter "κομ.gr".toList "ΚΟΜ.gr".toList := by
    rw [show "κομ.gr".toList = 'κ' :: 'ο' :: 'μ' :: ".gr".toList by decide +kernel,
      show "ΚΟΜ.gr".toList = 'Κ' :: 'Ο' :: 'Μ' :: ".gr".toList by decide +kernel]
    exact .cons (.inr (by decide)) (.cons (.inr (by decide)) (.cons (.inr (by decide))
      (List.forall₂_same.mpr fun _ _ => .inl rfl)))
  have host : UrlChange (greekLib.withUrls fun _ => true) ⟨"https", "ΚΟΜ.gr", "/a/", "", ""⟩
      ⟨"https", "κομ.gr", "/a/", "", ""⟩ :=
    .letterCase ⟨"https", "ΚΟΜ.gr", "/a/", "", ""⟩ (List.forall₂_same.mpr fun _ _ => .inl rfl) letters
  have slash : UrlChange (greekLib.withUrls fun _ => true) ⟨"https", "κομ.gr", "/a", "", ""⟩
      ⟨"https", "κομ.gr", "/a/", "", ""⟩ := .slashes _ 1 (by decide +kernel)
  have changes := (((Relation.EqvGen.rel _ _ tracking).trans _ _ _ (.rel _ _ fragment)).trans _ _ _
    (.rel _ _ host)).trans _ _ _ ((Relation.EqvGen.rel _ _ slash).symm)
  have both := url_normal_form greekLib greekTable_lawful (fun _ => true) (fun _ ok => ok) h
  exact ⟨both.1 (by decide +kernel), (both.2 _ _ h' changes).1⟩

/-- A host in capitals, of which a sigma at the end of a word becomes no final one, and a query that cannot be
encoded. -/
theorem recased_host :
    greekTable.Recased "κοσμος.gr".toList "ΚΟΣΜΟΣ.GR".toList ∧
    IsHttpUrl (greekLib.withUrls fun _ => true) "http://κοσμος.gr/" ⟨"http", "κοσμος.gr", "/", "", ""⟩ ∧
    IsHttpUrl (greekLib.withUrls fun _ => true) "http://ΚΟΣΜΟΣ.GR/" ⟨"http", "ΚΟΣΜΟΣ.GR", "/", "", ""⟩ ∧
    normalizeUrl (greekLib.withUrls fun _ => true) "http://κοσμος.gr/" = .ok "http://κοσμος.gr" ∧
    normalizeUrl (greekLib.withUrls fun _ => true) "http://ΚΟΣΜΟΣ.GR/" = .ok "http://κοσμοσ.gr" ∧
    IsHttpUrl (greekLib.withUrls fun _ => true) "https://e.com/?q=\uFDD0" ⟨"https", "e.com", "/", "q=\uFDD0", ""⟩ ∧
    normalizeUrl (greekLib.withUrls fun _ => true) "https://e.com/?q=\uFDD0" = .error .unicodeEncodeError := by
  refine ⟨?_, ⟨by decide +kernel, .inl rfl, by decide⟩, ⟨by decide +kernel, .inl rfl, by decide⟩, by decide +kernel,
    by decide +kernel, ⟨by decide +kernel, .inr rfl, by decide⟩, by decide +kernel⟩
  have capitals : "ΚΟΣΜΟΣ.GR".toList = "κοσμος.gr".toList.flatMap greekTable.upperChar := by decide +kernel
  rw [capitals]
  exact LetterCase.CaseTable.recased_upper _

end NewsNotifier

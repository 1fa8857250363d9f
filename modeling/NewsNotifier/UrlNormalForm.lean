import NewsNotifier.UrlSplitting
import NewsNotifier.SearchMerge
import NewsNotifier.NewsRuns
import Mathlib.Data.String.Basic

namespace NewsNotifier

open QueryStrings UrlText

def splitResult (p : Parts) : SplitResult :=
  ⟨String.ofList p.scheme, String.ofList p.netloc, String.ofList p.path, String.ofList p.query,
    String.ofList p.fragment⟩

def partsOf (r : SplitResult) : Parts :=
  ⟨r.scheme.toList, r.netloc.toList, r.path.toList, r.query.toList, r.fragment.toList⟩

def ofChars (kv : List Char × List Char) : String × String := (String.ofList kv.1, String.ofList kv.2)

def toChars (kv : String × String) : List Char × List Char := (kv.1.toList, kv.2.toList)

/-- `urllib.parse`; `accepts` tells whether `urlsplit` raises no error on the netloc. -/
def PyLib.withUrls (lib : PyLib) (accepts : String → Bool) : PyLib :=
  { lib with
    urlsplit := fun url =>
      let p := splitUrl url.toList
      if accepts (String.ofList p.netloc) then some (splitResult p) else none
    urlunsplit := fun r => String.ofList (unsplitUrl (partsOf r))
    parseQsl := fun query => (QueryStrings.parseQsl false query.toList).map ofChars
    urlencode := fun kvs => String.ofList (QueryStrings.urlencode (kvs.map toChars)) }

/-- An absolute http(s) URL with a host, and its parts. -/
structure IsHttpUrl (lib : PyLib) (url : String) (parts : SplitResult) : Prop where
  split : lib.urlsplit url = some parts
  scheme : parts.scheme = "http" ∨ parts.scheme = "https"
  host : parts.netloc ≠ ""

def joinQuery (fields : List String) : String := String.ofList (joinFields (fields.map String.toList))

def fieldName (field : String) : String := String.ofList (unquotePlus (splitFirst '=' field.toList).1)

/-- A field of one of the `TRACKING_PARAMS`. -/
def isTracking (lib : PyLib) (field : String) : Bool :=
  !field.toList.contains '&' && trackingParams.contains (lib.lower (fieldName field))

/-- The changes that canonicalisation is to undo; a letter of scheme or host may become another of the same lower
case, but a capital sigma, whose lower case hangs on its neighbours, may not. -/
inductive UrlChange (lib : PyLib) : SplitResult → SplitResult → Prop
  | tracking (r : SplitResult) (before after : List String) (field : String)
      (h : isTracking lib field = true) :
      UrlChange lib { r with query := joinQuery (before ++ field :: after) }
        { r with query := joinQuery (before ++ after) }
  | permuted (r : SplitResult) {fields fields' : List String} (h : fields.Perm fields') :
      UrlChange lib { r with query := joinQuery fields } { r with query := joinQuery fields' }
  | fragment (r : SplitResult) (f : String) : UrlChange lib r { r with fragment := f }
  | letterCase (r : SplitResult) {scheme netloc : String}
      (hs : List.Forall₂ lib.letters.SameLetter scheme.toList r.scheme.toList)
      (hn : List.Forall₂ lib.letters.SameLetter netloc.toList r.netloc.toList) :
      UrlChange lib r { r with scheme := scheme, netloc := netloc }
  | slashes (r : SplitResult) (n : Nat) (h : keptFields lib r.query = []) :
      UrlChange lib r { r with path := r.path ++ String.ofList (List.replicate n '/') }

def lowerChars (lib : PyLib) (cs : List Char) : List Char := (lib.lower (String.ofList cs)).toList

/-- The sorted parameters of the canonical query. -/
def params (lib : PyLib) (query : List Char) : List (String × String) :=
  (((parseQsl false query).map ofChars).filter fun kv =>
    !trackingParams.contains (lib.lower kv.1)).insertionSort pairLe

/-- The parts that `normalize_url` joins. -/
def normalized (lib : PyLib) (p : Parts) : Parts :=
  ⟨lowerChars lib p.scheme, lowerChars lib p.netloc, p.path, urlencode ((params lib p.query).map toChars), []⟩

/-- The parts of the canonical URL. -/
def canonical (lib : PyLib) (p : Parts) : Parts := (normalized lib p).trim

@[simp] theorem partsOf_splitResult (p : Parts) : partsOf (splitResult p) = p := by
  simp [partsOf, splitResult]

@[simp] theorem ofChars_toChars (kv : String × String) : ofChars (toChars kv) = kv := by
  simp [ofChars, toChars]

theorem pairLe_total (a b : String × String) : pairLe a b ∨ pairLe b a := by
  unfold pairLe
  rcases lt_trichotomy a.1 b.1 with h | h | h
  · exact .inl (.inl h)
  · rcases le_total a.2 b.2 with h' | h'
    · exact .inl (.inr ⟨h, h'⟩)
    · exact .inr (.inr ⟨h.symm, h'⟩)
  · exact .inr (.inl h)

theorem pairLe_trans {a b c : String × String} (h : pairLe a b) (h' : pairLe b c) : pairLe a c := by
  unfold pairLe at *
  rcases h with h | ⟨e, h⟩ <;> rcases h' with h' | ⟨e', h'⟩
  · exact .inl (h.trans h')
  · exact .inl (e' ▸ h)
  · exact .inl (e ▸ h')
  · exact .inr ⟨e.trans e', h.trans h'⟩

theorem pairLe_antisymm {a b : String × String} (h : pairLe a b) (h' : pairLe b a) : a = b := by
  unfold pairLe at *
  rcases h with h | ⟨e, h⟩ <;> rcases h' with h' | ⟨e', h'⟩
  · exact absurd h' h.asymm
  · exact absurd (e' ▸ h) (lt_irrefl _)
  · exact absurd (e ▸ h') (lt_irrefl _)
  · exact Prod.ext e (le_antisymm h h')

instance : Std.Total pairLe := ⟨pairLe_total⟩

instance : IsTrans (String × String) pairLe := ⟨fun _ _ _ => pairLe_trans⟩

instance : Std.Antisymm pairLe := ⟨fun _ _ => pairLe_antisymm⟩

theorem insertionSort_of_perm {xs ys : List (String × String)} (h : xs.Perm ys) :
    xs.insertionSort pairLe = ys.insertionSort pairLe := by
  have perm : (xs.insertionSort pairLe).Perm (ys.insertionSort pairLe) :=
    (List.perm_insertionSort pairLe xs).trans (h.trans (List.perm_insertionSort pairLe ys).symm)
  exact perm.eq_of_pairwise' (List.pairwise_insertionSort pairLe xs) (List.pairwise_insertionSort pairLe ys)

section Normal

variable {lib : PyLib} {accepts : String → Bool} {url : String} {parts : SplitResult} {p : Parts}

theorem parseQsl_withUrls (query : String) : (lib.withUrls accepts).parseQsl query =
    (parseQsl false query.toList).map ofChars := rfl

theorem urlsplit_withUrls {parts : SplitResult} (h : (lib.withUrls accepts).urlsplit url = some parts) :
    accepts parts.netloc = true ∧ parts = splitResult (splitUrl url.toList) := by
  simp only [PyLib.withUrls] at h
  split at h
  next ok =>
    cases Option.some.inj h
    exact ⟨ok, rfl⟩
  next => simp at h

theorem canonicalUrl_withUrls (parts : SplitResult) : canonicalUrl (lib.withUrls accepts) parts =
    String.ofList (UrlText.rstripSlash (unsplitUrl (normalized lib (partsOf parts)))) := by
  have query : ((keptFields (lib.withUrls accepts) parts.query).insertionSort pairLe).map toChars =
      (params lib parts.query.toList).map toChars := rfl
  unfold canonicalUrl
  simp only [NewsNotifier.rstripSlash, UrlText.rstripSlash, List.rdropWhile]
  show String.ofList (((String.ofList (unsplitUrl (partsOf
    ⟨lib.lower parts.scheme, lib.lower parts.netloc, parts.path, String.ofList (urlencode
      (((keptFields (lib.withUrls accepts) parts.query).insertionSort pairLe).map toChars)),
        ""⟩))).toList.reverse.dropWhile
        (· == '/')).reverse) = _
  rw [query]
  simp only [normalized, lowerChars, partsOf, String.toList_ofList, String.ofList_toList, String.toList_empty]

theorem lowerChars_eq (cs : List Char) : lowerChars lib cs = (lib.letters.lower (String.ofList cs)).toList := rfl

-- unification would otherwise run the lower-casing
attribute [irreducible] lowerChars

/-- A letter that is no ASCII delimiter stays none when it is lower-cased. -/
theorem lowerChars_absent (laws : lib.letters.Lawful) {cs : List Char} {d : Char} (small : d.toNat < 128)
    (uncased : d.isAlpha = false) (h : d ∉ cs) : d ∉ lowerChars lib cs := by
  intro hd
  rw [lowerChars_eq] at hd
  have found := laws.lower_uncased hd small uncased
  rw [String.toList_ofList] at found
  exact h found

theorem lowerChars_idem (laws : lib.letters.Lawful) (cs : List Char) :
    lowerChars lib (lowerChars lib cs) = lowerChars lib cs := by
  simp only [lowerChars_eq, String.ofList_toList, laws.lower_idem]

theorem lowerChars_eq_nil (laws : lib.letters.Lawful) {cs : List Char} (h : lowerChars lib cs = []) : cs = [] := by
  rw [lowerChars_eq] at h
  have empty := laws.lower_eq_empty (String.toList_eq_nil_iff.mp h)
  simpa using empty

theorem lowerChars_scheme (laws : lib.letters.Lawful) (h : p.Absolute) : lowerChars lib p.scheme = p.scheme := by
  have ascii : ∀ c ∈ (String.ofList p.scheme).toList, c.toNat < 128 := by
    intro c hc
    rw [String.toList_ofList] at hc
    exact schemeChar_ascii (isScheme_chars h.scheme hc)
  rw [lowerChars_eq, laws.lower_ascii ascii, String.toList_ofList, String.toList_ofList, h.lower]

theorem normalized_absolute (laws : lib.letters.Lawful) (h : p.Absolute) : (normalized lib p).Absolute := by
  have absent : ∀ d : Char, d.toNat < 128 → d.isAlpha = false → d ∉ p.netloc → d ∉ lowerChars lib p.netloc :=
    fun d small uncased hd => lowerChars_absent laws small uncased hd
  have outside : ∀ d : Char, netlocChar d = false → d ∉ p.netloc := by
    intro d hd hc
    simp [h.netloc d hc] at hd
  have gone : ∀ d : Char, removed d = true → d ∉ p.netloc := by
    intro d hd hc
    simp [h.kept d (by simp [hc])] at hd
  have query : ∀ d ∈ ['&', '=', '/', '?', '#', '\t', '\r', '\n'], d ≠ '&' → d ≠ '=' →
      d ∉ urlencode ((params lib p.query).map toChars) := by
    intro d hd ne ne' hc
    rcases urlencode_chars hc with quoted | rfl | rfl
    · exact (quotedChar_bounds quoted).2 d hd rfl
    · exact ne' rfl
    · exact ne rfl
  refine ⟨?_, ?_, ?_, ?_, h.rooted, h.path, query '#' (by simp) (by decide) (by decide), ?_⟩
  · show isScheme (lowerChars lib p.scheme) = true
    rw [lowerChars_scheme laws h]
    exact h.scheme
  · show (lowerChars lib p.scheme).map Char.toLower = lowerChars lib p.scheme
    rw [lowerChars_scheme laws h]
    exact h.lower
  · intro empty
    exact h.authority (lowerChars_eq_nil laws empty)
  · intro c hc
    by_contra stop
    have stop : netlocChar c = false := by simpa using stop
    have small : c.toNat < 128 ∧ c.isAlpha = false := by
      simp only [netlocChar, Bool.and_eq_false_iff, bne_eq_false_iff_eq] at stop
      rcases stop with (rfl | rfl) | rfl <;> decide
    exact absent c small.1 small.2 (outside c stop) hc
  · intro c hc
    by_contra stop
    have stop : removed c = true := by simpa using stop
    have one : c = '\t' ∨ c = '\r' ∨ c = '\n' := by
      simpa [removed, or_assoc] using stop
    have small : c.toNat < 128 ∧ c.isAlpha = false := by
      rcases one with rfl | rfl | rfl <;> decide
    simp only [normalized, List.append_nil, List.mem_append] at hc
    rcases hc with (hc | hc) | hc
    · exact absent c small.1 small.2 (gone c stop) hc
    · simp [h.kept c (by simp [hc])] at stop
    · rcases one with rfl | rfl | rfl
      · exact query '\t' (by simp) (by decide) (by decide) hc
      · exact query '\r' (by simp) (by decide) (by decide) hc
      · exact query '\n' (by simp) (by decide) (by decide) hc

theorem normalized_query (p : Parts) : ∀ c ∈ (normalized lib p).query, c ≠ '/' := by
  intro c hc
  rcases urlencode_chars hc with quoted | rfl | rfl
  · exact (quotedChar_bounds quoted).2 '/' (by simp)
  · decide
  · decide

theorem IsHttpUrl.absolute (h : IsHttpUrl (lib.withUrls accepts) url parts) : (partsOf parts).Absolute := by
  obtain ⟨_, eq⟩ := urlsplit_withUrls h.split
  have scheme := h.scheme
  have host := h.host
  subst eq
  rw [partsOf_splitResult]
  refine splitUrl_absolute (fun empty => ?_) fun empty => host (by simp [splitResult, empty])
  simp [splitResult, empty] at scheme

/-- `normalize_url` joins the canonical parts, if the fields that it keeps can be encoded. -/
theorem IsHttpUrl.normalize (laws : lib.letters.Lawful) (h : IsHttpUrl (lib.withUrls accepts) url parts) :
    normalizeUrl (lib.withUrls accepts) url =
      if writableFields (lib.withUrls accepts) (keptFields (lib.withUrls accepts) parts.query) then
        .ok (String.ofList (unsplitUrl (canonical lib (partsOf parts))))
      else .error .unicodeEncodeError := by
  have absolute := normalized_absolute laws h.absolute
  rw [normalizeUrl, h.split]
  simp only [canonicalUrl_withUrls]
  rw [absolute.rstripSlash_unsplit rfl (normalized_query _)]
  rfl

theorem canonical_absolute (laws : lib.letters.Lawful) (h : p.Absolute) : (canonical lib p).Absolute :=
  (normalized_absolute laws h).trim

end Normal

end NewsNotifier

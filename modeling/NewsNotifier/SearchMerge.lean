import NewsNotifier.NewsRows

namespace NewsNotifier

/-- A date that cannot be parsed is none; an `OverflowError` is not caught. -/
def parsePublishedAt (lib : PyLib) : RawDate → Except PyError (Option Time)
  | .none => .ok none
  | .datetime d => .ok (some d.instant)
  | .str value =>
    match lib.parsedateToDatetime value with
    | .ok parsed => .ok (some parsed.instant)
    | .error .typeError | .error .valueError =>
      .ok ((lib.fromisoformat (value.replace "Z" "+00:00")).map Datetime.instant)
    | .error e => .error e
  | .other => .ok none

def trackingParams : List String :=
  ["utm_source", "utm_medium", "utm_campaign", "utm_term", "utm_content", "gclid", "fbclid", "ref"]

def pairLe (a b : String × String) : Prop := a.1 < b.1 ∨ a.1 = b.1 ∧ a.2 ≤ b.2

instance (a b : String × String) : Decidable (pairLe a b) :=
  inferInstanceAs (Decidable (a.1 < b.1 ∨ a.1 = b.1 ∧ a.2 ≤ b.2))

def rstripSlash (s : String) : String :=
  String.ofList (s.toList.reverse.dropWhile (· == '/')).reverse

/-- The query fields that are kept. -/
def keptFields (lib : PyLib) (query : String) : List (String × String) :=
  (lib.parseQsl query).filter fun kv => !trackingParams.contains (lib.lower kv.1)

/-- `urlencode` can encode each name and value. -/
def writableFields (lib : PyLib) (fields : List (String × String)) : Bool :=
  fields.all fun kv => lib.encodes kv.1 && lib.encodes kv.2

def canonicalUrl (lib : PyLib) (parts : SplitResult) : String :=
  let query := (keptFields lib parts.query).insertionSort pairLe
  let normalized : SplitResult :=
    { parts with
      scheme := lib.lower parts.scheme
      netloc := lib.lower parts.netloc
      query := lib.urlencode query
      fragment := "" }
  rstripSlash (lib.urlunsplit normalized)

def normalizeUrl (lib : PyLib) (url : String) : Except PyError String :=
  match lib.urlsplit url with
  | none => .error .valueError
  | some parts =>
    if writableFields lib (keptFields lib parts.query) then .ok (canonicalUrl lib parts)
    else .error .unicodeEncodeError

def urlHash (lib : PyLib) (url : String) : Except PyError String := do
  let normal ← normalizeUrl lib url
  if lib.encodes normal then .ok (lib.sha256 normal) else .error .unicodeEncodeError

/-- `urlsplit` accepts the URL, and what is encoded of it has no lone surrogate. -/
def hashable (lib : PyLib) (url : String) : Bool :=
  (lib.urlsplit url).any fun parts =>
    writableFields lib (keptFields lib parts.query) && lib.encodes (canonicalUrl lib parts)

theorem normalizeUrl_ok {lib : PyLib} {url normal : String} : normalizeUrl lib url = .ok normal ↔
    ∃ parts, lib.urlsplit url = some parts ∧ writableFields lib (keptFields lib parts.query) = true ∧
      normal = canonicalUrl lib parts := by
  unfold normalizeUrl
  cases lib.urlsplit url with
  | none => simp
  | some parts =>
    by_cases writable : writableFields lib (keptFields lib parts.query) = true
    · simp only [writable, if_true, Except.ok.injEq, Option.some.injEq]
      exact ⟨fun same => ⟨parts, rfl, writable, same.symm⟩, fun ⟨_, own, _, same⟩ => own ▸ same.symm⟩
    · simp [writable]

theorem urlHash_ok {lib : PyLib} {url : String} : (∃ h, urlHash lib url = .ok h) ↔ hashable lib url = true := by
  unfold urlHash hashable
  cases normalizes : normalizeUrl lib url with
  | error e =>
    refine ⟨fun ⟨_, hashed⟩ => (by cases hashed), fun can => ?_⟩
    obtain ⟨parts, split, both⟩ := (Option.any_eq_true _ _).mp can
    obtain ⟨writable, _⟩ := Bool.and_eq_true_iff.mp both
    rw [normalizeUrl_ok.mpr ⟨parts, split, writable, rfl⟩] at normalizes
    cases normalizes
  | ok normal =>
    obtain ⟨parts, split, writable, rfl⟩ := normalizeUrl_ok.mp normalizes
    rw [split, Option.any_some, writable, Bool.true_and]
    by_cases encodes : lib.encodes (canonicalUrl lib parts) = true
    · simp [encodes, bind, Except.bind]
    · simp [encodes, bind, Except.bind]

def removePrefix (s p : String) : String :=
  if p.toList.isPrefixOf s.toList then String.ofList (s.toList.drop p.toList.length) else s

def domainOf (lib : PyLib) (url : String) : Except PyError String :=
  match lib.urlsplit url with
  | none => .error .valueError
  | some parts => .ok (removePrefix parts.netloc "www.")

def mergeItem (lib : PyLib) (merged : List Candidate) (item : SearchItem) :
    Except PyError (List Candidate) :=
  match item.url with
  | none => .ok merged
  | some url =>
    if url = "" then .ok merged
    else do
      let h ← urlHash lib url
      if merged.any (·.canonicalUrlHash == h) then .ok merged
      else .ok (merged ++ [⟨url, item.title, item.sourceDomain, item.publishedAt, item.sourceName, h⟩])

/-- The merge loop of `search_all_sources`; a source that raised is `none`. -/
def mergeResults (lib : PyLib) (resultsLists : List (Option (List SearchItem))) :
    Except PyError (List Candidate) :=
  (resultsLists.flatMap (·.getD [])).foldlM (mergeItem lib) []

/-- The candidates that are dated from `bound` on, or have no date. -/
def datedFrom (lib : PyLib) (bound : Time) : List Candidate → Except PyError (List Candidate)
  | [] => .ok []
  | c :: candidates => do
    let publishedAt ← parsePublishedAt lib c.publishedAt
    let kept ← datedFrom lib bound candidates
    if publishedAt.all (bound ≤ ·) then .ok (c :: kept) else .ok kept

def filterByRecency (lib : PyLib) (candidates : List Candidate) (maxAgeDays : Int) (now : Time) :
    Except PyError (List Candidate) :=
  if maxAgeDays ≤ 0 then .ok candidates
  else datedFrom lib (now - maxAgeDays * (24 * 3600 * 1000000)) candidates

def filterOlderThanWatermark (lib : PyLib) (candidates : List Candidate)
    (watermark : Option Time) : Except PyError (List Candidate) :=
  match watermark with
  | none => .ok candidates
  | some watermark => datedFrom lib watermark candidates

/-- `rank_by_similarity` on the computed similarities. -/
def rankSims {β : Type} [LinearOrder β] (sims : List β) (candidates : List Candidate) (topK : Int)
    (minSimilarity : β) : List Candidate :=
  let ranked := ((sims.zip candidates).filter fun pair => minSimilarity ≤ pair.1).insertionSort
    fun a b => b.1 ≤ a.1
  (ranked.take topK.toNat).map (·.2)

/-- `rank_by_similarity`; numpy rounds `min_similarity` to the `float32` of the similarities it compares. -/
def rankBySimilarity (lib : PyLib) (queryVec : Embedding) (candidateVecs : List Embedding)
    (candidates : List Candidate) (topK : Int) (minSimilarity : Rat) : List Candidate :=
  if topK ≤ 0 ∨ candidates = [] then candidates
  else rankSims (candidateVecs.map (lib.cosine queryVec)) candidates topK (lib.toFloat32 minSimilarity)

theorem rankSims_subset {β : Type} [LinearOrder β] {sims : List β} {candidates : List Candidate}
    {topK : Int} {minSimilarity : β} {c : Candidate}
    (h : c ∈ rankSims sims candidates topK minSimilarity) : c ∈ candidates := by
  obtain ⟨pair, hp, rfl⟩ := List.mem_map.mp h
  have hs := (List.mem_insertionSort _).mp (List.mem_of_mem_take hp)
  exact (List.of_mem_zip (List.mem_filter.mp hs).1).2

theorem rankBySimilarity_subset {lib : PyLib} {queryVec : Embedding}
    {candidateVecs : List Embedding} {candidates : List Candidate} {topK : Int}
    {minSimilarity : Rat} {c : Candidate}
    (h : c ∈ rankBySimilarity lib queryVec candidateVecs candidates topK minSimilarity) :
    c ∈ candidates := by
  unfold rankBySimilarity at h
  split at h
  next => exact h
  next => exact rankSims_subset h

/-- No two candidates bear the same hash. -/
def UniqueHashes (candidates : List Candidate) : Prop := (candidates.map (·.canonicalUrlHash)).Nodup

theorem UniqueHashes.sublist {candidates candidates' : List Candidate} (h : UniqueHashes candidates)
    (sub : candidates'.Sublist candidates) : UniqueHashes candidates' := List.Nodup.sublist (sub.map _) h

theorem rankSims_unique {β : Type} [LinearOrder β] (sims : List β) {candidates : List Candidate}
    (topK : Int) (minSimilarity : β) (h : UniqueHashes candidates) :
    UniqueHashes (rankSims sims candidates topK minSimilarity) := by
  have kept : ∀ (sims : List β) (candidates : List Candidate),
      ((sims.zip candidates).map (·.2)).Sublist candidates := by
    intro sims
    induction sims with
    | nil => exact fun candidates => List.nil_sublist _
    | cons sim sims ih =>
      intro candidates
      cases candidates with
      | nil => exact .refl _
      | cons c candidates => exact (ih candidates).cons_cons c
  have filtered : UniqueHashes (((sims.zip candidates).filter fun pair => minSimilarity ≤ pair.1).map (·.2)) :=
    h.sublist ((List.filter_sublist.map _).trans (kept sims candidates))
  unfold rankSims
  refine UniqueHashes.sublist ?_ ((List.take_sublist _ _).map _)
  have perm := ((List.perm_insertionSort (fun a b : β × Candidate => b.1 ≤ a.1)
    ((sims.zip candidates).filter fun pair => minSimilarity ≤ pair.1)).map (·.2)).map (·.canonicalUrlHash)
  exact perm.nodup_iff.mpr filtered

theorem rankBySimilarity_unique (lib : PyLib) (queryVec : Embedding) (candidateVecs : List Embedding)
    {candidates : List Candidate} (topK : Int) (minSimilarity : Rat) (h : UniqueHashes candidates) :
    UniqueHashes (rankBySimilarity lib queryVec candidateVecs candidates topK minSimilarity) := by
  unfold rankBySimilarity
  split
  next => exact h
  next => exact rankSims_unique _ topK (lib.toFloat32 minSimilarity) h

/-- Every merged candidate bears the hash of its url, and no two bear the same. -/
structure Merged (lib : PyLib) (candidates : List Candidate) : Prop where
  hashed : ∀ c ∈ candidates, urlHash lib c.url = .ok c.canonicalUrlHash
  distinct : UniqueHashes candidates

theorem mergeItem_merged {lib : PyLib} {merged merged' : List Candidate} {item : SearchItem}
    (old : Merged lib merged) (h : mergeItem lib merged item = .ok merged') : Merged lib merged' := by
  unfold mergeItem at h
  split at h
  next => exact Except.ok.inj h ▸ old
  next url _ =>
    split at h
    next => exact Except.ok.inj h ▸ old
    next =>
      cases hashed : urlHash lib url with
      | error e => simp [hashed, bind, Except.bind] at h
      | ok k =>
        simp only [hashed, bind, Except.bind] at h
        split at h
        next => exact Except.ok.inj h ▸ old
        next new =>
          obtain rfl := Except.ok.inj h
          refine ⟨fun c hc => ?_, ?_⟩
          · rcases List.mem_append.mp hc with hc | hc
            · exact old.hashed c hc
            · obtain rfl := List.mem_singleton.mp hc
              exact hashed
          · unfold UniqueHashes
            rw [List.map_append]
            refine List.nodup_append.mpr ⟨old.distinct, by simp, ?_⟩
            rintro a ha b hb rfl
            obtain ⟨c, hc, e⟩ := List.mem_map.mp ha
            have same : c.canonicalUrlHash = k := e.trans (List.mem_singleton.mp hb)
            exact new (List.any_eq_true.mpr ⟨c, hc, by simpa using same⟩)

theorem mergeResults_merged {lib : PyLib} {results : List (Option (List SearchItem))}
    {candidates : List Candidate} (h : mergeResults lib results = .ok candidates) : Merged lib candidates := by
  have all : ∀ (items : List SearchItem) {merged : List Candidate}, Merged lib merged →
      items.foldlM (mergeItem lib) merged = .ok candidates → Merged lib candidates := by
    intro items
    induction items with
    | nil =>
      intro merged old h
      exact Except.ok.inj h ▸ old
    | cons item items ih =>
      intro merged old h
      rw [List.foldlM_cons] at h
      cases one : mergeItem lib merged item with
      | error e => simp [one, bind, Except.bind] at h
      | ok merged' =>
        simp only [one, bind, Except.bind] at h
        exact ih (mergeItem_merged old one) h
  exact all _ ⟨by simp, by simp [UniqueHashes]⟩ h

/-- The date that is read, if there is one and reading it raises nothing. -/
def readDate (lib : PyLib) (raw : RawDate) : Option Time := (parsePublishedAt lib raw).toOption.join

def isDatedFrom (lib : PyLib) (bound : Time) (c : Candidate) : Bool :=
  (parsePublishedAt lib c.publishedAt).toOption.any fun publishedAt => publishedAt.all (bound ≤ ·)

section Dates

variable {lib : PyLib} {bound : Time} {candidates kept : List Candidate}

/-- The filter ends when every date can be read, and then it keeps exactly the candidates from `bound` on. -/
theorem datedFrom_ok : datedFrom lib bound candidates = .ok kept ↔
    (∀ c ∈ candidates, ∃ publishedAt, parsePublishedAt lib c.publishedAt = .ok publishedAt) ∧
      kept = candidates.filter (isDatedFrom lib bound) := by
  induction candidates generalizing kept with
  | nil => simp [datedFrom, eq_comm]
  | cons c candidates ih =>
    have first : ∀ publishedAt, parsePublishedAt lib c.publishedAt = .ok publishedAt →
        isDatedFrom lib bound c = publishedAt.all (bound ≤ ·) := by
      intro publishedAt read
      rw [isDatedFrom, read]
      rfl
    rw [datedFrom, List.forall_mem_cons, List.filter_cons]
    cases read : parsePublishedAt lib c.publishedAt with
    | error e => simp [bind, Except.bind]
    | ok publishedAt =>
      rw [first publishedAt read]
      simp only [bind, Except.bind]
      cases rest : datedFrom lib bound candidates with
      | error e =>
        have failed : ∀ kept,
            ¬((∀ c ∈ candidates, ∃ publishedAt, parsePublishedAt lib c.publishedAt = .ok publishedAt) ∧
            kept = candidates.filter (isDatedFrom lib bound)) := by
          intro kept all
          have ended := ih.mpr all
          rw [rest] at ended
          cases ended
        refine ⟨fun impossible => (by cases impossible), fun both => ?_⟩
        exact absurd ⟨both.1.2, rfl⟩ (failed _)
      | ok others =>
        obtain ⟨reads, rfl⟩ := ih.mp rest
        have one : ∃ x, (Except.ok publishedAt : Except PyError (Option Time)) = .ok x := ⟨_, rfl⟩
        simp only [one, true_and]
        split
        · exact ⟨fun same => ⟨reads, (Except.ok.inj same).symm⟩, fun both => congrArg Except.ok both.2.symm⟩
        · exact ⟨fun same => ⟨reads, (Except.ok.inj same).symm⟩, fun both => congrArg Except.ok both.2.symm⟩

theorem datedFrom_sublist (h : datedFrom lib bound candidates = .ok kept) : kept.Sublist candidates := by
  obtain ⟨_, rfl⟩ := datedFrom_ok.mp h
  exact List.filter_sublist

theorem filterByRecency_sublist {maxAgeDays : Int} {now : Time}
    (h : filterByRecency lib candidates maxAgeDays now = .ok kept) : kept.Sublist candidates := by
  unfold filterByRecency at h
  split at h
  next => exact Except.ok.inj h ▸ .refl _
  next => exact datedFrom_sublist h

theorem filterOlderThanWatermark_sublist {watermark : Option Time}
    (h : filterOlderThanWatermark lib candidates watermark = .ok kept) : kept.Sublist candidates := by
  cases watermark with
  | none => exact Except.ok.inj h ▸ .refl _
  | some w => exact datedFrom_sublist h

/-- The filter's promise, for the search date alone. -/
theorem filterOlderThanWatermark_date {w t : Time} {c : Candidate}
    (h : filterOlderThanWatermark lib candidates (some w) = .ok kept) (hc : c ∈ kept)
    (date : readDate lib c.publishedAt = some t) : w ≤ t := by
  obtain ⟨_, rfl⟩ := datedFrom_ok.mp h
  have dated := (List.mem_filter.mp hc).2
  cases read : parsePublishedAt lib c.publishedAt with
  | error e => simp [readDate, read, Except.toOption] at date
  | ok publishedAt =>
    obtain rfl : publishedAt = some t := by simpa [readDate, read, Except.toOption] using date
    simpa [isDatedFrom, read, Except.toOption] using dated

end Dates

/-- The time tiers of `_ADAPTIVE_TIERS`, in microseconds: (`max_time_remaining`, `poll_step`). -/
def adaptiveTiers : List (Int × Int) :=
  [(24 * 3600 * 1000000, 3600 * 1000000),
   (7 * 24 * 3600 * 1000000, 6 * 3600 * 1000000),
   (30 * 24 * 3600 * 1000000, 24 * 3600 * 1000000)]

def pollStep (resolutionDate : Option Time) (now : Time) (defaultMinutes : Int) : Int :=
  match resolutionDate with
  | none => defaultMinutes * (60 * 1000000)
  | some resolutionDate =>
    let remaining := resolutionDate - now
    if remaining ≤ 0 then 3600 * 1000000
    else
      match adaptiveTiers.find? fun tier => remaining ≤ tier.1 with
      | some tier => tier.2
      | none => defaultMinutes * (60 * 1000000)

/-- `u` is the draw of `random.uniform(-jitter_fraction, jitter_fraction)`. -/
def nextPollAt (resolutionDate : Option Time) (now : Time) (defaultMinutes : Int)
    (jitterFraction u : Rat) : Time :=
  let step := pollStep resolutionDate now defaultMinutes
  if jitterFraction = 0 then now + step else now + roundHalfEven (step * (1 + u))

end NewsNotifier

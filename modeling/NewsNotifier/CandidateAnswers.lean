import NewsNotifier.MarketDedup

namespace NewsNotifier

open Interleaving

/-- What one execution of `process_candidate` is answered from outside, and by its two dedup reads. -/
structure CandidateAnswers where
  scraped : Except Unit (Option ScrapeResult)
  raw : Option Json
  embedding : Option Embedding
  stored : List (String × Option Int)
  nearest : Option (NewsItem × Option Rat)

namespace CandidateAnswers

variable (a : CandidateAnswers)

/-- The process `i` is answered so, and finds its market active. -/
def agrees (i j : JobId) (s : Stmt) (r : Answer s) (_ : List Write) (_ : Data) : Bool :=
  j ≠ i ||
    match s, r with
    | .getMarket _, r => r.any fun market => market.status = .active
    | .marketStatus _, r => r = some .active
    | .scrapeUrl _ _ _, r => r = a.scraped
    | .generateJson _ _, r => r = a.raw
    | .embedText _, r => r = a.embedding
    | .storedFingerprints _, r => r = a.stored
    | .nearestItem _ _, r => r = a.nearest
    | _, _ => true

def page : Option ScrapeResult :=
  match a.scraped with
  | .ok (some result) => if result.success then some result else none
  | _ => none

/-- The URL whose domain the execution takes. -/
def recordedUrl (c : Candidate) : Option ScrapeResult → String
  | none => c.url
  | some result => if result.success = false ∧ result.finalUrl = "" then c.url else result.finalUrl

/-- The extraction of the page, when it is relevant. -/
def relevant (lib : PyLib) : Option Extracted :=
  match a.page with
  | none => none
  | some page =>
    if pyStrip lib page.text = "" then none
    else
      match scoreAnswer lib page.text a.raw with
      | .ok extracted => if extracted.isRelevant then some extracted else none
      | .error _ => none

/-- What `embed_text` gives for the summary; a value it cannot slice fails inside the `try`. -/
def embedded (extracted : Extracted) : Option Embedding :=
  match extracted.get "summary" with
  | .str _ => a.embedding
  | .arr _ => a.embedding
  | _ => none

/-- The article is embedded, and no dedup layer drops it. -/
def isNew (lib : PyLib) (cfg : Settings) (extracted : Extracted) (title : String) : Bool :=
  (a.embedded extracted).isSome &&
    (a.page.all fun page => a.stored.all fun row => urlHash lib page.finalUrl ≠ .ok row.1) &&
    !dupTitle cfg (simhash lib title) a.stored && isSimilar cfg a.nearest = .ok false

/-- The row of an article can be made and stored: its scores are numbers, its date can be read, and its summary is a
string. -/
def insertable (lib : PyLib) (c : Candidate) (extracted : Extracted) (title : String) : Bool :=
  (extracted.get "credibility_signal").number.isSome && (extracted.get "relevance_score").number.isSome &&
    a.page.all fun page =>
      match domainOf lib page.finalUrl, itemDate lib c.publishedAt page.publishedAt,
        (extracted.get "summary").string with
      | .ok domain, .ok date, some summary =>
        storable lib domain (page.finalUrl :: title :: summary :: extracted.proofs) date
      | _, _, _ => false

/-- The title is a string, and a new article can be inserted. -/
def wellTyped (lib : PyLib) (cfg : Settings) (c : Candidate) (extracted : Extracted) : Bool :=
  match (extracted.get "title").string with
  | none => false
  | some title => !a.isNew lib cfg extracted title || a.insertable lib c extracted title

/-- The URL of a failed scrape splits, and its row can be stored. -/
def recordable (lib : PyLib) (c : Candidate) (result : Option ScrapeResult) : Bool :=
  match domainOf lib (recordedUrl c result) with
  | .error _ => false
  | .ok domain => storable lib domain (c.url :: (result.bind (·.error)).toList) none

/-- The scrape does not raise; a failed one can be recorded; the URL of a page can be hashed, and a relevant
extraction of it is well typed. -/
def digestible (lib : PyLib) (cfg : Settings) (c : Candidate) : Bool :=
  match a.scraped, a.page with
  | .error _, _ => false
  | .ok result, none => recordable lib c result
  | .ok _, some page => hashable lib page.finalUrl && (a.relevant lib).all (a.wellTyped lib cfg c)

end CandidateAnswers

/-- The slot is in the committed ledger of candidates. -/
def Recorded (slot : Uuid × String) (d : Data) : Prop := slot ∈ d.db.tables.candidates

/-- The slot is in what the session sees of it. -/
def Viewed (slot : Uuid × String) (l : List Write) (d : Data) : Prop :=
  slot ∈ (d.db.after l).tables.candidates

section Slots

variable {lib : PyLib} {i : JobId} {s : Stmt} {r : Answer s} {l l' : List Write} {d d' : Data}
  {slot : Uuid × String}

theorem exec_viewed (h : exec lib i s r l d = some (l', d')) (hv : Viewed slot l d) : Viewed slot l' d' := by
  have staged : ∀ w, Viewed slot (l ++ [w]) d := by
    intro w
    simp only [Viewed, after_candidates, List.filterMap_append, List.mem_append] at hv ⊢
    rcases hv with old | new
    · exact .inl old
    · exact .inr (.inl new)
  cases exec_outcome h with
  | staged w | drewStaged u w => exact staged w
  | drewBatch u row => exact staged _
  | _ => exact hv

theorem exec_recorded (h : exec lib i s r l d = some (l', d')) (hr : Recorded slot d) : Recorded slot d' := by
  have viewed : Viewed slot l d := by
    simp only [Viewed, after_candidates, List.mem_append]
    exact .inl hr
  cases exec_outcome h with
  | committed | marketInserted => exact viewed
  | _ => exact hr

/-- After its insert the slot is in view, whether the row went in or was there before. -/
theorem insertCandidate_viewed {row : NewsBatchCandidate} {inserted : Bool}
    (h : exec lib i (.insertCandidate row) inserted l d = some (l', d')) :
    Viewed (row.batchId, row.canonicalUrlHash) l' d' := by
  simp only [exec] at h
  split at h
  next seen =>
    split at h
    next => simp at h
    next =>
      obtain ⟨rfl, rfl⟩ := Prod.mk.inj (Option.some.inj h)
      obtain ⟨c, hc, same⟩ := List.any_eq_true.mp seen
      simp only [Bool.and_eq_true, decide_eq_true_eq] at same
      exact List.mem_map.mpr ⟨c, hc, by rw [same.1, same.2]⟩
  next =>
    split at h
    next =>
      obtain ⟨rfl, rfl⟩ := Prod.mk.inj (Option.some.inj h)
      simp [Viewed, Write.apply, Database.tables]
    next => simp at h

end Slots

/-- What an execution needs of the others: stored items stay embedded, and no slot is lost. -/
def slotTerms : Terms Data where
  inv d := ∀ o ∈ d.db.items, o.embedding.isSome = true
  rely d d' := ∀ slot, Recorded slot d → Recorded slot d'
  guar _ _ := True
  rely_refl _ _ h := h
  rely_trans h h' slot hs := h' slot (h slot hs)

/-- A program of process `i` in the runs that `allow` leaves. -/
abbrev Slots (lib : PyLib) (admits : Admits) (allow : Allows) (i : JobId) {α : Type} (p : Program α)
    (Q : α → List Write → Data → Prop) (F : Raised → Prop) (l : List Write) (d : Data) : Prop :=
  wp ((newsSys lib admits).restrict allow) slotTerms i p Q F l d

section Rules

variable {lib : PyLib} {admits : Admits} {allow : Allows} {i : JobId} {α : Type} {l : List Write}
  {d : Data} {Q : α → List Write → Data → Prop} {F : Raised → Prop} {slot : Uuid × String}

theorem Viewed.rely {d' : Data} (h : Viewed slot l d) (hr : slotTerms.rely d d') : Viewed slot l d' := by
  simp only [Viewed, after_candidates, List.mem_append] at h ⊢
  rcases h with old | new
  · exact .inl (hr slot old)
  · exact .inr new

theorem slots_stmt {s : Stmt} {next : Answer s → Program α}
    (h : ∀ r l' (d' d'' : Data), slotTerms.inv d' → allow i s r l d' = true →
      exec lib i s r l d' = some (l', d'') → Slots lib admits allow i (next r) Q F l' d'') :
    Slots lib admits allow i (.stmt s next) Q F l d := by
  intro d' _ hi r l' d'' hx
  obtain ⟨allowed, hx⟩ := Sys.exec_of_restrict hx
  exact ⟨True.intro, h r l' d' d'' hi allowed hx⟩

theorem slots_viewed {s : Stmt} {next : Answer s → Program α} (hv : Viewed slot l d)
    (h : ∀ r l' (d' : Data), Viewed slot l' d' → Slots lib admits allow i (next r) Q F l' d') :
    Slots lib admits allow i (.stmt s next) Q F l d := by
  intro d' hr _ r l' d'' hx
  exact ⟨True.intro, h r l' d'' (exec_viewed (Sys.exec_of_restrict hx).2 (hv.rely hr))⟩

/-- The commit makes the slot durable. -/
theorem slots_commit {next : Unit → Program α} (hv : Viewed slot l d)
    (h : ∀ d' : Data, Recorded slot d' → Slots lib admits allow i (next ()) Q F [] d') :
    Slots lib admits allow i (.stmt .commit next) Q F l d := by
  intro d' hr _ r l' d'' hx
  obtain ⟨rfl, rfl⟩ := Prod.mk.inj (Option.some.inj (Sys.exec_of_restrict hx).2)
  exact ⟨True.intro, h _ (hv.rely hr)⟩

theorem slots_keep_viewed {p : Program α} (hp : p.Each (fun _ => True) F) (hv : Viewed slot l d) :
    Slots lib admits allow i p (fun _ => Viewed slot) F l d :=
  wp_of_each hp (fun _ _ _ hr _ hk => hk.rely hr)
    (fun _ _ _ _ _ _ _ hk _ hx => ⟨True.intro, exec_viewed (Sys.exec_of_restrict hx).2 hk⟩) hv

theorem slots_keep_recorded {p : Program α} (hp : p.Each (fun _ => True) F) (hr : Recorded slot d) :
    Slots lib admits allow i p (fun _ _ => Recorded slot) F l d :=
  wp_of_each (K := fun _ => Recorded slot) hp (fun _ _ _ hr _ hk => hr slot hk)
    (fun _ _ _ _ _ _ _ hk _ hx => ⟨True.intro, exec_recorded (Sys.exec_of_restrict hx).2 hk⟩) hr

theorem slots_quiet {s : Stmt} {next : Answer s → Program α} (hq : s.quiet = true)
    (h : ∀ r (d' d'' : Data), slotTerms.inv d' → allow i s r l d' = true →
      exec lib i s r l d' = some (l, d'') → Slots lib admits allow i (next r) Q F l d'') :
    Slots lib admits allow i (.stmt s next) Q F l d := by
  refine slots_stmt fun r l' d' d'' hi allowed hx => ?_
  obtain rfl := (exec_quiet hq hx).1
  exact h r d' d'' hi allowed hx

end Rules

end NewsNotifier

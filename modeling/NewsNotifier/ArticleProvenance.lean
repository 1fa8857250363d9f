import NewsNotifier.PausedMarkets
import NewsNotifier.QuoteVerification
import NewsNotifier.SessionViews
import NewsNotifier.SourceReputation

namespace NewsNotifier

open Interleaving

/-- The columns of an item, as the candidate, its page, the answer of the model, the sources' rows and the vector of
its summary give them. -/
structure Columns (lib : PyLib) (c : Candidate) (batchId : Option Uuid) (page : ScrapeResult) (extracted : Extracted)
    (rows : List Source) (vector : Embedding) (item : NewsItem) : Prop where
  batch : item.batchId = batchId
  url : item.url = page.finalUrl
  hash : urlHash lib page.finalUrl = .ok item.canonicalUrlHash
  domain : domainOf lib page.finalUrl = .ok item.sourceDomain
  title : extracted.get "title" = .str item.title
  fingerprint : item.titleSimhash = some (toSigned64 (simhash lib item.title))
  summary : extracted.get "summary" = .str item.summary
  proofs : item.proofs = extracted.proofs
  date : itemDate lib c.publishedAt page.publishedAt = .ok item.publishedAt
  credibility : ∃ signal, (extracted.get "credibility_signal").number = some signal ∧
    item.credibilityScore = credibilityOf item.sourceDomain rows signal
  relevance : ∃ score, (extracted.get "relevance_score").number = some score ∧ item.relevanceScore = clamp01 score
  impact : item.impactHint = impactHintOf (extracted.get "impact_hint")
  embedding : item.embedding = some vector

theorem ok_of_bind {ε α β : Type} {x : Except ε α} {f : α → Except ε β} {b : β} (h : (x >>= f) = .ok b) :
    ∃ a, x = .ok a ∧ f a = .ok b := by
  cases x with
  | error e => cases h
  | ok a => exact ⟨a, rfl, h⟩

section Program

variable {lib : PyLib} {cfg : Settings} {market : Market} {c : Candidate} {b : Option Uuid}
  {page : ScrapeResult}

/-- The statements that insert no item. -/
def Stmt.itemless : Stmt → Prop
  | .insertItem _ => False
  | .assign (.insertItem _) => False
  | _ => True

theorem Stmt.reading.itemless {m : Uuid} {s : Stmt} (h : s.reading m) : s.itemless := by
  cases s <;> first | exact True.intro | exact h.elim

theorem Stmt.batching.itemless {m : Uuid} {s : Stmt} (h : s.batching m) : s.itemless := by
  cases s <;> first | exact True.intro | exact h.elim

theorem keepProof_occurs {article : String} {proof : Json} {first next : List String}
    (round : keepProof lib (collapse lib article) first proof = .ok next)
    (known : ∀ quote ∈ first, quote ≠ "" ∧ Occurs lib quote article) :
    ∀ quote ∈ next, quote ≠ "" ∧ Occurs lib quote article := by
  obtain ⟨quote, _, round⟩ := ok_of_bind round
  split at round
  next kept =>
    obtain rfl := Except.ok.inj round
    intro q hq
    rcases List.mem_append.mp hq with hq | hq
    · exact known q hq
    · obtain rfl := List.mem_singleton.mp hq
      exact ⟨kept.1, pyContains_iff.mp kept.2⟩
  next =>
    obtain rfl := Except.ok.inj round
    exact known

theorem keepProofs_occur {article : String} (proofs : List Json) {first verified : List String}
    (h : proofs.foldlM (keepProof lib (collapse lib article)) first = .ok verified)
    (known : ∀ quote ∈ first, quote ≠ "" ∧ Occurs lib quote article) :
    ∀ quote ∈ verified, quote ≠ "" ∧ Occurs lib quote article := by
  induction proofs generalizing first with
  | nil =>
    obtain rfl := Except.ok.inj h
    exact known
  | cons proof proofs ih =>
    rw [List.foldlM_cons] at h
    obtain ⟨next, round, rest⟩ := ok_of_bind h
    exact ih rest (keepProof_occurs round known)

/-- Every proof of a relevant answer occurs in the page. -/
theorem scoreAnswer_quotes {text : String} {raw : Option Json} {extracted : Extracted}
    (h : scoreAnswer lib text raw = .ok extracted) (relevant : extracted.isRelevant ≠ false) :
    ∀ quote ∈ extracted.proofs, quote ≠ "" ∧ Occurs lib quote text := by
  obtain ⟨fields, _, h⟩ := ok_of_bind h
  dsimp only at h
  split at h
  next =>
    obtain ⟨proofs, _, h⟩ := ok_of_bind h
    obtain ⟨verified, kept, h⟩ := ok_of_bind h
    obtain rfl := Except.ok.inj h
    exact keepProofs_occur proofs kept (by simp)
  next irrelevant =>
    obtain rfl := Except.ok.inj h
    simp at irrelevant relevant
    exact absurd relevant (by simp [irrelevant])

/-- What the session has been told about the page of the candidate. -/
structure Told (lib : PyLib) (c : Candidate) (m : Uuid) (market : Market) (page : ScrapeResult) (domain : String)
    (extracted : Extracted) (h : List NewsSaid) : Prop where
  read : ⟨.getMarket m, some market⟩ ∈ h
  active : market.status = .active
  scraped : ∃ timeout concurrency, ⟨.scrapeUrl c.url timeout concurrency, .ok (some page)⟩ ∈ h
  success : page.success = true
  answered : ∃ raw, ⟨.generateJson "extraction" [market.description, domain, page.text], raw⟩ ∈ h ∧
    scoreAnswer lib page.text raw = .ok extracted
  relevant : extracted.isRelevant = true

/-- The rows of the sources that a domain may come from. -/
def Rated (domain : String) (rows : List Source) (h : List NewsSaid) : Prop :=
  ⟨.sourcesIn (domainCandidates domain), rows⟩ ∈ h ∨ domainCandidates domain = [] ∧ rows = []

/-- The vector of the summary. -/
def EmbeddedAs (summary : String) (vector : Embedding) (h : List NewsSaid) : Prop :=
  ⟨.embedText (.str (String.ofList (summary.toList.take 4000))), some vector⟩ ∈ h

/-- Its quotes are of the page, and its scores between 0 and 1. -/
structure Vouched (lib : PyLib) (page : ScrapeResult) (item : NewsItem) : Prop where
  quoted : ∀ quote ∈ item.proofs, quote ≠ "" ∧ Occurs lib quote page.text
  relevance : 0 ≤ item.relevanceScore ∧ item.relevanceScore ≤ 1
  credibility : 0 ≤ item.credibilityScore ∧ item.credibilityScore ≤ 1

/-- An item of the market is made from what the session has been told. -/
structure MadeFrom (lib : PyLib) (m : Uuid) (c : Candidate) (b : Option Uuid) (h : List NewsSaid) (item : NewsItem) :
    Prop where
  made : ∃ market page extracted rows vector, Told lib c m market page item.sourceDomain extracted h ∧
    item.marketId = market.id ∧ Rated item.sourceDomain rows h ∧ EmbeddedAs item.summary vector h ∧
    Columns lib c b page extracted rows vector item ∧ Vouched lib page item

/-- What may be inserted after what was said. -/
def Makes (lib : PyLib) (m : Uuid) (c : Candidate) (b : Option Uuid) (h : List NewsSaid) : Stmt → Prop
  | .insertItem row => MadeFrom lib m c b h row
  | .assign (.insertItem _) => False
  | _ => True

theorem Stmt.itemless.makes {s : Stmt} (hs : s.itemless) {m : Uuid} {h : List NewsSaid} : Makes lib m c b h s := by
  unfold Stmt.itemless at hs
  unfold Makes
  split at hs <;> simp_all

theorem Told.mono {m : Uuid} {domain : String} {extracted : Extracted} {h more : List NewsSaid}
    (told : Told lib c m market page domain extracted h) (sub : h ⊆ more) :
    Told lib c m market page domain extracted more := by
  obtain ⟨read, active, ⟨timeout, concurrency, scraped⟩, success, ⟨raw, answered, score⟩, relevant⟩ := told
  exact ⟨sub read, active, ⟨timeout, concurrency, sub scraped⟩, success, ⟨raw, sub answered, score⟩, relevant⟩

theorem MadeFrom.mono {m : Uuid} {h more : List NewsSaid} {o : NewsItem} (from_ : MadeFrom lib m c b h o)
    (sub : h ⊆ more) : MadeFrom lib m c b more o := by
  obtain ⟨market, page, extracted, rows, vector, told, own, rated, embedded, columns⟩ := from_.made
  exact ⟨market, page, extracted, rows, vector, told.mono sub, own, rated.imp_left fun said => sub said, sub embedded,
    columns⟩

theorem Told.vouched {m : Uuid} {domain : String} {extracted : Extracted} {h : List NewsSaid} {rows : List Source}
    {vector : Embedding} {item : NewsItem} (told : Told lib c m market page domain extracted h)
    (columns : Columns lib c b page extracted rows vector item) : Vouched lib page item := by
  obtain ⟨raw, _, score⟩ := told.answered
  refine ⟨?_, ?_, ?_⟩
  · rw [columns.proofs]
    exact scoreAnswer_quotes score (by simp [told.relevant])
  · obtain ⟨_, _, same⟩ := columns.relevance
    simp [same, clamp01]
  · obtain ⟨signal, _, same⟩ := columns.credibility
    rw [same, credibilityOf_eq]
    exact blend_bounds _ signal

section Rules

variable {α : Type} {m : Uuid} {known : List NewsSaid}

/-- A program that makes items of what it was told only. -/
abbrev Making (lib : PyLib) (m : Uuid) (c : Candidate) (b : Option Uuid) (known : List NewsSaid)
    (p : Program α) : Prop :=
  p.Knowing (Makes lib m c b) known

theorem making_stmt {s : Stmt} {next : Answer s → Program α} (plain : s.itemless)
    (rest : ∀ r, Making lib m c b (⟨s, r⟩ :: known) (next r)) : Making lib m c b known (.stmt s next) :=
  .stmt (fun _ _ => plain.makes) rest

theorem making_each {p : Program α} (each : p.Each Stmt.itemless fun _ => True) : Making lib m c b known p :=
  .of_each each fun _ _ hs => hs.makes

theorem making_resolve (m' : Uuid) (outcome : String) (item : Option Uuid) :
    Making lib m c b known (resolve m' c b outcome item) :=
  making_each (resolve_does (fun _ hs => Stmt.batching.itemless (m := m') hs) (fun _ _ _ _ => True.intro) outcome item)

end Rules

section Making

variable {m : Uuid} {known : List NewsSaid} {finalHash domain title : String} {extracted : Extracted}
  {vector : Embedding}

theorem sourceRows_making {α : Type} {k : List Source → Program α}
    (rest : ∀ rows more, known ⊆ more → Rated domain rows more → Making lib m c b more (k rows)) :
    Making lib m c b known ((sourceRows domain).bind k) := by
  unfold sourceRows
  split
  next bare => exact rest [] known (List.Subset.refl _) (.inr ⟨bare, rfl⟩)
  next =>
    exact making_stmt True.intro fun rows =>
      rest rows _ (List.subset_cons_self _ _) (.inl List.mem_cons_self)

theorem computeCredibility_making {signal : Json} {k : Rat → Program Unit}
    (rest : ∀ rows x more, known ⊆ more → Rated domain rows more → signal.number = some x →
      Making lib m c b more (k (credibilityOf domain rows x))) :
    Making lib m c b known ((computeCredibility domain signal).bind k) := by
  unfold computeCredibility
  rw [Prog.bind_eq, Prog.bind_assoc]
  refine sourceRows_making fun rows more sub rated => ?_
  split
  next => exact .raise _
  next x read => exact rest rows x more sub rated read

theorem storeItem_making (told : Told lib c m market page domain extracted known)
    (hash : urlHash lib page.finalUrl = .ok finalHash) (own : domainOf lib page.finalUrl = .ok domain)
    (titled : extracted.get "title" = .str title)
    (embedded : ∀ summary, extracted.get "summary" = .str summary → EmbeddedAs summary vector known) :
    Making lib m c b known (storeItem lib market.id c b page finalHash domain title extracted vector) := by
  refine computeCredibility_making fun rows signal more sub rated read => ?_
  split
  next => exact .raise _
  next relevance scored =>
    split
    next => exact .raise _
    next date dated =>
      split
      next summary summed =>
        split
        next =>
          refine .stmt (fun h all => ?_) fun row => ?_
          · have columns : Columns lib c b page extracted rows vector
                { id := 0, marketId := market.id, batchId := b, url := page.finalUrl, canonicalUrlHash := finalHash
                  titleSimhash := some (toSigned64 (simhash lib title)), title, summary
                  proofs := extracted.proofs, sourceDomain := domain, publishedAt := date, discoveredAt := 0
                  credibilityScore := credibilityOf domain rows signal, relevanceScore := clamp01 relevance
                  impactHint := impactHintOf (extracted.get "impact_hint"), embedding := some vector
                  delivered := false } :=
              ⟨rfl, rfl, hash, own, titled, rfl, summed, rfl, dated, ⟨signal, read, rfl⟩, ⟨relevance, scored, rfl⟩,
                rfl, rfl⟩
            exact MadeFrom.mono ⟨market, page, extracted, rows, vector, told.mono sub, rfl, rated,
              sub (embedded summary summed), columns, told.vouched columns⟩ all
          · cases row with
            | none => exact .raise _
            | some new => exact making_resolve market.id "stored" (some new.id)
        next => exact .raise _
      next => exact .raise _

theorem dedupAndStore_making (told : Told lib c m market page domain extracted known)
    (hash : urlHash lib page.finalUrl = .ok finalHash) (own : domainOf lib page.finalUrl = .ok domain)
    (titled : extracted.get "title" = .str title)
    (embedded : ∀ summary, extracted.get "summary" = .str summary → EmbeddedAs summary vector known) :
    Making lib m c b known (dedupAndStore lib cfg market.id c b page finalHash domain title extracted vector) := by
  refine making_stmt True.intro fun _ => making_stmt True.intro fun status => ?_
  simp only [Prog.ret_bind]
  split
  next => exact making_resolve _ _ _
  next =>
    refine making_stmt True.intro fun stored => ?_
    simp only [Prog.ret_bind]
    split
    next => exact making_resolve _ _ _
    next =>
      split
      next => exact making_resolve _ _ _
      next =>
        refine making_stmt True.intro fun row => ?_
        simp only [Prog.ret_bind]
        split
        next => exact .raise _
        next => exact making_resolve _ _ _
        next =>
          refine (storeItem_making told hash own titled embedded).mono ?_
          intro said mem
          simp [mem]

theorem embedSummary_making {α : Type} {summary : Json} {k : Option Embedding → Program α}
    (rest : ∀ answer more, known ⊆ more →
      (∀ vector text, answer = some vector → summary = .str text → EmbeddedAs text vector more) →
      Making lib m c b more (k answer)) : Making lib m c b known ((embedSummary summary).bind k) := by
  unfold embedSummary
  split
  next text =>
    refine making_stmt True.intro fun answer => rest answer _ (List.subset_cons_self _ _) ?_
    rintro vector text' rfl same
    obtain rfl := Json.str.inj same
    exact List.mem_cons_self
  next =>
    refine making_stmt True.intro fun answer => rest answer _ (List.subset_cons_self _ _) ?_
    intro _ _ _ same
    cases same
  next => exact rest none known (List.Subset.refl _) fun _ _ none => by cases none

/-- The answer of the model is asked for with the text of the page, unless that is blank. -/
theorem extractAndScore_making {α : Type} {k : Except PyError (Option Extracted) → Program α}
    (failed : ∀ e more, known ⊆ more → Making lib m c b more (k (.error e)))
    (blank : Making lib m c b known (k (.ok none)))
    (rest : ∀ raw found more, known ⊆ more →
      ⟨.generateJson "extraction" [market.description, domain, page.text], raw⟩ ∈ more →
      scoreAnswer lib page.text raw = .ok found → Making lib m c b more (k (.ok (some found)))) :
    Making lib m c b known ((extractAndScore lib market.description page.text domain).bind k) := by
  unfold extractAndScore
  split
  next => exact blank
  next =>
    refine making_stmt True.intro fun raw => ?_
    simp only [Prog.ret_bind, Prog.pure_eq]
    cases score : scoreAnswer lib page.text raw with
    | error e => exact failed e _ (List.subset_cons_self _ _)
    | ok found => exact rest raw found _ (List.subset_cons_self _ _) List.mem_cons_self score

theorem extractAndStore_making (cfg : Settings) (read : ⟨.getMarket m, some market⟩ ∈ known)
    (active : market.status = .active)
    (scraped : ∃ timeout concurrency, ⟨.scrapeUrl c.url timeout concurrency, .ok (some page)⟩ ∈ known)
    (success : page.success = true) : Making lib m c b known (extractAndStore lib cfg market c b page) := by
  unfold extractAndStore
  split
  next => exact .raise _
  next => exact .raise _
  next finalHash domain hash own =>
    refine extractAndScore_making (fun _ _ _ => making_resolve _ _ _) (making_resolve _ _ _)
      fun raw extracted told sub answered score => ?_
    dsimp only
    split
    next => exact making_resolve _ _ _
    next relevant =>
      split
      next title titled =>
        refine embedSummary_making fun answer more later embedded => ?_
        cases answer with
        | none => exact making_resolve market.id "embed_error" none
        | some vector =>
          obtain ⟨timeout, concurrency, scraped⟩ := scraped
          have all := List.Subset.trans sub later
          exact dedupAndStore_making ⟨all read, active, ⟨timeout, concurrency, all scraped⟩, success,
            ⟨raw, later answered, score⟩, by simpa using relevant⟩ hash own titled
            fun summary summed => embedded vector summary rfl summed
      next => exact .raise _

end Making

theorem processCandidate_makes (cfg : Settings) (m : Uuid) :
    Making lib m c b [] (processCandidate lib cfg m c b) := by
  have failed : ∀ (market : Market) result, (scrapeFailed lib market c b result).Each Stmt.itemless fun _ => True :=
    fun market result =>
      scrapeFailed_does (fun _ => True.intro) (fun _ hs => Stmt.batching.itemless (m := market.id) hs)
      (fun _ _ _ _ => True.intro) (fun _ => True.intro) result
  refine making_stmt True.intro fun found => ?_
  simp only [Prog.ret_bind]
  split
  next => exact making_resolve _ _ _
  next market =>
    split
    next => exact making_resolve _ _ _
    next active =>
      refine making_stmt True.intro fun scraped => ?_
      simp only [Prog.ret_bind]
      split
      next => exact .raise _
      next => exact making_each (failed market none)
      next page =>
        split
        next => exact making_each (failed market (some page))
        next success =>
          exact extractAndStore_making cfg (by simp) (by simpa using active) ⟨_, _, List.mem_cons_self⟩
            (by simpa using success)

end Program

section Runs

variable {lib : PyLib} {admits : Admits} {cfg : Settings} {d₀ : Data} {i : JobId} {w w' : NewsWorld}
    {tr : List NewsEvent}

/-- Only a candidate job makes items. -/
theorem task_makes (task : Task) : (∃ m c b, task = .job (.processCandidate m c b) ∧
    Making lib m c b [] (taskProgram lib cfg task)) ∨ (taskProgram lib cfg task).Each Stmt.itemless fun _ => True := by
  have reads : ∀ m s, Stmt.reading m s → s.itemless := fun _ _ hs => hs.itemless
  have does : ∀ m s, Stmt.batching m s → s.itemless := fun _ _ hs => hs.itemless
  cases task with
  | job j =>
    cases j with
    | processMarket m =>
      exact .inr (processMarket_does m (fun _ => True.intro) reads does (fun _ => True.intro)
        (fun _ _ _ => True.intro) (fun _ _ _ => True.intro) (fun _ _ => True.intro) (fun _ _ _ => True.intro)
        (fun _ _ => True.intro) fun _ => True.intro)
    | processCandidate m c b => exact .inl ⟨m, c, b, rfl, processCandidate_makes cfg m⟩
    | deliverBatch logId =>
      have delivers : ∀ s, Stmt.delivering s → s.itemless := by
        intro s hs
        unfold Stmt.delivering at hs
        unfold Stmt.itemless
        split at hs <;> first | exact True.intro | exact hs.elim
      exact .inr (deliverBatch_does delivers (fun _ => True.intro) True.intro (fun _ _ _ => True.intro) logId)
  | _ =>
    refine .inr (taskProgram_does ⟨reads, True.intro, fun _ _ _ => True.intro, fun _ => True.intro, fun _ => True.intro⟩
      does (fun _ _ _ => True.intro) (fun _ _ => True.intro) (fun _ _ => True.intro) (fun _ _ _ _ _ _ => True.intro) ?_)
    intro j same
    cases same

/-- The columns of a stored item are those of the inserted row, the id, the time of discovery and `delivered` apart. -/
theorem Columns.stored {c : Candidate} {b : Option Uuid} {page : ScrapeResult} {extracted : Extracted}
    {rows : List Source} {vector : Embedding} {row o : NewsItem} {u : Uuid} {t : Time}
    (h : Columns lib c b page extracted rows vector row)
    (same : NewsItem.deliver { row with id := u, discoveredAt := t } = o.deliver) :
    Columns lib c b page extracted rows vector o := by
  obtain ⟨_, _, _, _, _, _, _, _, _, _, _, _, _, _, _, _, _⟩ := o
  simp only [NewsItem.deliver, NewsItem.mk.injEq] at same
  obtain ⟨-, rfl, rfl, rfl, rfl, rfl, rfl, rfl, rfl, rfl, rfl, -, rfl, rfl, rfl, rfl, -⟩ := same
  exact ⟨h.batch, h.url, h.hash, h.domain, h.title, h.fingerprint, h.summary, h.proofs, h.date, h.credibility,
    h.relevance, h.impact, h.embedding⟩

/-- A row that an execution stages is what its history makes. -/
theorem item_makes {task : Task} (run : Execution (newsSys lib admits) i (task, cfg) w tr w')
    {before after : List NewsEvent} {e : NewsEvent} (split : tr = before ++ e :: after) {row : NewsItem}
    (stages : e.stmt.Stages (.insertItem row)) :
    ∃ m c b, task = .job (.processCandidate m c b) ∧ Makes lib m c b (before.map Event.said) e.stmt := by
  rcases @task_makes lib cfg task with ⟨m, c, b, rfl, makes⟩ | each
  · have starts : ∀ p d', (newsSys lib admits).start i (.job (.processCandidate m c b), cfg) w.data = some (p, d') →
        p.Obeys (Monitor.history (fun _ _ _ => True) (Makes lib m c b)) (fun _ _ => True) (fun _ _ => True) [] := by
      intro p d' hs
      obtain ⟨_, _, _, rfl, _⟩ := newsSys_start hs
      exact makes [] (List.Subset.refl _)
    exact ⟨m, c, b, rfl, run.recorded starts (fun _ _ _ _ => True.intro) split⟩
  · have starts : ∀ p d', (newsSys lib admits).start i (task, cfg) w.data = some (p, d') →
        p.Along (fun _ _ => True) Stmt.itemless := by
      intro p d' hs
      obtain ⟨_, _, _, rfl, _⟩ := newsSys_start hs
      exact each.along
    have none : e.stmt.itemless :=
      run.along starts (fun _ _ => True.intro) (split ▸ List.mem_append_right _ List.mem_cons_self)
    obtain ⟨s, r, l, d⟩ := e
    rcases stages with writes | ⟨_, _, other, _⟩
    · cases writes <;> exact none.elim
    · cases other

/-- What an execution said before it staged a row tells what the stored item is made from. -/
theorem Makes.stored {m : Uuid} {c : Candidate} {b : Option Uuid} {said : List NewsSaid} {s : Stmt}
    (h : Makes lib m c b said s) {row o : NewsItem} (stages : s.Stages (.insertItem row))
    (same : row.deliver = o.deliver) : MadeFrom lib m c b said o := by
  rcases stages with writes | ⟨_, _, other, _⟩
  · cases writes with
    | item row u t =>
      obtain ⟨market, page, extracted, rows, vector, told, own, rated, embedded, columns, _⟩ := h.made
      have stored := columns.stored same
      have domain : o.sourceDomain = row.sourceDomain := (congrArg NewsItem.sourceDomain same).symm
      have summary : o.summary = row.summary := (congrArg NewsItem.summary same).symm
      have mine : o.marketId = row.marketId := (congrArg NewsItem.marketId same).symm
      rw [← domain] at told rated
      rw [← summary] at embedded
      exact ⟨market, page, extracted, rows, vector, told, mine.trans own, rated, embedded, stored, told.vouched stored⟩
    | assigned => exact h.elim
  · cases other

/-- The market that an execution read is the one it is a job of. -/
theorem MadeFrom.own {task : Task} (run : Execution (newsSys lib admits) i (task, cfg) w tr w')
    {before after : List NewsEvent} {e : NewsEvent} (split : tr = before ++ e :: after) {m : Uuid}
    {c : Candidate} {b : Option Uuid} {o : NewsItem} (h : MadeFrom lib m c b (before.map Event.said) o) :
    o.marketId = m := by
  obtain ⟨market, _, _, _, _, told, own, _⟩ := h.made
  obtain ⟨_, _, l, d, l', d', _, hx⟩ := run.said_event split told.read
  have hx : exec lib i (.getMarket m) (some market) l d = some (l', d') := hx
  exact own.trans (read_market hx)

/-- A candidate job of the item's market told all that the item is made from. -/
def StoredFrom (lib : PyLib) (admits : Admits) (d₀ : Data) (w : NewsWorld) (o : NewsItem) : Prop :=
  ∃ i c b cfg v tr v', Reachable (newsSys lib admits) d₀ v ∧
    Execution (newsSys lib admits) i (.job (.processCandidate o.marketId c b), cfg) v tr v' ∧
    Steps (newsSys lib admits) v' w ∧ MadeFrom lib o.marketId c b (tr.map Event.said) o

/-- Every stored item of a run is made by one of its candidate jobs, from what that job was told. -/
theorem stored_from (lib : PyLib) (admits : Admits) (h₀ : d₀.Initial) (reach : Reachable (newsSys lib admits) d₀ w) :
    ∀ o ∈ w.data.db.items, StoredFrom lib admits d₀ w o := by
  intro o mem
  have last : o.deliver ∈ w.data.db.tables.items := List.mem_map_of_mem mem
  have absent : o.deliver ∉ d₀.db.tables.items := by simp [Database.tables, h₀.items]
  obtain ⟨i, ⟨task, cfg⟩, v, tr, v', p, before, e, after, x, first, run, rest, _, rfl, stages, added⟩ :=
    items_accrue.origin (fun _ => rfl) reach absent last
  cases x with
  | insertItem row =>
    obtain ⟨m, c, b, rfl, makes⟩ := item_makes run rfl stages
    have made := makes.stored stages (Option.some.inj added)
    obtain rfl := made.own run rfl
    refine ⟨i, c, b, cfg, v, _, v', first, run, rest, made.mono ?_⟩
    rw [List.map_append]
    exact List.subset_append_left _ _
  | _ => cases added

theorem stored_from_sample : ∃ w : NewsWorld, ∃ o ∈ w.data.db.items, StoredFrom sampleLib plainTask sampleData w o := by
  have run : ((newsSys sampleLib plainTask).run sampleWorld halfStored).map
      (fun w => !w.data.db.items.isEmpty) = some true := by
    decide +kernel
  obtain ⟨w, reach, hp⟩ := Sys.run_reaches run
  obtain ⟨o, ho⟩ := List.exists_mem_of_ne_nil _ (by simpa using hp)
  exact ⟨w, o, ho, stored_from sampleLib plainTask sampleData_initial reach o ho⟩

end Runs

end NewsNotifier

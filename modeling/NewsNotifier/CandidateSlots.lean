import NewsNotifier.CandidateAnswers

namespace NewsNotifier

open Interleaving

section Programs

variable {lib : PyLib} {admits : Admits} {allow : Allows} {i : JobId} {l : List Write} {d : Data}
  {F : Raised → Prop} {m b : Uuid} {c : Candidate} {outcome : String} {item : Option Uuid}

/-- Every outcome that is recorded ends with the slot in the committed ledger. -/
theorem resolve_slots : Slots lib admits allow i (resolve m c (some b) outcome item)
    (fun _ _ => Recorded (b, c.canonicalUrlHash)) F l d := by
  have sends : ∀ logId {l : List Write} {d : Data}, Recorded (b, c.canonicalUrlHash) d →
      Slots lib admits allow i (enqueueDelivery logId) (fun _ _ => Recorded (b, c.canonicalUrlHash)) F l d :=
    fun logId => slots_keep_recorded (enqueueDelivery_does (fun _ => True.intro) logId)
  refine wp_bind (wp_mono (Q := fun _ _ => Recorded (b, c.canonicalUrlHash)) ?_
    (fun logId _ _ _ hr _ => sends logId hr) fun _ h => h)
  refine slots_stmt fun _ l₁ _ d₁ _ _ _ => slots_stmt fun inserted l₂ _ d₂ _ _ hx => ?_
  have viewed : Viewed (b, c.canonicalUrlHash) l₂ d₂ := insertCandidate_viewed hx
  simp only [Prog.ret_bind]
  split
  next => exact slots_commit viewed fun d₃ hr => fun d' hr' _ => hr' _ hr
  next =>
    refine slots_viewed viewed fun row l₃ d₃ viewed₃ => ?_
    simp only [Prog.ret_bind]
    split
    next =>
      refine slots_commit viewed₃ fun d₄ hr => ?_
      cases item with
      | none => exact fun d' hr' _ => hr' _ hr
      | some id =>
        refine slots_keep_recorded ?_ hr
        exact (createSoloDelivery_does (fun _ _ => True.intro) id).bind fun _ =>
          ⟨True.intro, fun _ => True.intro⟩
    next => exact slots_commit viewed₃ fun d₄ hr => fun d' hr' _ => hr' _ hr
    next =>
      refine wp_bind (wp_mono (slots_keep_viewed (finalizeBatchDelivery_does (fun _ _ => True.intro) b)
        viewed₃) ?_ fun _ h => h)
      exact fun logId l₄ d₄ _ viewed₄ _ => slots_commit viewed₄ fun d₅ hr => fun d' hr' _ => hr' _ hr

theorem extractAndScore_slots {a : CandidateAnswers} {description text domain : String} :
    Slots lib admits (a.agrees i) i (extractAndScore lib description text domain) (fun extraction l' _ =>
      extraction = (if pyStrip lib text = "" then .ok none else (scoreAnswer lib text a.raw).map some) ∧
        l' = l) F l d := by
  unfold extractAndScore
  split
  next => exact fun _ _ _ => ⟨rfl, rfl⟩
  next =>
    refine slots_quiet rfl fun raw d₁ d₁' _ agreed _ => ?_
    obtain rfl : raw = a.raw := by simpa [CandidateAnswers.agrees] using agreed
    exact fun _ _ _ => ⟨rfl, rfl⟩

theorem embedSummary_slots {a : CandidateAnswers} {extracted : Extracted} :
    Slots lib admits (a.agrees i) i (embedSummary (extracted.get "summary")) (fun embedding l' _ =>
      embedding = a.embedded extracted ∧ l' = l) F l d := by
  have asks : ∀ {text : Json}, a.embedded extracted = a.embedding →
      Slots lib admits (a.agrees i) i (await (.embedText text)) (fun embedding l' _ =>
        embedding = a.embedded extracted ∧ l' = l) F l d := by
    intro text sliced
    refine slots_quiet rfl fun embedding d₁ d₁' _ agreed _ => ?_
    obtain rfl : embedding = a.embedding := by simpa [CandidateAnswers.agrees] using agreed
    exact fun _ _ _ => ⟨sliced.symm, rfl⟩
  unfold embedSummary
  split
  next s h => exact asks (by simp [CandidateAnswers.embedded, h])
  next xs h => exact asks (by simp [CandidateAnswers.embedded, h])
  next other_str other_arr =>
    refine fun _ _ _ => ⟨?_, rfl⟩
    unfold CandidateAnswers.embedded
    split
    next s h => exact absurd h (other_str s)
    next xs h => exact absurd h (other_arr xs)
    next => rfl

/-- The end of an execution: it returns with its slot recorded when its answers are digestible, and
raises when they are not. -/
abbrev Ends (lib : PyLib) (admits : Admits) (cfg : Settings) (a : CandidateAnswers) (c : Candidate)
    (b : Uuid) (i : JobId) (p : Program Unit) (l : List Write) (d : Data) : Prop :=
  Slots lib admits (a.agrees i) i p
    (fun _ _ d => a.digestible lib cfg c = true ∧ Recorded (b, c.canonicalUrlHash) d)
    (fun e => a.digestible lib cfg c = true → e = .integrityError "uq_news_market_url") l d

variable {cfg : Settings} {a : CandidateAnswers} {scraped : ScrapeResult} {extracted : Extracted}
  {title finalHash domain : String} {embedding : Embedding} {market : Market}

theorem resolve_ends (ok : a.digestible lib cfg c = true) :
    Ends lib admits cfg a c b i (resolve m c (some b) outcome item) l d :=
  wp_mono (resolve_slots (F := fun _ => False)) (fun _ _ _ _ hr => ⟨ok, hr⟩) fun _ h => h.elim

theorem raise_ends {e : Raised} (bad : a.digestible lib cfg c = false) :
    Ends lib admits cfg a c b i (.raise e) l d :=
  fun _ _ _ ok => by simp [bad] at ok

theorem storeItem_ends (page : a.page = some scraped) (host : domainOf lib scraped.finalUrl = .ok domain)
    (new : a.digestible lib cfg c = a.insertable lib c extracted title) :
    Ends lib admits cfg a c b i
      (storeItem lib m c (some b) scraped finalHash domain title extracted embedding) l d := by
  simp only [CandidateAnswers.insertable, page, Option.all_some, host] at new
  cases signal : (extracted.get "credibility_signal").number with
  | none =>
    have bad : a.digestible lib cfg c = false := by simp [new, signal]
    unfold storeItem computeCredibility sourceRows
    simp only [Prog.bind_eq, signal]
    split
    next => exact raise_ends bad
    next => exact slots_stmt fun _ _ _ _ _ _ _ => raise_ends bad
  | some s =>
    refine wp_bind (wp_mono (Q := fun _ _ _ => True) ?_ ?_ fun _ h => h)
    · unfold computeCredibility sourceRows
      simp only [Prog.bind_eq, signal]
      split
      next => exact fun _ _ _ => True.intro
      next => exact slots_stmt fun _ _ _ _ _ _ _ => fun _ _ _ => True.intro
    · intro credibility l₁ d₁ _ _ _
      split
      next relevance => exact raise_ends (by simp [new, relevance])
      next s' relevance =>
        split
        next e date => exact raise_ends (by simp [new, date])
        next publishedAt date =>
          split
          next summary h =>
            have stored : a.digestible lib cfg c =
                storable lib domain (scraped.finalUrl :: title :: summary :: extracted.proofs) publishedAt := by
              simp [new, signal, relevance, date, h, Json.string]
            split
            next fits =>
              refine slots_stmt fun row l₂ _ d₂ _ _ _ => ?_
              cases row with
              | none => exact fun _ _ _ _ => rfl
              | some row => exact resolve_ends (stored.trans fits)
            next refused => exact raise_ends (stored.trans (Bool.eq_false_of_not_eq_true refused))
          next other =>
            refine raise_ends ?_
            have : (extracted.get "summary").string = none := by
              unfold Json.string
              split
              next s h => exact absurd h (other s)
              next => rfl
            simp [new, this]

/-- A stored item has an embedding, so that the nearest one has a distance. -/
theorem nearestItem_distance {e : Embedding} {row : Option (NewsItem × Option Rat)} {l' : List Write}
    {d' : Data} (hx : exec lib i (.nearestItem m e) row [] d = some (l', d')) (hi : slotTerms.inv d)
    (err : PyError) : isSimilar cfg row ≠ .error err := by
  obtain ⟨ok, _, _⟩ := answered_eq hx
  match row with
  | none => simp [isSimilar]
  | some (item, some distance) => simp [isSimilar]
  | some (item, none) =>
    simp only [isNearest, Bool.and_eq_true, decide_eq_true_eq] at ok
    obtain ⟨⟨mem, distance⟩, _⟩ := ok
    have embedded := hi item (List.mem_of_mem_filter mem)
    obtain ⟨e', he⟩ := Option.isSome_iff_exists.mp embedded
    simp [he] at distance

theorem dedupAndStore_ends (page : a.page = some scraped) (hash : urlHash lib scraped.finalUrl = .ok finalHash)
    (host : domainOf lib scraped.finalUrl = .ok domain) (embedded : (a.embedded extracted).isSome = true)
    (scores : a.digestible lib cfg c = (!a.isNew lib cfg extracted title || a.insertable lib c extracted title)) :
    Ends lib admits cfg a c b i (dedupAndStore lib cfg m c (some b) scraped finalHash domain title extracted
      embedding) [] d := by
  have new : a.isNew lib cfg extracted title = (!a.stored.any (·.1 = finalHash) &&
      !dupTitle cfg (simhash lib title) a.stored && decide (isSimilar cfg a.nearest = .ok false)) := by
    have urls : (a.stored.all fun row => decide (urlHash lib scraped.finalUrl ≠ .ok row.1)) =
        !a.stored.any (·.1 = finalHash) := by
      simp [hash, List.not_any_eq_all_not, eq_comm]
    simp only [CandidateAnswers.isNew, embedded, page, Option.all_some, urls, Bool.true_and]
  have dup : a.isNew lib cfg extracted title = false → ∀ {outcome : String} {d : Data},
      Ends lib admits cfg a c b i (resolve m c (some b) outcome none) [] d :=
    fun h => resolve_ends (by simp [scores, h])
  refine slots_stmt fun _ l₁ d₁ d₁' _ _ hx => ?_
  obtain rfl : l₁ = [] := by
    cases exec_outcome hx with
    | staged w writes => cases writes
    | drewStaged u w fresh writes => cases writes
    | drewBatch u row w fresh writes => cases writes
    | _ => rfl
  refine slots_quiet rfl fun status d₂ d₂' _ agreed _ => ?_
  obtain rfl : status = some .active := by simpa [CandidateAnswers.agrees] using agreed
  simp only [Prog.ret_bind, ne_eq, not_true, if_false]
  refine slots_quiet rfl fun stored d₃ d₃' _ agreed _ => ?_
  obtain rfl : stored = a.stored := by simpa [CandidateAnswers.agrees] using agreed
  simp only [Prog.ret_bind]
  split
  next url => exact dup (by simp [new, url])
  next url =>
    split
    next close => exact dup (by simp [new, close])
    next close =>
      refine slots_quiet rfl fun row d₄ d₄' hi agreed hx => ?_
      obtain rfl : row = a.nearest := by simpa [CandidateAnswers.agrees] using agreed
      simp only [Prog.ret_bind]
      split
      next e similar => exact absurd similar (nearestItem_distance hx hi e)
      next similar => exact dup (by simp [new, similar])
      next similar =>
        refine storeItem_ends page host ?_
        rw [scores, new]
        simp [url, close, similar]

theorem extractAndStore_ends (answered : a.scraped = .ok (some scraped)) (success : scraped.success = true) :
    Ends lib admits cfg a c b i (extractAndStore lib cfg market c (some b) scraped) [] d := by
  have page : a.page = some scraped := by simp [CandidateAnswers.page, answered, success]
  unfold extractAndStore
  cases canHash : hashable lib scraped.finalUrl with
  | false =>
    have bad : a.digestible lib cfg c = false := by simp [CandidateAnswers.digestible, answered, page, canHash]
    cases hash : urlHash lib scraped.finalUrl with
    | error e => exact raise_ends bad
    | ok h => simp [urlHash_ok.mp ⟨h, hash⟩] at canHash
  | true =>
    obtain ⟨finalHash, hash⟩ := urlHash_ok.mpr canHash
    obtain ⟨parts, split_, _⟩ := (Option.any_eq_true _ _).mp canHash
    obtain ⟨domain, host⟩ : ∃ h, domainOf lib scraped.finalUrl = .ok h := by simp [domainOf, split_]
    have digests : a.digestible lib cfg c = (a.relevant lib).all (a.wellTyped lib cfg c) := by
      simp only [CandidateAnswers.digestible, answered, page, canHash, Bool.true_and]
    have drop : a.relevant lib = none → ∀ {outcome : String} {d : Data},
        Ends lib admits cfg a c b i (resolve market.id c (some b) outcome none) [] d :=
      fun h => resolve_ends (by simp [digests, h])
    simp only [hash, host]
    refine wp_bind (wp_mono extractAndScore_slots ?_ fun _ h => h)
    rintro extraction _ d₁ _ ⟨rfl, rfl⟩ _
    by_cases blank : pyStrip lib scraped.text = ""
    · simp only [blank, if_true]
      exact drop (by simp [CandidateAnswers.relevant, page, blank])
    · simp only [blank, if_false]
      cases score : scoreAnswer lib scraped.text a.raw with
      | error e =>
        simp only [Except.map]
        exact drop (by simp [CandidateAnswers.relevant, page, blank, score])
      | ok extracted =>
        simp only [Except.map]
        cases isRelevant : extracted.isRelevant with
        | false =>
          simp only [if_true]
          exact drop (by simp [CandidateAnswers.relevant, page, blank, score, isRelevant])
        | true =>
          have relevant : a.relevant lib = some extracted := by
            simp [CandidateAnswers.relevant, page, blank, score, isRelevant]
          rw [relevant, Option.all_some] at digests
          simp only [Bool.true_eq_false, if_false]
          split
          next title h =>
            simp only [CandidateAnswers.wellTyped, h, Json.string] at digests
            refine wp_bind (wp_mono embedSummary_slots ?_ fun _ h => h)
            rintro embedding _ d₂ _ ⟨rfl, rfl⟩ _
            split
            next missing =>
              exact resolve_ends (by simp [digests, CandidateAnswers.isNew, missing])
            next embedding found =>
              exact dedupAndStore_ends page hash host (by simp [found]) digests
          next other =>
            refine raise_ends ?_
            have untitled : (extracted.get "title").string = none := by
              unfold Json.string
              split
              next s h => exact absurd h (other s)
              next => rfl
            simp [digests, CandidateAnswers.wellTyped, untitled]

theorem failureDomain_url {result : Option ScrapeResult} (failed : ∀ r, result = some r → r.success = false) :
    failureDomain lib c result = domainOf lib (CandidateAnswers.recordedUrl c result) := by
  cases result with
  | none => rfl
  | some r =>
    simp only [failureDomain, CandidateAnswers.recordedUrl, failed r rfl, true_and]
    split <;> rfl

theorem scrapeFailed_ends {result : Option ScrapeResult} (answered : a.scraped = .ok result)
    (failed : ∀ r, result = some r → r.success = false) :
    Ends lib admits cfg a c b i (scrapeFailed lib market c (some b) result) l d := by
  have unread : a.page = none := by
    cases result with
    | none => simp [CandidateAnswers.page, answered]
    | some r => simp [CandidateAnswers.page, answered, failed r rfl]
  have digests : a.digestible lib cfg c = CandidateAnswers.recordable lib c result := by
    simp only [CandidateAnswers.digestible, answered, unread]
  unfold scrapeFailed
  rw [failureDomain_url failed]
  rw [CandidateAnswers.recordable] at digests
  split
  next e host => exact raise_ends (by simp [digests, host])
  next domain host =>
    simp only [host] at digests
    dsimp only
    split
    next fits => exact slots_stmt fun _ _ _ _ _ _ _ => resolve_ends (digests.trans fits)
    next refused => exact raise_ends (digests.trans (Bool.eq_false_of_not_eq_true refused))

theorem processCandidate_ends :
    Ends lib admits cfg a c b i (processCandidate lib cfg m c (some b)) [] d := by
  refine slots_quiet rfl fun found d₁ d₁' _ agreed _ => ?_
  have active : (found.any fun market => decide (market.status = .active)) = true := by
    simpa [CandidateAnswers.agrees] using agreed
  obtain ⟨market, rfl, active⟩ := (Option.any_eq_true _ _).mp active
  simp only [Prog.ret_bind, of_decide_eq_true active, ne_eq, not_true, if_false]
  refine slots_quiet rfl fun scraped d₂ d₂' _ agreed _ => ?_
  obtain rfl : scraped = a.scraped := by simpa [CandidateAnswers.agrees] using agreed
  simp only [Prog.ret_bind]
  split
  next answered => exact raise_ends (by simp [CandidateAnswers.digestible, answered])
  next answered => exact scrapeFailed_ends answered (by simp)
  next result answered =>
    split
    next failed =>
      refine scrapeFailed_ends answered ?_
      rintro r ⟨rfl⟩
      exact failed
    next success => exact extractAndStore_ends answered (by simpa using success)

end Programs

end NewsNotifier

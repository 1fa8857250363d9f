import NewsNotifier.CandidateProgram
import NewsNotifier.BatchSpecs

namespace NewsNotifier

open Interleaving

/-- A new item that the three dedup layers let pass beside a stored one. -/
structure Passes (lib : PyLib) (cfg : Settings) (stored new : NewsItem) : Prop where
  url : stored.canonicalUrlHash ≠ new.canonicalUrlHash
  title : ∀ s, stored.titleSimhash = some s →
    cfg.simhashHammingThreshold < hammingDistance (simhash lib new.title) (fromSigned64 s)
  meaning : ∀ e e', stored.embedding = some e → new.embedding = some e' →
    1 - lib.cosineDistance e e' < cfg.vectorDedupThreshold

/-- An item as `process_candidate` builds it. -/
structure Made (lib : PyLib) (item : NewsItem) : Prop where
  title : item.titleSimhash = some (toSigned64 (simhash lib item.title))
  embedded : item.embedding.isSome = true

/-- The policy asks no more of the items than the dedup layers give under `cfg`. -/
structure Policy.Covers (P : Policy) (lib : PyLib) (cfg : Settings) : Prop where
  key : P.lockKey = marketLockKey
  made : ∀ o, Made lib o → P.made o
  novel : ∀ o o', Made lib o' → Passes lib cfg o o' → P.novel o o'

theorem title_passes {cfg : Settings} {titleHash : Nat} {stored : List (String × Option Int)}
    (h : dupTitle cfg titleHash stored = false) {hash : String} {s : Int}
    (mem : (hash, some s) ∈ stored) :
    cfg.simhashHammingThreshold < hammingDistance titleHash (fromSigned64 s) := by
  simp only [dupTitle, List.any_eq_false] at h
  simpa using h _ mem

/-- When the nearest row is not similar, no row is. -/
theorem nearest_passes {lib : PyLib} {cfg : Settings} {items : List NewsItem} {e : Embedding}
    {row : Option (NewsItem × Option Rat)} (nearest : isNearest lib items e row = true)
    (h : isSimilar cfg row = .ok false) {o : NewsItem} (mem : o ∈ items) {e' : Embedding}
    (he : o.embedding = some e') : 1 - lib.cosineDistance e' e < cfg.vectorDedupThreshold := by
  match row with
  | none =>
    simp only [isNearest, List.isEmpty_iff] at nearest
    simp [nearest] at mem
  | some (item, none) => simp [isSimilar] at h
  | some (item, some distance) =>
    simp only [isNearest, Bool.and_eq_true, List.all_eq_true] at nearest
    have le := nearest.2 o mem
    simp only [he, Option.map_some, nullsLastLe, decide_eq_true_eq] at le
    simp only [isSimilar, Except.ok.injEq, decide_eq_false_iff_not, not_le] at h
    linarith

section Programs

variable {lib : PyLib} {admits : Admits} {P : Policy} {i : JobId} {l : List Write} {d : Data}
  {m : Uuid} {candidate : Candidate} {batchId : Option Uuid} {item : Option NewsItem}

/-- A batch that a job is given belongs to its market. -/
def InMarket (d : Data) (m : Uuid) (batchId : Option Uuid) : Prop :=
  ∀ b, batchId = some b → d.ledger.tables.HasBatch b m

theorem InMarket.frame {d' : Data} (h : InMarket d m batchId) (hf : Frame P i d.ledger d'.ledger) :
    InMarket d' m batchId :=
  fun b hb => hf.tables.batch b m (h b hb)

theorem enqueueDelivery_meets (logId : Option Uuid) :
    Meets lib admits P i (enqueueDelivery logId) (fun _ l' _ => l' = l) l d :=
  wp_mono (meets_quiet_program (enqueueDelivery_does (fun _ => rfl) logId)) (fun _ _ _ _ h => h.1) fun _ h => h

theorem resolve_meets {outcome : String} {newsItemId : Option Uuid} (key : P.lockKey = marketLockKey)
    (effect : Effect l (·.addItem item)) (batch : InMarket d m batchId)
    (store : ∀ o ∈ item, o.marketId = m ∧ o.batchId = batchId ∧ Storable P d.ledger i o)
    (named : newsItemId = item.map (·.id)) :
    Meets lib admits P i (resolve m candidate batchId outcome newsItemId) (fun _ l _ => l = []) l d := by
  subst named
  cases batchId with
  | some b =>
    refine wp_bind (wp_mono (resolveBatchCandidate_meets key effect (batch b rfl) store fun _ => rfl) ?_
      fun _ h => h)
    rintro logId l' d₁ _ rfl _
    exact enqueueDelivery_meets logId
  | none =>
    cases item with
    | none =>
      refine meets_commit effect fun d₁ _ _ => ⟨?_, fun d₂ _ _ => meets_ret fun _ _ _ => rfl⟩
      rw [Tables.addItem_none]
      exact .nothing
    | some o =>
      obtain ⟨_, hb, stored⟩ := store o rfl
      refine wp_bind (wp_mono (createSoloDelivery_meets effect) ?_ fun _ h => h)
      rintro logId l' d₁ _ ⟨hf₁, log, effect₁, solo, apart⟩ _
      refine meets_commit effect₁ fun d₂ hf₂ _ => ⟨?_, fun d₃ _ _ => by
        simpa using enqueueDelivery_meets (some logId)⟩
      exact .alone o log (stored.frame (hf₁.trans hf₂)) hb (solo.frame hf₂) (apart _ stored.drew)

/-- The insert, with what the caller must know for it to pass `uq_news_market_url`. -/
theorem meets_insertItem {α : Type} {row : NewsItem} {next : Option Inserted → Program α}
    {Q : α → List Write → Data → Prop} (effect : Effect l id)
    (url : ∀ d' : Data, Frame P i d.ledger d'.ledger → ∀ o ∈ d'.ledger.tables.itemsOf row.marketId,
      o.canonicalUrlHash ≠ row.canonicalUrlHash)
    (h : ∀ (new : Inserted) (d' : Data), Frame P i d.ledger d'.ledger → d'.ledger.Drew i new.id →
      d'.ledger.tables.Unused new.id →
        Meets lib admits P i (next (some new)) Q
          (l ++ [.insertItem { row with id := new.id, discoveredAt := new.now }]) d') :
    Meets lib admits P i (.stmt (.insertItem row) next) Q l d := by
  intro d' hr hi r l' d'' hx
  change exec lib i (.insertItem row) r l d' = _ at hx
  have frame := frame_of_rely hr
  simp only [exec] at hx
  split at hx
  next clash =>
    obtain ⟨o, ho, same⟩ := List.any_eq_true.mp clash
    simp only [Bool.and_eq_true, decide_eq_true_eq] at same
    have view : (d'.db.after l).tables = d'.ledger.tables := effect d'.db
    have mem : o.deliver ∈ d'.ledger.tables.itemsOf row.marketId := by
      rw [← view, Database.tables_itemsOf]
      exact List.mem_map_of_mem (List.mem_filter.mpr ⟨ho, by simpa using same.1⟩)
    exact absurd same.2 (url d' frame o.deliver mem)
  next =>
    cases r with
    | none => simp at hx
    | some new =>
      dsimp only at hx
      split at hx
      next fresh =>
        obtain ⟨rfl, rfl⟩ := Prod.mk.inj (Option.some.inj hx)
        have free := fresh_of_isFresh fresh
        exact ⟨.draw new.id free, h new _ (frame.trans draw_frame) List.mem_cons_self (hi.unused free)⟩
      next => simp at hx

variable {cfg : Settings} {scraped : ScrapeResult} {finalHash domain title : String}
  {extracted : Extracted} {embedding : Embedding}

/-- What the reads of the critical section have shown about the stored items of the market. -/
structure Cleared (lib : PyLib) (cfg : Settings) (m : Uuid) (finalHash title : String)
    (embedding : Embedding) (x : Ledger) : Prop where
  url : ∀ o ∈ x.tables.itemsOf m, o.canonicalUrlHash ≠ finalHash
  title : ∀ o ∈ x.tables.itemsOf m, ∀ s, o.titleSimhash = some s →
    cfg.simhashHammingThreshold < hammingDistance (simhash lib title) (fromSigned64 s)
  meaning : ∀ o ∈ x.tables.itemsOf m, ∀ e, o.embedding = some e →
    1 - lib.cosineDistance e embedding < cfg.vectorDedupThreshold

theorem storeItem_meets (covers : P.Covers lib cfg) (batch : InMarket d m batchId)
    (locked : d.ledger.Holds i (P.lockKey m))
    (clear : Cleared lib cfg m finalHash title embedding d.ledger) :
    Meets lib admits P i (storeItem lib m candidate batchId scraped finalHash domain title extracted
      embedding) (fun _ l _ => l = []) [] d := by
  refine wp_bind (wp_mono (meets_quiet_program (computeCredibility_does (by simp [ledgerContract])
    (fun _ h => Stmt.reading.quiet (m := m) h) _ _)) ?_ fun _ h => h)
  rintro credibility _ d₁ _ ⟨rfl, hf₁⟩ _
  split
  next => exact meets_raise (by simp)
  next relevance _ =>
    split
    next => exact meets_raise (by simp)
    next =>
      split
      next summary _ =>
        have items : ∀ d' : Data, Frame P i d₁.ledger d'.ledger →
            d'.ledger.tables.itemsOf m = d.ledger.tables.itemsOf m :=
          fun d' hf => (hf₁.trans hf).tables.heldItems m locked
        split
        next =>
          refine meets_insertItem .nil (fun d' hf => ?_) fun new d₂ hf₂ drew unused => ?_
          · rw [items d' hf]
            exact clear.url
          · change Meets lib admits P i (resolve m candidate batchId "stored" (some new.id)) _ _ _
            refine resolve_meets covers.key (Effect.nil.insertItem _) (batch.frame (hf₁.trans hf₂)) ?_ (by rfl)
            rintro o ho
            obtain rfl := Option.some.inj ho
            refine ⟨rfl, rfl, (hf₁.trans hf₂).holds _ locked, drew, unused, covers.made _ ⟨rfl, rfl⟩, ?_⟩
            intro o' ho' hm
            have mem : o' ∈ d.ledger.tables.itemsOf m := by
              rw [← items d₂ hf₂]
              exact List.mem_filter.mpr ⟨ho', decide_eq_true hm⟩
            refine covers.novel _ _ ⟨rfl, rfl⟩ ⟨clear.url o' mem, clear.title o' mem, ?_⟩
            intro e e' he he'
            obtain rfl := Option.some.inj he'
            exact clear.meaning o' mem e he
        next => exact meets_raise (by simp)
      next => exact meets_raise (by simp)

/-- The answers of the two reads, in the ledger's words. -/
theorem storedFingerprints_mem {r : List (String × Option Int)} {d' : Data} {l' : List Write}
    (hx : exec lib i (.storedFingerprints m) r [] d = some (l', d')) {o : NewsItem}
    (ho : o ∈ d.ledger.tables.itemsOf m) : (o.canonicalUrlHash, o.titleSimhash) ∈ r := by
  obtain ⟨ok, _, _⟩ := answered_eq hx
  change o ∈ d.db.tables.itemsOf m at ho
  rw [Database.tables_itemsOf] at ho
  obtain ⟨o', mem, rfl⟩ := List.mem_map.mp ho
  exact (List.isPerm_iff.mp ok).mem_iff.mpr (List.mem_map.mpr ⟨o', mem, rfl⟩)

theorem nearestItem_far {r : Option (NewsItem × Option Rat)} {d' : Data} {l' : List Write}
    (hx : exec lib i (.nearestItem m embedding) r [] d = some (l', d'))
    (h : isSimilar cfg r = .ok false) {o : NewsItem} (ho : o ∈ d.ledger.tables.itemsOf m)
    {e : Embedding} (he : o.embedding = some e) :
    1 - lib.cosineDistance e embedding < cfg.vectorDedupThreshold := by
  obtain ⟨ok, _, _⟩ := answered_eq hx
  change o ∈ d.db.tables.itemsOf m at ho
  rw [Database.tables_itemsOf] at ho
  obtain ⟨o', mem, rfl⟩ := List.mem_map.mp ho
  exact nearest_passes ok h mem he

/-- The critical section: everything between the lock and the commit sees one set of items. -/
theorem dedupAndStore_meets (covers : P.Covers lib cfg) (batch : InMarket d m batchId) :
    Meets lib admits P i (dedupAndStore lib cfg m candidate batchId scraped finalHash domain title
      extracted embedding) (fun _ l _ => l = []) [] d := by
  have drop : ∀ (outcome : String) (d' : Data), Frame P i d.ledger d'.ledger →
      Meets lib admits P i (resolve m candidate batchId outcome none) (fun _ l _ => l = []) [] d' := by
    intro outcome d' hf
    exact resolve_meets covers.key .addNone (batch.frame hf) (by simp) rfl
  refine meets_lock fun d₁ hf₁ locked => ?_
  rw [← covers.key] at locked
  refine meets_quiet rfl fun status d₂ d₂' hf₂ _ _ same₂ => ?_
  simp only [Prog.ret_bind]
  have hf₂' : Frame P i d₁.ledger d₂'.ledger := same₂ ▸ hf₂
  split
  next => exact drop _ _ (hf₁.trans hf₂')
  next =>
    refine meets_quiet rfl fun stored d₃ d₃' hf₃ _ hx₃ same₃ => ?_
    simp only [Prog.ret_bind]
    have hf₃' : Frame P i d₂'.ledger d₃'.ledger := same₃ ▸ hf₃
    split
    next => exact drop _ _ (hf₁.trans (hf₂'.trans hf₃'))
    next url =>
      split
      next => exact drop _ _ (hf₁.trans (hf₂'.trans hf₃'))
      next dup =>
        refine meets_quiet rfl fun row d₄ d₄' hf₄ _ hx₄ same₄ => ?_
        simp only [Prog.ret_bind]
        have hf₄' : Frame P i d₃'.ledger d₄'.ledger := same₄ ▸ hf₄
        split
        next => exact meets_raise (by simp)
        next => exact drop _ _ (hf₁.trans (hf₂'.trans (hf₃'.trans hf₄')))
        next similar =>
          have locked₂ := hf₂'.holds _ locked
          have locked₃ := hf₃'.holds _ locked₂
          have items₃ : d₄'.ledger.tables.itemsOf m = d₃.ledger.tables.itemsOf m := by
            rw [hf₄'.tables.heldItems m locked₃, same₃]
          have items₄ : d₄'.ledger.tables.itemsOf m = d₄.ledger.tables.itemsOf m := by rw [same₄]
          refine storeItem_meets covers (batch.frame (hf₁.trans (hf₂'.trans (hf₃'.trans hf₄'))))
            (hf₄'.holds _ locked₃) ⟨?_, ?_, ?_⟩
          · intro o ho
            rw [items₃] at ho
            have mem := storedFingerprints_mem hx₃ ho
            simp only [List.any_eq_true, decide_eq_true_eq, not_exists, not_and] at url
            exact url _ mem
          · intro o ho s hs
            rw [items₃] at ho
            have mem := storedFingerprints_mem hx₃ ho
            rw [hs] at mem
            exact title_passes (by simpa using dup) mem
          · intro o ho e he
            rw [items₄] at ho
            exact nearestItem_far hx₄ similar ho he

theorem extractAndStore_meets {market : Market} (covers : P.Covers lib cfg)
    (batch : InMarket d market.id batchId) :
    Meets lib admits P i (extractAndStore lib cfg market candidate batchId scraped)
      (fun _ l _ => l = []) [] d := by
  have drop : ∀ (outcome : String) (d' : Data), Frame P i d.ledger d'.ledger →
      Meets lib admits P i (resolve market.id candidate batchId outcome none) (fun _ l _ => l = []) [] d' :=
    fun outcome d' hf => resolve_meets covers.key .addNone (batch.frame hf) (by simp) rfl
  have reads : ∀ s, Stmt.reading market.id s → s.quiet = true := fun _ => Stmt.reading.quiet
  unfold extractAndStore
  split
  next => exact meets_raise (by simp)
  next => exact meets_raise (by simp)
  next finalHash domain _ _ =>
    refine wp_bind (wp_mono (meets_quiet_program (extractAndScore_does reads _ _ _)) ?_ fun _ h => h)
    rintro extraction _ d₁ _ ⟨rfl, hf₁⟩ _
    split
    next => exact drop _ _ hf₁
    next => exact drop _ _ hf₁
    next extracted =>
      split
      next => exact drop _ _ hf₁
      next =>
        split
        next title _ =>
          refine wp_bind (wp_mono (meets_quiet_program (embedSummary_does reads _)) ?_ fun _ h => h)
          rintro embedding _ d₂ _ ⟨rfl, hf₂⟩ _
          split
          next => exact drop _ _ (hf₁.trans hf₂)
          next => exact dedupAndStore_meets covers (batch.frame (hf₁.trans hf₂))
        next => exact meets_raise (by simp)

theorem scrapeFailed_meets {market : Market} {result : Option ScrapeResult}
    (key : P.lockKey = marketLockKey) (batch : InMarket d market.id batchId) :
    Meets lib admits P i (scrapeFailed lib market candidate batchId result) (fun _ l _ => l = []) [] d := by
  unfold scrapeFailed
  split
  next => exact meets_raise (by simp)
  next domain _ =>
    dsimp only
    split
    next =>
      refine meets_assign fun d₁ hf₁ => ?_
      exact resolve_meets key (Effect.addNone.quiet rfl) (batch.frame hf₁) (by simp) rfl
    next => exact meets_raise (by simp)

theorem processCandidate_meets (covers : P.Covers lib cfg) (batch : InMarket d m batchId) :
    Meets lib admits P i (processCandidate lib cfg m candidate batchId) (fun _ l _ => l = []) [] d := by
  have drop : ∀ (outcome : String) (d' : Data), Frame P i d.ledger d'.ledger →
      Meets lib admits P i (resolve m candidate batchId outcome none) (fun _ l _ => l = []) [] d' :=
    fun outcome d' hf => resolve_meets covers.key .addNone (batch.frame hf) (by simp) rfl
  refine meets_quiet rfl fun market d₁ d₁' hf₁ _ hx₁ same₁ => ?_
  simp only [Prog.ret_bind]
  have hf₁' : Frame P i d.ledger d₁'.ledger := same₁ ▸ hf₁
  split
  next => exact drop _ _ hf₁'
  next market =>
    have id_eq : market.id = m := by
      obtain ⟨ok, _, _⟩ := answered_eq hx₁
      have found := (of_decide_eq_true ok).symm
      exact (KeyedRows.key_of_find found).2
    subst id_eq
    split
    next => exact drop _ _ hf₁'
    next =>
      refine meets_quiet rfl fun scraped d₂ d₂' hf₂ _ _ same₂ => ?_
      simp only [Prog.ret_bind]
      have hf₂' : Frame P i d.ledger d₂'.ledger := hf₁'.trans (same₂ ▸ hf₂)
      split
      next => exact meets_raise (by simp)
      next => exact scrapeFailed_meets covers.key (batch.frame hf₂')
      next result =>
        split
        next => exact scrapeFailed_meets covers.key (batch.frame hf₂')
        next => exact extractAndStore_meets covers (batch.frame hf₂')

end Programs

end NewsNotifier

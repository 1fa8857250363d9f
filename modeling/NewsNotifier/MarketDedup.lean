import NewsNotifier.LedgerGoverns
import NewsNotifier.NewsRuns
import Mathlib.Data.List.Pairwise

namespace NewsNotifier

open Interleaving

/-- All tasks run under the same dedup thresholds as `cfg`. -/
def sameThresholds (cfg : Settings) : Admits := fun _ _ cfg' _ =>
  cfg'.simhashHammingThreshold = cfg.simhashHammingThreshold &&
    cfg'.vectorDedupThreshold = cfg.vectorDedupThreshold

def dedupPolicy (lib : PyLib) (cfg : Settings) : Policy :=
  ⟨marketLockKey, Passes lib cfg, Made lib, False⟩

theorem dedupPolicy_governs (lib : PyLib) (cfg : Settings) :
    (ledgerContract (dedupPolicy lib cfg)).Governs (newsSys lib (sameThresholds cfg)) := by
  refine newsSys_governs fun i task cfg' d ok => ⟨⟨rfl, fun _ h => h, ?_⟩, False.elim⟩
  simp only [sameThresholds, Bool.and_eq_true, decide_eq_true_eq] at ok
  intro o o' _ h
  exact ⟨h.url, ok.1 ▸ h.title, ok.2 ▸ h.meaning⟩

/-- The cosine similarity of two stored items, as `find_similar` computes it. -/
def similarity (lib : PyLib) (a b : NewsItem) : Option Rat :=
  match a.embedding, b.embedding with
  | some e, some e' => some (1 - lib.cosineDistance e e')
  | _, _ => none

/-- Two items of one market that no dedup layer would confuse. The fingerprints are the unsigned
ones of the titles. -/
structure Distinct (lib : PyLib) (cfg : Settings) (a b : NewsItem) : Prop where
  url : a.canonicalUrlHash ≠ b.canonicalUrlHash
  title : cfg.simhashHammingThreshold < hammingDistance (simhash lib a.title) (simhash lib b.title)
  meaning : ∃ s, similarity lib a b = some s ∧ s < cfg.vectorDedupThreshold

theorem Passes.distinct {lib : PyLib} {cfg : Settings} {a b : NewsItem} (h : Passes lib cfg a b)
    (ha : Made lib a) (hb : Made lib b) : Distinct lib cfg a b where
  url := h.url
  title := by
    have far := h.title _ ha.title
    rw [fromSigned64_toSigned64 (simhash_lt lib a.title), hammingDistance_comm] at far
    exact far
  meaning := by
    obtain ⟨e, he⟩ := Option.isSome_iff_exists.mp ha.embedded
    obtain ⟨e', he'⟩ := Option.isSome_iff_exists.mp hb.embedded
    exact ⟨_, by simp [similarity, he, he'], h.meaning e e' he he'⟩

theorem Distinct.symm {lib : PyLib} {cfg : Settings}
    (symmetric : ∀ e e', lib.cosineDistance e e' = lib.cosineDistance e' e) {a b : NewsItem}
    (h : Distinct lib cfg a b) : Distinct lib cfg b a where
  url := h.url.symm
  title := by
    rw [hammingDistance_comm]
    exact h.title
  meaning := by
    obtain ⟨s, hs, less⟩ := h.meaning
    refine ⟨s, ?_, less⟩
    simp only [similarity] at hs ⊢
    split at hs
    next e e' he he' => simpa [he, he', symmetric e' e] using hs
    next => simp at hs

/-- Two databases that a market cannot tell apart: they differ in the items of other markets. -/
structure SameFor (m : Uuid) (db db' : Database) : Prop where
  markets : db.markets = db'.markets
  batches : db.batches = db'.batches
  candidates : db.candidates = db'.candidates
  logs : db.logs = db'.logs
  failures : db.failures = db'.failures
  sources : db.sources = db'.sources
  items : db.itemsOf m = db'.itemsOf m

namespace SameFor

variable {m : Uuid} {db db' : Database}

theorem apply (h : SameFor m db db') (w : Write) : SameFor m (w.apply db) (w.apply db') := by
  obtain ⟨markets, batches, candidates, logs, failures, sources, items⟩ := h
  have append : ∀ (xs ys : List NewsItem) (o : NewsItem),
      xs.filter (·.marketId = m) = ys.filter (·.marketId = m) →
        (xs ++ [o]).filter (·.marketId = m) = (ys ++ [o]).filter (·.marketId = m) := by
    intro xs ys o e
    rw [List.filter_append, List.filter_append, e]
  have deliver : ∀ (id : Uuid) (xs : List NewsItem),
      (KeyedRows.update NewsItem.id id NewsItem.deliver xs).filter (·.marketId = m) =
        KeyedRows.update NewsItem.id id NewsItem.deliver (xs.filter (·.marketId = m)) := by
    intro id xs
    simp only [KeyedRows.update, List.filter_map]
    congr 2
    funext o
    by_cases ho : o.id = id <;> simp [ho, NewsItem.deliver]
  cases w with
  | insertItem row =>
    exact ⟨markets, batches, candidates, logs, failures, sources, append _ _ row items⟩
  | setDelivered id =>
    refine ⟨markets, batches, candidates, logs, failures, sources, ?_⟩
    simp only [Write.apply, Database.itemsOf] at items ⊢
    rw [deliver, deliver, items]
  | _ =>
    constructor <;> simp only [Write.apply, markets, batches, candidates, logs, failures, sources]
    exact items

theorem after (h : SameFor m db db') (l : List Write) : SameFor m (db.after l) (db'.after l) := by
  induction l generalizing db db' with
  | nil => exact h
  | cons w l ih => exact ih (h.apply w)

end SameFor

/-- A statement that a job of market `m` may execute: it looks at the items of `m` only. -/
def Stmt.within (m : Uuid) : Stmt → Prop
  | .urlHashes m' => m' = m
  | .storedFingerprints m' => m' = m
  | .nearestItem m' _ => m' = m
  | .batchItems m' _ => m' = m
  | .insertItem row => row.marketId = m
  | .itemsIn _ => False
  | _ => True

theorem any_itemsOf (db : Database) (m : Uuid) (h : String) :
    (db.items.any fun o => o.marketId = m && o.canonicalUrlHash = h) =
      (db.itemsOf m).any (·.canonicalUrlHash = h) := by
  simp [Database.itemsOf, List.any_filter]

theorem ite_fst {c : Prop} [Decidable c] {l : List Write} {d d' : Data} :
    (if c then some (l, d) else none).map (·.1) = (if c then some (l, d') else none).map (·.1) := by
  split <;> rfl

theorem answered_fst {ok : Bool} {l : List Write} {d d' : Data} :
    (answered ok l d).map (·.1) = (answered ok l d').map (·.1) :=
  ite_fst

/-- The items of other markets change nothing about what such a statement may answer and stage. -/
theorem Stmt.within.same {lib : PyLib} {m : Uuid} {s : Stmt} (hs : s.within m) (i : JobId)
    (r : Answer s) (l : List Write) (d : Data) {db' : Database} (h : SameFor m d.db db') :
    (exec lib i s r l d).map (·.1) = (exec lib i s r l { d with db := db' }).map (·.1) := by
  have view := h.after l
  cases s with
  | urlHashes m' | storedFingerprints m' | nearestItem m' e | batchItems m' b =>
    obtain rfl : m' = m := hs
    simp only [exec, view.items]
    exact answered_fst
  | insertItem row =>
    obtain rfl : row.marketId = m := hs
    simp only [exec, any_itemsOf, view.items]
    split
    next => exact answered_fst
    next =>
      cases r with
      | none => rfl
      | some new => exact ite_fst
  | itemsIn ids => exact hs.elim
  | getMarket | marketByExternalId | marketStatus | sourcesIn | getLog | dueMarkets |
      stuckDeliveries | stuckBatches =>
    simp only [exec, Database.market, Database.isActive, view.markets, view.batches, view.logs,
      view.sources]
    exact answered_fst
  | utcnow | uniform | embedTexts | smembers => exact answered_fst
  | advisoryXactLock | uuid4 | insertLog | insertBatch => exact ite_fst
  | insertCandidate row =>
    simp only [exec, view.candidates]
    split <;> cases r <;> rfl
  | countResolved b =>
    simp only [exec, view.batches]
    split
    next => exact answered_fst
    next => exact ite_fst
  | closeOpen b =>
    simp only [exec, view.batches]
    split
    next => exact answered_fst
    next => exact ite_fst
  | insertMarket row =>
    simp only [exec, view.markets]
    split
    next => exact answered_fst
    next => cases r <;> rfl
  | enqueueJob id job deferUntil =>
    simp only [exec]
    split
    next => exact answered_fst
    next => exact ite_fst
  | commit | assign | encryptSecret | decryptSecret | generateJson | searchSources | embedText |
      scrapeUrl | sendWebhook | sendTelegram | sadd | expire | zadd | delete => rfl

theorem Stmt.reading.within {m : Uuid} {s : Stmt} (h : s.reading m) : s.within m := by
  cases s <;> first | exact True.intro | exact h | exact False.elim h

theorem Stmt.batching.within {m : Uuid} {s : Stmt} (h : s.batching m) : s.within m := by
  cases s <;> first | exact True.intro | exact h | exact False.elim h

/-- Dedup of a market: under fixed thresholds any two stored items of one market are distinct for
all three layers, no insert fails on `uq_news_market_url`, and what a critical section may read and
stage does not depend on the items of other markets. -/
theorem market_dedup (lib : PyLib) (cfg : Settings)
    (symmetric : ∀ e e', lib.cosineDistance e e' = lib.cosineDistance e' e) {d₀ : Data}
    (h₀ : d₀.Initial) {w : NewsWorld} (h : Reachable (newsSys lib (sameThresholds cfg)) d₀ w) :
    (∀ a ∈ w.data.db.items, ∀ b ∈ w.data.db.items, a.id ≠ b.id → a.marketId = b.marketId →
      Distinct lib cfg a b) ∧
    (∀ i l, w.proc i ≠ some (.raise (.integrityError "uq_news_market_url"), l)) ∧
    ∀ m candidate batchId scraped finalHash domain title extracted embedding,
      (dedupAndStore lib cfg m candidate batchId scraped finalHash domain title extracted
        embedding).Each (fun s => ∀ i r l d db', SameFor m d.db db' →
          (exec lib i s r l d).map (·.1) = (exec lib i s r l { d with db := db' }).map (·.1))
        fun _ => True := by
  have sound := (dedupPolicy_governs lib cfg).sound h₀.inv h
  refine ⟨?_, ?_, ?_⟩
  · have stored : Stored (dedupPolicy lib cfg) w.data.ledger.tables := sound.data.stored
    have pairwise : w.data.db.items.Pairwise fun a b => a.marketId = b.marketId → Distinct lib cfg a b := by
      refine (List.pairwise_map.mp stored.novel).imp_of_mem ?_
      intro a b ha hb passes same
      have da := (passes same).distinct (stored.made _ (List.mem_map_of_mem ha))
        (stored.made _ (List.mem_map_of_mem hb))
      exact ⟨da.url, da.title, da.meaning⟩
    have symm : Std.Symm fun a b : NewsItem => a.marketId = b.marketId → Distinct lib cfg a b :=
      ⟨fun a b h e => (h e.symm).symm symmetric⟩
    intro a ha b hb ne same
    exact pairwise.forall ha hb (fun e => ne (congrArg NewsItem.id e)) same
  · intro i l hp
    exact sound.fault hp rfl
  · intro m candidate batchId scraped finalHash domain title extracted embedding
    refine (dedupAndStore_does (P := Stmt.within m) (fun _ => True.intro) (fun _ h => h.within)
      (fun _ h => h.within) (fun _ _ _ _ => True.intro) (fun _ h _ => h.market) domain title extracted embedding).mono ?_
      fun _ h => h
    exact fun s hs i r l d db' h => hs.same i r l d h

/-- Two articles of one market, stored one after the other. -/
def twoItemsSample : List NewsMove :=
  [.start (.call 1) (.job (.processCandidate 1 (sampleCandidate "a") none), sampleSettings)] ++
  execs sampleLib (sampleOracle "t") (.call 1) 12 ++
  [.start (.call 2) (.job (.processCandidate 1 (sampleCandidate "b") none), sampleSettings)] ++
  execs sampleLib (sampleOracle "another longer title") (.call 2) 12

theorem market_dedup_sample : ∃ w : NewsWorld,
    w.data.db.items.map (fun o => (o.marketId, o.canonicalUrlHash)) = [(1, "a"), (1, "b")] ∧
    ∀ a ∈ w.data.db.items, ∀ b ∈ w.data.db.items, a.id ≠ b.id → a.marketId = b.marketId →
      Distinct sampleLib sampleSettings a b := by
  have run : ((newsSys sampleLib (sameThresholds sampleSettings)).run sampleWorld twoItemsSample).map
      (fun w => w.data.db.items.map (fun o => (o.marketId, o.canonicalUrlHash)) ==
        [(1, "a"), (1, "b")]) = some true := by
    decide +kernel
  obtain ⟨w, steps, hp⟩ := Sys.run_reaches run
  exact ⟨w, by simpa using hp,
    (market_dedup sampleLib sampleSettings (fun _ _ => rfl) sampleData_initial steps).1⟩

end NewsNotifier

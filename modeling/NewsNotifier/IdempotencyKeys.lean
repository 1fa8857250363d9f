import NewsNotifier.LedgerGoverns
import NewsNotifier.NewsRuns
import Mathlib.Data.List.Pairwise

namespace NewsNotifier

open Interleaving

/-- A resolution lists its own item only; nothing else is asked of the items. -/
def plainPolicy : Policy := ⟨marketLockKey, fun _ _ => True, fun _ => True, True⟩

theorem plainPolicy_governs (lib : PyLib) :
    (ledgerContract plainPolicy).Governs (newsSys lib plainTask) :=
  newsSys_governs fun _ _ _ _ ok =>
    ⟨⟨rfl, fun _ _ => True.intro, fun _ _ _ _ => True.intro⟩, fun _ => ok⟩

def Sent.payload : Sent → Option WebhookPayload
  | .webhook _ _ _ payload _ => some payload
  | .telegram _ _ _ _ _ => none

/-- The webhooks POSTed so far. -/
def Data.webhooks (d : Data) : List WebhookPayload := d.sent.filterMap Sent.payload

def WebhookPayload.newsIds (payload : WebhookPayload) : List Uuid := payload.news.map (·.newsId)

/-- What a webhook sends is what one log lists. -/
theorem webhook_log {d : Data} (h : d.ledger.Inv plainPolicy) {p : WebhookPayload}
    (hp : p ∈ d.webhooks) : ∃ log ∈ d.ledger.tables.logs,
      p.batchId = log.batchId ∧ p.newsIds = log.newsItemIds := by
  obtain ⟨s, hs, hpayload⟩ := List.mem_filterMap.mp hp
  have post : (p.batchId, p.newsIds) ∈ d.ledger.posts := by
    refine List.mem_filterMap.mpr ⟨s, hs, ?_⟩
    cases s with
    | webhook sender url secret payload answer =>
      obtain rfl := Option.some.inj hpayload
      rfl
    | telegram => simp [Sent.payload] at hpayload
  obtain ⟨log, hl, e⟩ := h.posts True.intro _ post
  exact ⟨log, hl, Prod.mk.inj e⟩

theorem Listing.disjoint {t : Tables} (h : Listing t) {log log' : LogHead} (hl : log ∈ t.logs)
    (hl' : log' ∈ t.logs) (ne : log ≠ log') : ∀ id ∈ log.newsItemIds, id ∉ log'.newsItemIds := by
  have pairwise := (List.nodup_flatMap.mp h.nodup).2
  have symm : Std.Symm (Function.onFun List.Disjoint fun log : LogHead => log.newsItemIds) :=
    ⟨fun _ _ d _ hid hid' => d hid' hid⟩
  exact fun id hid hid' => pairwise.forall hl hl' ne hid hid'

/-- Key soundness: the `Idempotency-Key` of a webhook determines its news, in order, two keys share
no news, and behind this no two logs share a key or an item. -/
theorem idempotency_key (lib : PyLib) {d₀ : Data} (h₀ : d₀.Initial) {w : NewsWorld}
    (h : Reachable (newsSys lib plainTask) d₀ w) :
    (∀ p ∈ w.data.webhooks, ∀ q ∈ w.data.webhooks, p.batchId = q.batchId → p.newsIds = q.newsIds) ∧
    (∀ p ∈ w.data.webhooks, ∀ q ∈ w.data.webhooks, p.batchId ≠ q.batchId →
      ∀ id ∈ p.newsIds, id ∉ q.newsIds) ∧
    (∀ log ∈ w.data.db.logs, ∀ log' ∈ w.data.db.logs, log.id ≠ log'.id →
      log.batchId ≠ log'.batchId ∧ ∀ id ∈ log.newsItemIds, id ∉ log'.newsItemIds) ∧
    ∀ log ∈ w.data.db.logs, log.newsItemIds.Nodup := by
  have inv : w.data.ledger.Inv plainPolicy := ((plainPolicy_governs lib).sound h₀.inv h).data
  have listing := inv.listing True.intro
  have keys : ∀ {log log' : LogHead}, log ∈ w.data.ledger.tables.logs →
      log' ∈ w.data.ledger.tables.logs → log.batchId = log'.batchId → log = log' :=
    fun hl hl' e => List.inj_on_of_nodup_map inv.rows.logKeys hl hl' e
  refine ⟨?_, ?_, ?_, ?_⟩
  · intro p hp q hq e
    obtain ⟨log, hl, key, ids⟩ := webhook_log inv hp
    obtain ⟨log', hl', key', ids'⟩ := webhook_log inv hq
    have same := keys hl hl' (by rw [← key, ← key', e])
    rw [ids, ids', same]
  · intro p hp q hq ne
    obtain ⟨log, hl, key, ids⟩ := webhook_log inv hp
    obtain ⟨log', hl', key', ids'⟩ := webhook_log inv hq
    rw [ids, ids']
    refine listing.disjoint hl hl' ?_
    rintro rfl
    exact ne (key.trans key'.symm)
  · intro log hl log' hl' ne
    have ne' : log.head ≠ log'.head := fun e => ne (congrArg LogHead.id e)
    have mem : log.head ∈ w.data.ledger.tables.logs := List.mem_map_of_mem hl
    have mem' : log'.head ∈ w.data.ledger.tables.logs := List.mem_map_of_mem hl'
    exact ⟨fun e => ne' (keys mem mem' e), listing.disjoint mem mem' ne'⟩
  · intro log hl
    exact (List.nodup_flatMap.mp listing.nodup).1 log.head (List.mem_map_of_mem hl)

/-- A batch of one article and an article without a batch, both delivered. -/
def twoKeysSample : List NewsMove :=
  [.start (.call 1) (.openBatch 1 1, sampleSettings)] ++
  execs sampleLib (sampleOracle "t") (.call 1) 2 ++
  [.start (.call 2) (.job (.processCandidate 1 (sampleCandidate "a") (some 2)), sampleSettings)] ++
  execs sampleLib (sampleOracle "t") (.call 2) 16 ++
  [.start (.call 3) (.job (.processCandidate 1 (sampleCandidate "b") none), sampleSettings)] ++
  execs sampleLib (sampleOracle "another longer title") (.call 3) 13 ++
  [.start (.deliverBatch 4) (.job (.deliverBatch 4), sampleSettings)] ++
  execs sampleLib (sampleOracle "t") (.deliverBatch 4) 7 ++
  [.start (.deliverBatch 7) (.job (.deliverBatch 7), sampleSettings)] ++
  execs sampleLib (sampleOracle "t") (.deliverBatch 7) 7

theorem idempotency_key_sample : ∃ w : NewsWorld,
    w.data.webhooks.map (fun p => (p.batchId, p.newsIds)) = [(2, [3]), (6, [5])] ∧
    ∀ p ∈ w.data.webhooks, ∀ q ∈ w.data.webhooks, p.batchId ≠ q.batchId →
      ∀ id ∈ p.newsIds, id ∉ q.newsIds := by
  have run : ((newsSys sampleLib plainTask).run sampleWorld twoKeysSample).map (fun w =>
      w.data.webhooks.map (fun p => (p.batchId, p.newsIds)) == [(2, [3]), (6, [5])]) = some true := by
    decide +kernel
  obtain ⟨w, steps, hp⟩ := Sys.run_reaches run
  exact ⟨w, by simpa using hp, (idempotency_key sampleLib sampleData_initial steps).2.1⟩

end NewsNotifier

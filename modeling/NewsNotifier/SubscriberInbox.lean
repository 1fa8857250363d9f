import NewsNotifier.DeliveredArticles
import NewsNotifier.FirstOccurrences
import NewsNotifier.ReferentialIntegrity

namespace NewsNotifier

open Interleaving FirstOccurrences

/-- The subscriber has answered a webhook with success. -/
def Sent.acknowledged : Sent → Prop
  | .webhook _ _ _ _ (.ok (code, error)) => sendFailed code error = false
  | _ => False

theorem acks_payload {log : DeliveryLog} {s : Sent} (acks : s.acksWebhook log = true) :
    s.acknowledged ∧ ∃ p, s.payload = some p ∧ p.batchId = log.batchId := by
  cases s with
  | telegram => simp [Sent.acksWebhook] at acks
  | webhook sender url secret payload answer =>
    cases answer with
    | error e => simp [Sent.acksWebhook] at acks
    | ok answer =>
      simp only [Sent.acksWebhook, Bool.and_eq_true, decide_eq_true_eq, Bool.not_eq_true'] at acks
      exact ⟨acks.2, payload, rfl, acks.1.2⟩

/-- Which POSTs have reached the subscriber, in any order and any number of times: every one that it has
acknowledged, and any others, whose answers were lost. -/
structure Arrived (sent arrived : List Sent) : Prop where
  posted : ∀ s ∈ arrived, s ∈ sent
  acked : ∀ s ∈ sent, s.acknowledged → s ∈ arrived

/-- What a subscriber has kept that takes no `Idempotency-Key` a second time. -/
def inbox (arrived : List Sent) : List WebhookPayload := firsts (·.batchId) (arrived.filterMap Sent.payload)

theorem inbox_prefix {arrived later : List Sent} (h : arrived <+: later) : inbox arrived <+: inbox later :=
  firsts_prefix (h.filterMap _)

section Runs

variable {lib : PyLib} {d₀ : Data} {w : NewsWorld} {arrived : List Sent}

theorem inbox_posted (posted : ∀ s ∈ arrived, s ∈ w.data.sent) : ∀ p ∈ inbox arrived, p ∈ w.data.webhooks := by
  intro p hp
  obtain ⟨s, hs, payload⟩ := List.mem_filterMap.mp ((firsts_sublist _).subset hp)
  exact List.mem_filterMap.mpr ⟨s, posted s hs, payload⟩

/-- The news of a log that has succeeded has reached the subscriber. -/
theorem success_arrived (h₀ : d₀.Initial) (reach : Reachable (newsSys lib plainTask) d₀ w)
    (arrives : Arrived w.data.sent arrived) {log : DeliveryLog} (hl : log ∈ w.data.db.logs)
    (done : log.status = .success) : ∃ p ∈ inbox arrived, p.batchId = log.batchId ∧ p.newsIds = log.newsItemIds := by
  obtain ⟨ledger, inv⟩ := ((unordered_governs lib).sound h₀.deliveryInv reach).data
  have own := inv.logs log hl
  obtain ⟨s, hs, acks⟩ := own.webhookAcked (own.success done)
  obtain ⟨acked, posted, sends, same⟩ := acks_payload acks
  have there : s ∈ arrived := arrives.acked s hs acked
  have mem : log.head ∈ w.data.ledger.tables.logs := List.mem_map_of_mem hl
  have kept : posted.batchId ∈ (inbox arrived).map (·.batchId) :=
    mem_keys.mpr (List.mem_map_of_mem (List.mem_filterMap.mpr ⟨s, there, sends⟩))
  obtain ⟨p, hp, batch⟩ := List.mem_map.mp kept
  obtain ⟨log', mem', key', ids⟩ := webhook_log ledger (inbox_posted arrives.posted p hp)
  obtain rfl : log' = log.head := List.inj_on_of_nodup_map ledger.rows.logKeys mem' mem
    (key'.symm.trans (batch.trans same))
  exact ⟨p, hp, key', ids⟩

/-- A subscriber that drops repeated keys gets each article exactly once: whatever POSTs and answers are lost,
doubled or reordered, what it has kept carries no article twice, each entry the articles of one log in the log's
order, and every article of a log that has succeeded; and what comes later changes none of it. -/
theorem exactly_once (lib : PyLib) (h₀ : d₀.Initial) (reach : Reachable (newsSys lib plainTask) d₀ w)
    (arrives : Arrived w.data.sent arrived) :
    ((inbox arrived).flatMap WebhookPayload.newsIds).Nodup ∧
    (∀ p ∈ inbox arrived, ∃ log ∈ w.data.db.logs, p.batchId = log.batchId ∧ p.newsIds = log.newsItemIds ∧
      ∀ id ∈ p.newsIds, ∃ o ∈ w.data.db.items, o.id = id) ∧
    (∀ log ∈ w.data.db.logs, log.status = .success →
      ∃ p ∈ inbox arrived, p.batchId = log.batchId ∧ p.newsIds = log.newsItemIds) ∧
    (∀ o ∈ w.data.db.items, o.delivered = true → o.id ∈ (inbox arrived).flatMap WebhookPayload.newsIds) ∧
    ∀ more, inbox arrived <+: inbox (arrived ++ more) := by
  obtain ⟨ledger, inv⟩ := ((unordered_governs lib).sound h₀.deliveryInv reach).data
  have listing := ledger.listing True.intro
  have posts : ∀ p ∈ arrived.filterMap Sent.payload, p ∈ w.data.webhooks := by
    intro p hp
    obtain ⟨s, hs, payload⟩ := List.mem_filterMap.mp hp
    exact List.mem_filterMap.mpr ⟨s, arrives.posted s hs, payload⟩
  refine ⟨flatMap_nodup (fun p hp => ?_) (fun p hp q hq ne => ?_), fun p hp => ?_,
    fun log hl done => ?_, fun o ho done => ?_,
    fun more => inbox_prefix (List.prefix_append _ _)⟩
  · obtain ⟨log, hl, _, ids⟩ := webhook_log ledger (posts p hp)
    exact ids ▸ (List.nodup_flatMap.mp listing.nodup).1 log hl
  · obtain ⟨log, hl, key, ids⟩ := webhook_log ledger (posts p hp)
    obtain ⟨log', hl', key', ids'⟩ := webhook_log ledger (posts q hq)
    rw [ids, ids']
    exact listing.disjoint hl hl' fun same => ne (key.trans (same ▸ key'.symm))
  · obtain ⟨head, mem, key, ids⟩ := webhook_log ledger (inbox_posted arrives.posted p hp)
    obtain ⟨log, hl, rfl⟩ := List.mem_map.mp mem
    exact ⟨log, hl, key, ids, fun id hid => (listed_stored h₀ reach mem).2 id (ids ▸ hid)⟩
  · exact success_arrived h₀ reach arrives hl done
  · obtain ⟨log, hl, success, listed⟩ := (inv.items o ho).mp done
    obtain ⟨p, hp, _, ids⟩ := success_arrived h₀ reach arrives hl success
    exact List.mem_flatMap.mpr ⟨p, hp, ids ▸ listed⟩

end Runs

/-- A webhook that is sent twice, since the worker is killed before it commits the first answer. -/
def postedTwice : List NewsMove :=
  storedAlone ++ [.start (.deliverBatch 4) (.job (.deliverBatch 4), sampleSettings)] ++
  execs sampleLib (sampleOracle "t") (.deliverBatch 4) 7 ++ [.stop (.deliverBatch 4)] ++
  [.start (.deliverBatch 4) (.job (.deliverBatch 4), sampleSettings)] ++
  execs sampleLib (sampleOracle "t") (.deliverBatch 4) 17

theorem exactly_once_sample : ∃ w : NewsWorld, w.data.sent.length = 2 ∧ (∃ o ∈ w.data.db.items, o.delivered = true) ∧
    (inbox w.data.sent).length = 1 ∧ ((inbox w.data.sent).flatMap WebhookPayload.newsIds).Nodup ∧
    ∀ o ∈ w.data.db.items, o.delivered = true → o.id ∈ (inbox w.data.sent).flatMap WebhookPayload.newsIds := by
  have run : ((newsSys sampleLib plainTask).run sampleWorld postedTwice).map (fun w => decide
      (w.data.sent.length = 2 ∧ (∃ o ∈ w.data.db.items, o.delivered = true) ∧
        (inbox w.data.sent).length = 1)) = some true := by
    decide +kernel
  obtain ⟨w, reach, seen⟩ := Sys.run_reaches run
  obtain ⟨two, some, one⟩ := of_decide_eq_true seen
  obtain ⟨once, _, _, delivered, _⟩ := exactly_once sampleLib sampleData_initial reach ⟨fun _ h => h, fun _ h _ => h⟩
  exact ⟨w, two, some, one, once, delivered⟩

end NewsNotifier

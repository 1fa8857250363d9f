import NewsNotifier.DeliveryProgram
import Mathlib.Data.Int.ConditionallyCompleteOrder

namespace NewsNotifier

open KeyedRows

/-- The committed rows that deliveries are about: logs, items, and the watermark of each market. -/
structure DeliveryRows where
  logs : List DeliveryLog
  items : List NewsItem
  marks : List (Uuid × WithBot Time)

/-- Those rows, the messages sent, and whether each live process has Telegram enabled. -/
structure Deliveries where
  rows : DeliveryRows
  sent : List Sent
  running : List (JobId × Bool)

namespace DeliveryRows

def setLog (r : DeliveryRows) (id : Uuid) (c : DeliveryLog → DeliveryLog) : DeliveryRows :=
  { r with logs := update DeliveryLog.id id c r.logs }

def deliver (r : DeliveryRows) (ids : List Uuid) : DeliveryRows :=
  { r with items := r.items.map fun o => if o.id ∈ ids then o.deliver else o }

def mark (r : DeliveryRows) (m : Uuid) (t : WithBot Time) : DeliveryRows :=
  { r with marks := update Prod.fst m (fun e => (e.1, if t = ⊥ then e.2 else t)) r.marks }

def watermark (r : DeliveryRows) (m : Uuid) : WithBot Time :=
  match r.marks.find? (·.1 = m) with
  | none => ⊥
  | some e => e.2

def grow (r : DeliveryRows) (logs : List DeliveryLog) (items : List NewsItem)
    (marks : List (Uuid × WithBot Time)) : DeliveryRows :=
  ⟨r.logs ++ logs, r.items ++ items, r.marks ++ marks⟩

/-- Primary keys, and what the ledger says of the listed items. -/
structure Keyed (r : DeliveryRows) : Prop where
  logs : (r.logs.map (·.id)).Nodup
  items : (r.items.map (·.id)).Nodup
  distinct : ∀ log ∈ r.logs, log.newsItemIds.Nodup
  listed : ∀ log ∈ r.logs, ∀ id ∈ log.newsItemIds, ∃ o ∈ r.items, o.id = id
  apart : ∀ log ∈ r.logs, ∀ log' ∈ r.logs, ∀ id ∈ log.newsItemIds, id ∈ log'.newsItemIds → log = log'

/-- The newest date of the items that the log lists. -/
structure Newest (r : DeliveryRows) (log : DeliveryLog) (t : WithBot Time) : Prop where
  attained : ∀ x : Time, t = x → ∃ o ∈ r.items, o.id ∈ log.newsItemIds ∧ o.publishedAt = some x
  bound : ∀ o ∈ r.items, o.id ∈ log.newsItemIds → ∀ x : Time, o.publishedAt = some x → (x : WithBot Time) ≤ t

end DeliveryRows

/-- A log as it is created. -/
structure DeliveryLog.Fresh (log : DeliveryLog) : Prop where
  status : log.status = .pending
  attempt : log.attempt = 0
  webhook : log.webhookDelivered = false
  telegram : log.telegramSentNewsItemIds = []
  deliveredAt : log.deliveredAt = none

namespace Sent

def sender : Sent → JobId
  | webhook sender _ _ _ _ => sender
  | telegram sender _ _ _ _ => sender

/-- The subscriber answered the log's webhook with a success. -/
def acksWebhook (log : DeliveryLog) : Sent → Bool
  | webhook sender _ _ payload (.ok (code, error)) =>
    sender = .deliverBatch log.id && payload.batchId = log.batchId && !sendFailed code error
  | _ => false

/-- Telegram answered the log's message about this item with a success. -/
def acksTelegram (log : DeliveryLog) (id : Uuid) : Sent → Bool
  | telegram sender _ _ news (.ok (code, error)) =>
    sender = .deliverBatch log.id && news.newsId = id && !sendFailed code error
  | _ => false

/-- The message is one that the log still owes. -/
def due (log : DeliveryLog) : Sent → Prop
  | webhook _ _ _ _ _ => log.webhookDelivered = false
  | telegram _ _ _ news _ => log.webhookDelivered = true ∧ news.newsId ∉ log.telegramSentNewsItemIds

end Sent

/-- What one committed attempt may record about its log. -/
structure Progress (x : Deliveries) (log log' : DeliveryLog) : Prop where
  head : log'.id = log.id ∧ log'.marketId = log.marketId ∧ log'.batchId = log.batchId ∧
    log'.newsItemIds = log.newsItemIds
  webhook : log'.webhookDelivered = log.webhookDelivered ∨
    log'.webhookDelivered = true ∧ ∃ s ∈ x.sent, s.acksWebhook log = true
  telegram : log'.telegramSentNewsItemIds = log.telegramSentNewsItemIds ∨
    ∃ id, log'.telegramSentNewsItemIds = log.telegramSentNewsItemIds ++ [id] ∧
      log'.telegramSentNewsItemIds <+: log.newsItemIds ∧ ∃ s ∈ x.sent, s.acksTelegram log id = true

/-- One step of a party on the deliveries. In an `ordered` run a success leaves the market's
watermark at the maximum of its old value and the delivered dates. -/
inductive Delivers (ordered : Prop) : Option JobId → Deliveries → Deliveries → Prop
  | stay (a : Option JobId) (x : Deliveries) : Delivers ordered a x x
  | began {i : JobId} {x : Deliveries} (telegram : Bool) :
      Delivers ordered (some i) x
        { x with running := (i, telegram) :: x.running.filter (·.1 ≠ i) }
  | ended {i : JobId} {x : Deliveries} :
      Delivers ordered (some i) x { x with running := x.running.filter (·.1 ≠ i) }
  | grew {i : JobId} {x : Deliveries} (logs : List DeliveryLog) (items : List NewsItem)
      (marks : List (Uuid × WithBot Time)) (fresh : ∀ log ∈ logs, log.Fresh)
      (undelivered : ∀ o ∈ items, o.delivered = false) (unmarked : ∀ e ∈ marks, e.2 = ⊥) :
      Delivers ordered (some i) x { x with rows := x.rows.grow logs items marks }
  | sent {x : Deliveries} (s : Sent) (log : DeliveryLog) (mem : log ∈ x.rows.logs)
      (sender : s.sender = .deliverBatch log.id) (status : log.status ≠ .success) (due : s.due log) :
      Delivers ordered (some (.deliverBatch log.id)) x { x with sent := x.sent ++ [s] }
  | attempted {x : Deliveries} (log : DeliveryLog) (c : DeliveryLog → DeliveryLog)
      (mem : log ∈ x.rows.logs) (status : log.status ≠ .success) (progress : Progress x log (c log))
      (status' : (c log).status ≠ .success) (deliveredAt : (c log).deliveredAt = log.deliveredAt) :
      Delivers ordered (some (.deliverBatch log.id)) x { x with rows := x.rows.setLog log.id c }
  | finished {x : Deliveries} (log : DeliveryLog) (c : DeliveryLog → DeliveryLog)
      (t newest : WithBot Time) (mem : log ∈ x.rows.logs) (status : log.status ≠ .success)
      (progress : Progress x log (c log)) (webhook : log.webhookDelivered = true)
      (execution : ∃ e ∈ x.running, e.1 = .deliverBatch log.id)
      (telegram : ∀ e ∈ x.running, e.1 = .deliverBatch log.id → e.2 = true →
        log.telegramSentNewsItemIds = log.newsItemIds)
      (status' : (c log).status = .success) (deliveredAt : (c log).deliveredAt.isSome = true)
      (market : ∃ e ∈ x.rows.marks, e.1 = log.marketId) (dates : x.rows.Newest log newest)
      (advance : ordered → (if t = ⊥ then x.rows.watermark log.marketId else t) =
        max (x.rows.watermark log.marketId) newest) (wrote : t = ⊥ ∨ t = newest) :
      Delivers ordered (some (.deliverBatch log.id)) x
        { x with rows := ((x.rows.setLog log.id c).deliver log.newsItemIds).mark log.marketId t }

/-- The invariant of one log, given the messages sent. -/
structure DeliveryLog.Inv (sent : List Sent) (log : DeliveryLog) : Prop where
  telegram : log.telegramSentNewsItemIds <+: log.newsItemIds
  webhookAcked : log.webhookDelivered = true → ∃ s ∈ sent, s.acksWebhook log = true
  telegramAcked : ∀ id ∈ log.telegramSentNewsItemIds, ∃ s ∈ sent, s.acksTelegram log id = true
  success : log.status = .success → log.webhookDelivered = true
  deliveredAt : log.status = .success ↔ log.deliveredAt.isSome = true

/-- The invariant of the deliveries: an item is delivered exactly when its log has succeeded. -/
structure Deliveries.Inv (x : Deliveries) : Prop where
  logs : ∀ log ∈ x.rows.logs, log.Inv x.sent
  items : ∀ o ∈ x.rows.items, o.delivered = true ↔
    ∃ log ∈ x.rows.logs, log.status = .success ∧ o.id ∈ log.newsItemIds

namespace DeliveryRows

variable {r : DeliveryRows} {log log' : DeliveryLog} {c : DeliveryLog → DeliveryLog}

theorem mem_setLog (unique : (r.logs.map (·.id)).Nodup) (mem : log ∈ r.logs) :
    log' ∈ (r.setLog log.id c).logs ↔ log' = c log ∨ log' ∈ r.logs ∧ log'.id ≠ log.id := by
  simp only [setLog, mem_update]
  constructor
  · rintro ⟨row, hr, e⟩
    by_cases same : row.id = log.id
    · obtain rfl : row = log := List.inj_on_of_nodup_map unique hr mem same
      exact .inl (by simpa using e)
    · rw [if_neg same] at e
      exact .inr (e ▸ ⟨hr, same⟩)
  · rintro (rfl | ⟨hl, ne⟩)
    · exact ⟨log, mem, by simp⟩
    · exact ⟨log', hl, by simp [ne]⟩

theorem watermark_grow {logs : List DeliveryLog} {items : List NewsItem}
    {marks : List (Uuid × WithBot Time)} (unmarked : ∀ e ∈ marks, e.2 = ⊥) (m : Uuid) :
    (r.grow logs items marks).watermark m = r.watermark m := by
  simp only [watermark, grow, List.find?_append]
  cases r.marks.find? (·.1 = m) with
  | some e => rfl
  | none =>
    simp only [Option.none_or]
    split
    next => rfl
    next e h => exact unmarked e (List.mem_of_find?_eq_some h)

theorem watermark_mark {m m' : Uuid} {t : WithBot Time} (market : m' = m → ∃ e ∈ r.marks, e.1 = m) :
    (r.mark m t).watermark m' =
      if m' = m then (if t = ⊥ then r.watermark m else t) else r.watermark m' := by
  have keys : ∀ e : Uuid × WithBot Time,
      (if e.1 = m then (e.1, if t = ⊥ then e.2 else t) else e).1 = e.1 := by
    intro e
    split <;> rfl
  simp only [watermark, mark, update, List.find?_map, Function.comp_def, keys]
  by_cases same : m' = m
  · subst same
    obtain ⟨e, he, hm⟩ := market rfl
    obtain ⟨found, hf⟩ : ∃ found, r.marks.find? (·.1 = m') = some found :=
      Option.isSome_iff_exists.mp (List.find?_isSome.mpr ⟨e, he, by simpa using hm⟩)
    have key : found.1 = m' := by simpa using List.find?_some hf
    simp [hf, key]
  · rw [if_neg same]
    cases hf : r.marks.find? (·.1 = m') with
    | none => rfl
    | some e =>
      have key : e.1 = m' := by simpa using List.find?_some hf
      simp [key, same]

theorem mem_deliver {ids : List Uuid} {o : NewsItem} :
    o ∈ (r.deliver ids).items ↔ ∃ o' ∈ r.items, o = if o'.id ∈ ids then o'.deliver else o' := by
  simp only [deliver, List.mem_map]
  exact ⟨fun ⟨o', h, e⟩ => ⟨o', h, e.symm⟩, fun ⟨o', h, e⟩ => ⟨o', h, e.symm⟩⟩

end DeliveryRows

theorem Sent.acksWebhook_congr {log log' : DeliveryLog} (id : log'.id = log.id)
    (batch : log'.batchId = log.batchId) (s : Sent) : s.acksWebhook log' = s.acksWebhook log := by
  unfold acksWebhook
  rw [id, batch]

theorem Sent.acksTelegram_congr {log log' : DeliveryLog} (same : log'.id = log.id) (id : Uuid) (s : Sent) :
    s.acksTelegram log' id = s.acksTelegram log id := by
  unfold acksTelegram
  rw [same]

namespace Progress

variable {x : Deliveries} {log log' : DeliveryLog}

theorem webhookAcked (h : Progress x log log')
    (old : log.webhookDelivered = true → ∃ s ∈ x.sent, s.acksWebhook log = true)
    (delivered : log'.webhookDelivered = true) : ∃ s ∈ x.sent, s.acksWebhook log' = true := by
  have acked : ∃ s ∈ x.sent, s.acksWebhook log = true := by
    rcases h.webhook with same | ⟨_, acked⟩
    · exact old (same ▸ delivered)
    · exact acked
  obtain ⟨s, hs, ack⟩ := acked
  exact ⟨s, hs, (Sent.acksWebhook_congr h.head.1 h.head.2.2.1 s).trans ack⟩

theorem telegramAcked (h : Progress x log log')
    (old : ∀ id ∈ log.telegramSentNewsItemIds, ∃ s ∈ x.sent, s.acksTelegram log id = true) :
    ∀ id ∈ log'.telegramSentNewsItemIds, ∃ s ∈ x.sent, s.acksTelegram log' id = true := by
  have acked : ∀ id ∈ log'.telegramSentNewsItemIds, ∃ s ∈ x.sent, s.acksTelegram log id = true := by
    rcases h.telegram with same | ⟨new, eq, _, acked⟩
    · exact same ▸ old
    · intro id hid
      rw [eq] at hid
      rcases List.mem_append.mp hid with hid | hid
      · exact old id hid
      · obtain rfl := List.mem_singleton.mp hid
        exact acked
  intro id hid
  obtain ⟨s, hs, ack⟩ := acked id hid
  exact ⟨s, hs, (Sent.acksTelegram_congr h.head.1 id s).trans ack⟩

theorem isPrefix (h : Progress x log log') (old : log.telegramSentNewsItemIds <+: log.newsItemIds) :
    log'.telegramSentNewsItemIds <+: log'.newsItemIds := by
  rw [h.head.2.2.2]
  rcases h.telegram with same | ⟨_, _, isPrefix, _⟩
  · exact same ▸ old
  · exact isPrefix

end Progress

namespace Delivers

variable {ordered : Prop} {a : Option JobId} {x y : Deliveries}

theorem log_inv (h : Delivers ordered a x y) (unique : (x.rows.logs.map (·.id)).Nodup)
    (hx : ∀ log ∈ x.rows.logs, log.Inv x.sent) : ∀ log ∈ y.rows.logs, log.Inv y.sent := by
  have moved : ∀ {log : DeliveryLog} {c : DeliveryLog → DeliveryLog}, log ∈ x.rows.logs →
      (c log).Inv x.sent → ∀ log' ∈ (x.rows.setLog log.id c).logs, log'.Inv x.sent := by
    intro log c mem hc log' hl
    rcases (DeliveryRows.mem_setLog unique mem).mp hl with rfl | ⟨hl, _⟩
    · exact hc
    · exact hx log' hl
  cases h with
  | stay | began | ended => exact hx
  | grew logs items marks fresh =>
    intro log hl
    rcases List.mem_append.mp hl with hl | hl
    · exact hx log hl
    · have new := fresh log hl
      refine ⟨?_, ?_, ?_, ?_, ?_⟩ <;> simp [new.status, new.webhook, new.telegram, new.deliveredAt]
  | sent s =>
    intro log hl
    have old := hx log hl
    refine ⟨old.telegram, fun hw => ?_, fun id hid => ?_, old.success, old.deliveredAt⟩
    · obtain ⟨s', hs, ack⟩ := old.webhookAcked hw
      exact ⟨s', List.mem_append_left _ hs, ack⟩
    · obtain ⟨s', hs, ack⟩ := old.telegramAcked id hid
      exact ⟨s', List.mem_append_left _ hs, ack⟩
  | attempted log c mem status progress status' deliveredAt =>
    have old := hx log mem
    refine moved mem ⟨progress.isPrefix old.telegram, progress.webhookAcked old.webhookAcked,
      progress.telegramAcked old.telegramAcked, fun h => absurd h status', ?_⟩
    rw [deliveredAt, ← old.deliveredAt]
    exact ⟨fun h => absurd h status', fun h => absurd h status⟩
  | finished log c t newest mem status progress webhook execution telegram status' deliveredAt =>
    have old := hx log mem
    refine moved mem ⟨progress.isPrefix old.telegram, progress.webhookAcked old.webhookAcked,
      progress.telegramAcked old.telegramAcked, fun _ => ?_, by simp [status', deliveredAt]⟩
    rcases progress.webhook with same | ⟨h, _⟩
    · exact same.trans webhook
    · exact h

theorem item_inv (h : Delivers ordered a x y) (hx : x.rows.Keyed) (hy : y.rows.Keyed)
    (inv : ∀ o ∈ x.rows.items, o.delivered = true ↔
      ∃ log ∈ x.rows.logs, log.status = .success ∧ o.id ∈ log.newsItemIds) :
    ∀ o ∈ y.rows.items, o.delivered = true ↔
      ∃ log ∈ y.rows.logs, log.status = .success ∧ o.id ∈ log.newsItemIds := by
  cases h with
  | stay | began | ended | sent => exact inv
  | grew logs items marks fresh undelivered =>
    have same : ∀ id, (∃ log ∈ x.rows.logs ++ logs, log.status = .success ∧ id ∈ log.newsItemIds) ↔
        ∃ log ∈ x.rows.logs, log.status = .success ∧ id ∈ log.newsItemIds := by
      intro id
      constructor
      · rintro ⟨log, hl, hs, hid⟩
        rcases List.mem_append.mp hl with hl | hl
        · exact ⟨log, hl, hs, hid⟩
        · simp [(fresh log hl).status] at hs
      · rintro ⟨log, hl, rest⟩
        exact ⟨log, List.mem_append_left _ hl, rest⟩
    intro o ho
    refine Iff.trans ?_ (same o.id).symm
    rcases List.mem_append.mp ho with old | new
    · exact inv o old
    · simp only [undelivered o new, Bool.false_eq_true, false_iff]
      rintro ⟨log, hl, _, hid⟩
      obtain ⟨o', ho', e⟩ := hx.listed log hl _ hid
      have unique := hy.items
      simp only [DeliveryRows.grow, List.map_append] at unique
      exact (List.nodup_append.mp unique).2.2 o'.id (List.mem_map_of_mem ho') o.id
        (List.mem_map_of_mem new) e
  | attempted log c mem status progress status' =>
    intro o ho
    rw [inv o ho]
    constructor
    · rintro ⟨log', hl, hs, hid⟩
      refine ⟨log', (DeliveryRows.mem_setLog hx.logs mem).mpr (.inr ⟨hl, fun e => ?_⟩), hs, hid⟩
      obtain rfl := List.inj_on_of_nodup_map hx.logs hl mem e
      exact status hs
    · rintro ⟨log', hl, hs, hid⟩
      rcases (DeliveryRows.mem_setLog hx.logs mem).mp hl with rfl | ⟨hl, _⟩
      · exact absurd hs status'
      · exact ⟨log', hl, hs, hid⟩
  | finished log c t newest mem status progress webhook execution telegram status' =>
    intro o ho
    obtain ⟨o', ho', rfl⟩ := DeliveryRows.mem_deliver.mp ho
    by_cases hid : o'.id ∈ log.newsItemIds
    · rw [if_pos hid]
      refine iff_of_true rfl ⟨c log, (DeliveryRows.mem_setLog hx.logs mem).mpr (.inl rfl), status', ?_⟩
      exact progress.head.2.2.2 ▸ hid
    · rw [if_neg hid, inv o' ho']
      constructor
      · rintro ⟨log', hl, hs, hid'⟩
        refine ⟨log', (DeliveryRows.mem_setLog hx.logs mem).mpr (.inr ⟨hl, fun e => ?_⟩), hs, hid'⟩
        obtain rfl := List.inj_on_of_nodup_map hx.logs hl mem e
        exact status hs
      · rintro ⟨log', hl, hs, hid'⟩
        rcases (DeliveryRows.mem_setLog hx.logs mem).mp hl with rfl | ⟨hl, _⟩
        · exact absurd (progress.head.2.2.2 ▸ hid') hid
        · exact ⟨log', hl, hs, hid'⟩

theorem inv (h : Delivers ordered a x y) (hx : x.rows.Keyed) (hy : y.rows.Keyed) (hi : x.Inv) : y.Inv :=
  ⟨h.log_inv hx.logs hi.logs, h.item_inv hx hy hi.items⟩

end Delivers

end NewsNotifier

import NewsNotifier.ReferentialIntegrity
import NewsNotifier.WatermarkUpdates

namespace NewsNotifier

open Interleaving KeyedRows

namespace Delivers

variable {ordered : Prop} {a : Option JobId} {x y : Deliveries} {first : WithBot Time} {m : Uuid}

/-- A watermark that a success has written is a date that it delivers, be the run ordered or not. -/
theorem watermark_dated (h : Delivers ordered a x y) (hx : x.rows.Keyed) :
    y.rows.watermark m = x.rows.watermark m ∨ y.rows.watermark m ∈ y.rows.dates first m := by
  cases h with
  | stay | began | ended | sent | attempted => exact .inl rfl
  | grew logs items marks fresh undelivered unmarked => exact .inl (DeliveryRows.watermark_grow unmarked m)
  | finished row c s newest memRow status progress webhook execution telegram status' deliveredAt
      market dates advance wrote =>
    have after : (((x.rows.setLog row.id c).deliver row.newsItemIds).mark row.marketId s).watermark m = _ :=
      DeliveryRows.watermark_mark fun _ => market
    by_cases same : m = row.marketId
    · subst same
      rw [if_pos rfl] at after
      rcases wrote with rfl | rfl
      · exact .inl (after.trans (if_pos rfl))
      · cases s with
        | bot => exact .inl (after.trans (if_pos rfl))
        | coe date =>
          obtain ⟨o, mem, listed, published⟩ := dates.attained date rfl
          refine .inr (.inr ⟨c row, (DeliveryRows.mem_setLog hx.logs memRow).mpr (.inl rfl),
            progress.head.2.1, status', _, DeliveryRows.mem_deliver.mpr ⟨o, mem, rfl⟩, ?_, date, ?_,
            after.trans (if_neg WithBot.coe_ne_bot)⟩)
          · rw [progress.head.2.2.2]
            split <;> exact listed
          · split <;> exact published
    · rw [if_neg same] at after
      exact .inl after

theorem dated (h : Delivers ordered a x y) (hx : x.rows.Keyed) (old : x.rows.watermark m ∈ x.rows.dates first m) :
    y.rows.watermark m ∈ y.rows.dates first m := by
  have moved : _ ∨ y.rows.watermark m ∈ y.rows.dates first m := h.watermark_dated hx
  rcases moved with same | attained
  · exact same ▸ h.dates_kept hx.logs old
  · exact attained

end Delivers

/-- The subscriber has acknowledged a webhook that carries the article. -/
def Sent.acksArticle (id : Uuid) : Sent → Prop
  | .webhook _ _ _ payload (.ok (code, error)) => sendFailed code error = false ∧ id ∈ payload.news.map (·.newsId)
  | _ => False

section Runs

variable {d₀ : Data} {w : NewsWorld} {log : DeliveryLog}

/-- Every acknowledged webhook of a log carries all that the log lists. -/
theorem acks_listed (inv : w.data.ledger.Inv plainPolicy) (hl : log ∈ w.data.db.logs)
    {s : Sent} (hs : s ∈ w.data.sent) (acks : s.acksWebhook log = true) {id : Uuid} (listed : id ∈ log.newsItemIds) :
    s.acksArticle id := by
  cases s with
  | telegram => simp [Sent.acksWebhook] at acks
  | webhook sender url secret payload answer =>
    cases answer with
    | error e => simp [Sent.acksWebhook] at acks
    | ok answer =>
      obtain ⟨code, error⟩ := answer
      simp only [Sent.acksWebhook, Bool.and_eq_true, decide_eq_true_eq, Bool.not_eq_true'] at acks
      obtain ⟨⟨_, key⟩, ok⟩ := acks
      refine ⟨ok, ?_⟩
      have posted : (payload.batchId, payload.news.map (·.newsId)) ∈ w.data.ledger.posts :=
        List.mem_filterMap.mpr ⟨_, hs, rfl⟩
      obtain ⟨head, mem, same⟩ := inv.posts True.intro _ posted
      obtain ⟨key', ids⟩ := Prod.mk.inj same
      have own : log.head ∈ w.data.ledger.tables.logs := List.mem_map_of_mem hl
      obtain rfl : head = log.head := List.inj_on_of_nodup_map inv.rows.logKeys mem own (key'.symm.trans key)
      rw [ids]
      exact listed

theorem unordered_governs (lib : PyLib) : (deliveryContract False).Governs (newsSys lib plainTask) := by
  have all : (deliveryContract False).Governs ((newsSys lib plainTask).restrict fun _ _ _ _ _ => true) :=
    deliveryContract_governs lib False.elim
  rwa [Sys.restrict_true] at all

/-- In every state of every run an article is marked as delivered exactly when a log that lists it has
succeeded; then the subscriber has acknowledged a webhook with it; and the watermark of a market is the
first one or the date of an article that a successful log of the market lists, in the runs of the
service alone an article of that market. -/
theorem delivered_acked (lib : PyLib) (h₀ : d₀.Initial) (reach : Reachable (newsSys lib plainTask) d₀ w) :
    (∀ o ∈ w.data.db.items, o.delivered = true ↔
      ∃ log ∈ w.data.db.logs, log.status = .success ∧ o.id ∈ log.newsItemIds) ∧
    (∀ o ∈ w.data.db.items, o.delivered = true → ∃ s ∈ w.data.sent, s.acksArticle o.id) ∧
    ∀ m, w.data.db.watermarkOf m = d₀.db.watermarkOf m ∨ ∃ log ∈ w.data.db.logs, log.marketId = m ∧
      log.status = .success ∧ ∃ o ∈ w.data.db.items, o.delivered = true ∧ o.id ∈ log.newsItemIds ∧
        (Reachable (newsSys lib serviceTask) d₀ w → o.marketId = m) ∧
          ∃ t : Time, o.publishedAt = some t ∧ w.data.db.watermarkOf m = t := by
  have governs := unordered_governs lib
  have start : (deliveryContract False).Sound (newsSys lib plainTask) ⟨d₀, fun _ => none⟩ := ⟨h₀.deliveryInv, by simp⟩
  obtain ⟨ledger, inv⟩ := (governs.sound h₀.deliveryInv reach).data
  have items : ∀ o ∈ w.data.db.items, o.delivered = true ↔
      ∃ log ∈ w.data.db.logs, log.status = .success ∧ o.id ∈ log.newsItemIds := inv.items
  refine ⟨items, fun o ho delivered => ?_, fun m => ?_⟩
  · obtain ⟨log, hl, done, listed⟩ := (items o ho).mp delivered
    have own := inv.logs log hl
    obtain ⟨s, hs, acks⟩ := own.webhookAcked (own.success done)
    exact ⟨s, hs, acks_listed ledger hl hs acks listed⟩
  · have first : d₀.deliveries.rows.watermark m = d₀.db.watermarkOf m := watermark_deliveryRows d₀.db m
    have dated := (governs.steps_ind (R := fun d d' : Data =>
      d.deliveries.rows.watermark m ∈ d.deliveries.rows.dates (d₀.db.watermarkOf m) m →
        d'.deliveries.rows.watermark m ∈ d'.deliveries.rows.dates (d₀.db.watermarkOf m) m)
      (fun old => old) (fun h h' old => h' (h old)) (fun hi act old => act.2.dated hi.1.keyed old) start reach).2
      (.inl first)
    rw [show w.data.deliveries.rows.watermark m = w.data.db.watermarkOf m from watermark_deliveryRows w.data.db m] at dated
    rcases dated with same | ⟨log, hl, own, done, o, ho, listed, t, published, eq⟩
    · exact .inl same
    · refine .inr ⟨log, hl, own, done, o, ho, (items o ho).mpr ⟨log, hl, done, listed⟩, listed, fun service => ?_, t,
        published, eq⟩
      obtain ⟨o', ho', same, market⟩ := (log_items h₀ service log hl).2 o.id listed
      obtain rfl := List.inj_on_of_nodup_map (item_keys ledger) ho' ho same
      exact market.trans own

end Runs

theorem delivered_acked_sample : ∃ w : NewsWorld, ∃ o ∈ w.data.db.items, o.delivered = true ∧
    (∃ log ∈ w.data.db.logs, log.status = .success ∧ o.id ∈ log.newsItemIds) ∧
    ∃ s ∈ w.data.sent, s.acksArticle o.id := by
  have run : ((newsSys sampleLib plainTask).run sampleWorld resumedSample).map (fun w =>
      w.data.db.items.any (·.delivered)) = some true := by
    decide +kernel
  obtain ⟨w, reach, hp⟩ := Sys.run_reaches run
  obtain ⟨o, ho, delivered⟩ := List.any_eq_true.mp hp
  obtain ⟨logs, acked, _⟩ := delivered_acked sampleLib sampleData_initial reach
  exact ⟨w, o, ho, delivered, (logs o ho).mp delivered, acked o ho delivered⟩

end NewsNotifier

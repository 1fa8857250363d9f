import NewsNotifier.DeliveryRules
import NewsNotifier.DeliverySpecs

namespace NewsNotifier

open Interleaving KeyedRows

/-- The watermark that a commit of `l` writes to the market. -/
def stagedWatermark (l : List Write) (m : Uuid) : Option Time :=
  (l.filterMap fun w =>
    match w with
    | .setMarket id (.maxDeliveredPublishedAt t) => if id = m then some t else none
    | _ => none).getLast?

def reaches (watermark : WithBot Time) (t : Time) : Bool :=
  match watermark with
  | ⊥ => true
  | (w : Time) => decide (w ≤ t)

theorem reaches_iff {watermark : WithBot Time} {t : Time} : reaches watermark t = true ↔ watermark ≤ t := by
  cases watermark with
  | bot => exact ⟨fun _ => bot_le, fun _ => rfl⟩
  | coe w => exact decide_eq_true_iff.trans WithBot.coe_le_coe.symm

/-- The staged watermark of a market, if any, is not behind the committed one. -/
def writesNewest (l : List Write) (d : Data) : Bool :=
  d.db.markets.all fun market =>
    match stagedWatermark l market.id with
    | none => true
    | some t => reaches (d.db.watermarkOf market.id) t

theorem newestOf_attained {items : List NewsItem} {x : Time} (h : newestOf items = some x) :
    ∃ o ∈ items, o.publishedAt = some x := by
  induction items generalizing x with
  | nil => simp [newestOf] at h
  | cons item items ih =>
    simp only [newestOf] at h
    split at h
    next newest _ _ =>
      obtain ⟨o, ho, e⟩ := ih h
      exact ⟨o, List.mem_cons_of_mem _ ho, e⟩
    next t ht _ => exact ⟨item, List.mem_cons_self, ht.trans h⟩
    next t newest ht hn =>
      rcases max_choice t newest with e | e
      · exact ⟨item, List.mem_cons_self, by rw [ht, ← h, e]⟩
      · obtain ⟨o, ho, e'⟩ := ih (hn.trans (e ▸ h))
        exact ⟨o, List.mem_cons_of_mem _ ho, e'⟩

theorem newestOf_bound {items : List NewsItem} {o : NewsItem} (ho : o ∈ items) {x : Time}
    (h : o.publishedAt = some x) : ∃ newest, newestOf items = some newest ∧ x ≤ newest := by
  induction items with
  | nil => simp at ho
  | cons item items ih =>
    simp only [newestOf]
    rcases List.mem_cons.mp ho with rfl | ho
    · rw [h]
      cases newestOf items with
      | none => exact ⟨x, rfl, le_rfl⟩
      | some newest => exact ⟨max x newest, rfl, le_max_left _ _⟩
    · obtain ⟨newest, e, le⟩ := ih ho
      rw [e]
      cases item.publishedAt with
      | none => exact ⟨newest, rfl, le⟩
      | some t => exact ⟨max t newest, rfl, le.trans (le_max_right _ _)⟩

theorem NewsItem.of_deliver {o o' : NewsItem} (h : o'.deliver = o.deliver) :
    o'.id = o.id ∧ o'.publishedAt = o.publishedAt := by
  simp only [NewsItem.deliver, NewsItem.mk.injEq] at h
  tauto

/-- A row differs from another in nothing that a delivery resumes from. -/
structure DeliveryLog.Same (log log' : DeliveryLog) : Prop where
  head : log'.id = log.id ∧ log'.marketId = log.marketId ∧ log'.batchId = log.batchId ∧
    log'.newsItemIds = log.newsItemIds
  status : log'.status = log.status
  webhook : log'.webhookDelivered = log.webhookDelivered
  telegram : log'.telegramSentNewsItemIds = log.telegramSentNewsItemIds
  deliveredAt : log'.deliveredAt = log.deliveredAt

/-- What holds between two statements of a delivery of the committed row `log`. -/
structure Attempting (ordered : Prop) (i : JobId) (telegram : Bool) (market : Market)
    (items : List NewsItem) (log : DeliveryLog) (x : Deliveries) : Prop where
  own : i = .deliverBatch log.id
  mem : log ∈ x.rows.logs
  status : log.status ≠ .success
  marketId : market.id = log.marketId
  known : ∃ e ∈ x.rows.marks, e.1 = log.marketId
  read : ordered → market.watermark ≤ x.rows.watermark log.marketId
  ids : items.map (·.id) = log.newsItemIds
  items : ∀ o ∈ items, ∃ o' ∈ x.rows.items, o'.deliver = o.deliver
  running : ∀ e, e.1 = i → (e ∈ x.running ↔ e.2 = telegram)

namespace Attempting

variable {ordered : Prop} {i : JobId} {telegram : Bool} {market : Market} {items : List NewsItem}
  {log : DeliveryLog} {x y : Deliveries}

theorem undisturbed (h : Attempting ordered i telegram market items log x)
    (hu : Undisturbed ordered i x y) : Attempting ordered i telegram market items log y where
  own := h.own
  mem := hu.log log h.mem h.own
  status := h.status
  marketId := h.marketId
  known := by
    obtain ⟨e, he, k⟩ := h.known
    obtain ⟨e', he', k'⟩ := hu.market e he
    exact ⟨e', he', k'.trans k⟩
  read ho := (h.read ho).trans (hu.watermark ho _)
  ids := h.ids
  items o ho := by
    obtain ⟨o', ho', e⟩ := h.items o ho
    obtain ⟨o'', ho'', e'⟩ := hu.items o' ho'
    exact ⟨o'', ho'', e'.trans e⟩
  running e hi := (hu.running e hi).trans (h.running e hi)

theorem send (h : Attempting ordered i telegram market items log x) (s : Sent) :
    Attempting ordered i telegram market items log { x with sent := x.sent ++ [s] } :=
  { h with }

/-- After a commit that leaves the delivery open the attempt goes on from the new row. -/
theorem commit (h : Attempting ordered i telegram market items log x)
    (unique : (x.rows.logs.map (·.id)).Nodup) {c : DeliveryLog → DeliveryLog}
    (progress : Progress x log (c log)) (status : (c log).status ≠ .success) :
    Attempting ordered i telegram market items (c log) { x with rows := x.rows.setLog log.id c } := by
  obtain ⟨hid, hm, _, hids⟩ := progress.head
  exact {
    own := hid ▸ h.own
    mem := (DeliveryRows.mem_setLog unique h.mem).mpr (.inl rfl)
    status := status
    marketId := hm ▸ h.marketId
    known := hm ▸ h.known
    read := hm ▸ h.read
    ids := hids ▸ h.ids
    items := h.items
    running := h.running }

theorem newest (h : Attempting ordered i telegram market items log x) (keyed : x.rows.Keyed) :
    x.rows.Newest log (newestOf items) := by
  -- a fetched item and the committed row of its id have one date
  have dated : ∀ o ∈ items, ∀ o' ∈ x.rows.items, o'.id = o.id → o'.publishedAt = o.publishedAt := by
    intro o ho o' ho' e
    obtain ⟨o'', ho'', same⟩ := h.items o ho
    obtain ⟨id_eq, date⟩ := NewsItem.of_deliver same
    obtain rfl := List.inj_on_of_nodup_map keyed.items ho' ho'' (e.trans id_eq.symm)
    exact date
  constructor
  · intro t ht
    obtain ⟨o, ho, date⟩ := newestOf_attained ht
    obtain ⟨o', ho', same⟩ := h.items o ho
    have id_eq := (NewsItem.of_deliver same).1
    refine ⟨o', ho', ?_, (dated o ho o' ho' id_eq).trans date⟩
    rw [← h.ids, id_eq]
    exact List.mem_map_of_mem ho
  · intro o' ho' listed t ht
    rw [← h.ids] at listed
    obtain ⟨o, ho, e⟩ := List.mem_map.mp listed
    obtain ⟨newest, eq, le⟩ := newestOf_bound ho ((dated o ho o' ho' e.symm).symm.trans ht)
    rw [eq]
    exact WithBot.coe_le_coe.mpr le

end Attempting

/-- The session has assigned columns of one log, as `c` does. -/
structure LogEffect (l : List Write) (id : Uuid) (c : DeliveryLog → DeliveryLog) : Prop where
  key : ∀ row, (c row).id = row.id
  changes : Changes l (·.setLog id c)

namespace LogEffect

variable {l : List Write} {id : Uuid} {c : DeliveryLog → DeliveryLog}

theorem nil (k : Uuid) : LogEffect [] k (fun log => log) :=
  ⟨fun _ => rfl, fun db => by simp [DeliveryRows.setLog, update]⟩

theorem LogChange.id_apply (a : LogChange) (log : DeliveryLog) : (a.apply log).id = log.id := by
  cases a <;> rfl

theorem assign (h : LogEffect l id c) (a : LogChange) :
    LogEffect (l ++ [.setLog id a]) id fun log => a.apply (c log) := by
  refine ⟨fun row => (LogChange.id_apply a _).trans (h.key row), ?_⟩
  have composed := h.changes.append (w := .setLog id a) (g := (·.setLog id a.apply)) fun _ => rfl
  intro db
  rw [composed db]
  simp only [DeliveryRows.setLog, update_update h.key]
  rfl

end LogEffect

theorem Changes.deliver {l : List Write} {f : DeliveryRows → DeliveryRows} (h : Changes l f)
    (items : List NewsItem) :
    Changes (l ++ items.map fun o => .setDelivered o.id) fun r => (f r).deliver (items.map (·.id)) := by
  induction items generalizing l f with
  | nil => simpa [DeliveryRows.deliver] using h
  | cons item items ih =>
    have one := h.append (w := .setDelivered item.id) (g := (·.deliver [item.id])) fun db => by
      simp [Write.apply, Database.deliveryRows, DeliveryRows.deliver, update, eq_comm]
    have rest := ih one
    simp only [List.map_cons, List.append_assoc, List.singleton_append] at rest ⊢
    intro db
    rw [rest db]
    simp only [DeliveryRows.deliver, List.map_map, DeliveryRows.mk.injEq, true_and, and_true]
    refine List.map_congr_left fun o _ => ?_
    by_cases first : o.id = item.id <;> by_cases later : o.id ∈ items.map (·.id) <;>
      simp_all [NewsItem.deliver]

theorem Changes.mark {l : List Write} {f : DeliveryRows → DeliveryRows} (h : Changes l f) (m : Uuid)
    (t : Time) :
    Changes (l ++ [.setMarket m (.maxDeliveredPublishedAt t)]) fun r => (f r).mark m (t : WithBot Time) := by
  refine h.append (g := (·.mark m (t : WithBot Time))) fun db => ?_
  simp only [Write.apply, Database.deliveryRows, DeliveryRows.mark, update, List.map_map,
    DeliveryRows.mk.injEq, true_and]
  refine List.map_congr_left fun market _ => ?_
  by_cases same : market.id = m
  · simp [same, MarketChange.apply, Market.watermark]
    rfl
  · simp [same]

theorem DeliveryRows.mark_bot (r : DeliveryRows) (m : Uuid) : r.mark m ⊥ = r := by
  simp [DeliveryRows.mark, update]

end NewsNotifier

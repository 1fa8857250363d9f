import NewsNotifier.ResumableDelivery
import Mathlib.Order.Bounds.Basic

namespace NewsNotifier

open Interleaving KeyedRows

/-- The dates of the items that the market's successful logs have delivered, and its first watermark. -/
def DeliveryRows.dates (r : DeliveryRows) (first : WithBot Time) (m : Uuid) : Set (WithBot Time) :=
  {t | t = first ∨ ∃ log ∈ r.logs, log.marketId = m ∧ log.status = .success ∧
    ∃ o ∈ r.items, o.id ∈ log.newsItemIds ∧ ∃ x : Time, o.publishedAt = some x ∧ t = x}

namespace Delivers

variable {ordered : Prop} {a : Option JobId} {x y : Deliveries} {first : WithBot Time} {m : Uuid}

theorem dates_kept (h : Delivers ordered a x y) (unique : (x.rows.logs.map (·.id)).Nodup) :
    x.rows.dates first m ⊆ y.rows.dates first m := by
  rintro t (rfl | ⟨log, hl, hm, done, o, ho, hid, date, hd, rfl⟩)
  · exact .inl rfl
  · obtain ⟨log', hl', adv⟩ := (h.later unique).logs log hl
    obtain rfl := adv.done done
    obtain ⟨o', ho', same⟩ := h.items_kept o ho
    obtain ⟨id, published⟩ := NewsItem.of_deliver same
    exact .inr ⟨log', hl', hm, done, o', ho', id ▸ hid, date, published.trans hd, rfl⟩

/-- A date is old, or the success that brings it raises the watermark to it. -/
theorem new_date (h : Delivers ordered a x y) (ho : ordered) (hx : x.rows.Keyed) (hy : y.rows.Keyed)
    {t : WithBot Time} (ht : t ∈ y.rows.dates first m) :
    t ∈ x.rows.dates first m ∨ t ≤ y.rows.watermark m := by
  rcases ht with rfl | ⟨log, hl, hm, done, o, mem, hid, date, hd, rfl⟩
  · exact .inl (.inl rfl)
  -- the item of a log that was there has its row there, with one date
  have old : log ∈ x.rows.logs → (date : WithBot Time) ∈ x.rows.dates first m := by
    intro hl
    obtain ⟨o', ho', e⟩ := hx.listed log hl o.id hid
    obtain ⟨o'', ho'', same⟩ := h.items_kept o' ho'
    obtain ⟨id, published⟩ := NewsItem.of_deliver same
    obtain rfl := List.inj_on_of_nodup_map hy.items ho'' mem (id.trans e)
    exact .inr ⟨log, hl, hm, done, o', ho', e ▸ hid, date, published.symm.trans hd, rfl⟩
  cases h with
  | stay | began | ended | sent => exact .inl (old hl)
  | grew logs items marks fresh =>
    rcases List.mem_append.mp hl with hl | hl
    · exact .inl (old hl)
    · simp [(fresh log hl).status] at done
  | attempted row c memRow status progress failed =>
    rcases (DeliveryRows.mem_setLog hx.logs memRow).mp hl with rfl | ⟨hl, _⟩
    · exact absurd done failed
    · exact .inl (old hl)
  | finished row c s newest memRow status progress webhook execution telegram status' deliveredAt
      market dates advance =>
    rcases (DeliveryRows.mem_setLog hx.logs memRow).mp hl with rfl | ⟨hl, _⟩
    · right
      have market_eq : row.marketId = m := progress.head.2.1.symm.trans hm
      obtain ⟨o', ho', rfl⟩ := DeliveryRows.mem_deliver.mp mem
      have published : o'.publishedAt = some date := by
        split at hd <;> exact hd
      have listed : o'.id ∈ row.newsItemIds := by
        rw [← progress.head.2.2.2]
        split at hid <;> exact hid
      have bound := dates.bound o' ho' listed date published
      refine le_of_le_of_eq ?_ (DeliveryRows.watermark_mark fun _ => market).symm
      rw [if_pos market_eq.symm]
      exact (bound.trans (le_max_right _ _)).trans_eq (advance ho).symm
    · exact .inl (old hl)

theorem watermark_attained (h : Delivers ordered a x y) (ho : ordered) (hx : x.rows.Keyed) :
    y.rows.watermark m = x.rows.watermark m ∨ y.rows.watermark m ∈ y.rows.dates first m := by
  cases h with
  | stay | began | ended | sent | attempted => exact .inl rfl
  | grew logs items marks fresh undelivered unmarked => exact .inl (DeliveryRows.watermark_grow unmarked m)
  | finished row c s newest memRow status progress webhook execution telegram status' deliveredAt
      market dates advance =>
    have after : (((x.rows.setLog row.id c).deliver row.newsItemIds).mark row.marketId s).watermark m = _ :=
      DeliveryRows.watermark_mark fun _ => market
    by_cases same : m = row.marketId
    · subst same
      rw [if_pos rfl] at after
      have eq := after.trans (advance ho)
      rcases max_choice (x.rows.watermark row.marketId) newest with e | e
      · exact .inl (eq.trans e)
      · cases newest with
        | bot =>
          rw [max_bot_right] at eq
          exact .inl eq
        | coe date =>
          obtain ⟨o, mem, listed, published⟩ := dates.attained date rfl
          refine .inr (.inr ⟨c row, (DeliveryRows.mem_setLog hx.logs memRow).mpr (.inl rfl),
            progress.head.2.1, status', _, DeliveryRows.mem_deliver.mpr ⟨o, mem, rfl⟩, ?_, date, ?_,
            eq.trans e⟩)
          · rw [progress.head.2.2.2]
            split <;> exact listed
          · split <;> exact published
    · rw [if_neg same] at after
      exact .inl after

/-- One step of an ordered run keeps the watermark at the maximum. -/
theorem greatest (h : Delivers ordered a x y) (ho : ordered) (hx : x.rows.Keyed) (hy : y.rows.Keyed)
    (old : IsGreatest (x.rows.dates first m) (x.rows.watermark m)) :
    IsGreatest (y.rows.dates first m) (y.rows.watermark m) := by
  constructor
  · have moved : _ ∨ y.rows.watermark m ∈ y.rows.dates first m := h.watermark_attained ho hx
    rcases moved with same | attained
    · exact same ▸ h.dates_kept hx.logs old.1
    · exact attained
  · intro t ht
    rcases h.new_date ho hx hy ht with ht | le
    · exact (old.2 ht).trans (h.watermark_le ho m)
    · exact le

end Delivers

/-- The dates of the items delivered in a market, and the watermark it started with. -/
def Database.deliveredDates (db : Database) (first : WithBot Time) (m : Uuid) : Set (WithBot Time) :=
  db.deliveryRows.dates first m

theorem watermark_apply (w : Write) (db : Database) {m : Uuid} (known : ∃ market ∈ db.markets, market.id = m) :
    (w.apply db).watermarkOf m = match stagedWatermark [w] m with
      | none => db.watermarkOf m
      | some t => t := by
  have keep : ∀ {db' : Database}, db'.deliveryRows.marks = db.deliveryRows.marks →
      db'.watermarkOf m = db.watermarkOf m := by
    intro db' same
    rw [← watermark_deliveryRows, ← watermark_deliveryRows, DeliveryRows.watermark, same,
      DeliveryRows.watermark]
  cases w with
  | insertMarket row =>
    obtain ⟨market, mem, hm⟩ := known
    have found : (db.markets.find? (·.id = m)).isSome = true :=
      List.find?_isSome.mpr ⟨market, mem, by simpa using hm⟩
    obtain ⟨market', e⟩ := Option.isSome_iff_exists.mp found
    simp [Write.apply, Database.watermarkOf, Database.market, List.find?_append, e, stagedWatermark]
  | setMarket id c =>
    cases hc : c.isWatermark with
    | false =>
      have quiet : stagedWatermark [.setMarket id c] m = none := by
        cases c <;> first | rfl | simp [MarketChange.isWatermark] at hc
      rw [quiet]
      refine keep ?_
      simp only [Write.apply, Database.deliveryRows]
      rw [map_update (MarketChange.watermark_apply hc)]
    | true =>
      obtain ⟨t, rfl⟩ : ∃ t, c = .maxDeliveredPublishedAt t := by
        cases c with
        | maxDeliveredPublishedAt t => exact ⟨t, rfl⟩
        | _ => simp [MarketChange.isWatermark] at hc
      obtain ⟨market, mem, hm⟩ := known
      have after : ((Write.setMarket id (.maxDeliveredPublishedAt t)).apply db).deliveryRows =
        db.deliveryRows.mark id (t : WithBot Time) := (Changes.nil.mark id t) db
      rw [← watermark_deliveryRows, after, DeliveryRows.watermark_mark fun e =>
        ⟨_, List.mem_map_of_mem mem, hm.trans e⟩, if_neg WithBot.coe_ne_bot, watermark_deliveryRows]
      by_cases same : m = id
      · simp [same, stagedWatermark]
      · simp [same, Ne.symm same, stagedWatermark]
  | _ => exact keep rfl

theorem known_apply (w : Write) (db : Database) {m : Uuid} (known : ∃ market ∈ db.markets, market.id = m) :
    ∃ market ∈ (w.apply db).markets, market.id = m := by
  obtain ⟨market, mem, hm⟩ := known
  cases w with
  | insertMarket row => exact ⟨market, List.mem_append_left _ mem, hm⟩
  | setMarket id c =>
    refine ⟨_, mem_update.mpr ⟨market, mem, rfl⟩, ?_⟩
    split
    next => cases c <;> exact hm
    next => exact hm
  | _ => exact ⟨market, mem, hm⟩

theorem stagedWatermark_cons (w : Write) (l : List Write) (m : Uuid) :
    stagedWatermark (w :: l) m = (stagedWatermark l m).or (stagedWatermark [w] m) := by
  simp only [stagedWatermark, List.filterMap_cons, List.filterMap_nil]
  split <;> simp [List.getLast?_cons]

/-- A commit leaves the watermark that it staged, or the old one. -/
theorem watermark_after (l : List Write) (db : Database) {m : Uuid}
    (known : ∃ market ∈ db.markets, market.id = m) :
    (db.after l).watermarkOf m = match stagedWatermark l m with
      | none => db.watermarkOf m
      | some t => t := by
  induction l generalizing db with
  | nil => rfl
  | cons w l ih =>
    rw [Database.after_cons, ih _ (known_apply w db known), watermark_apply w db known,
      stagedWatermark_cons w l m]
    cases stagedWatermark l m with
    | none => rfl
    | some t => rfl

/-- The runs in which no commit writes a watermark behind the committed one. -/
def keepsNewest (_ : JobId) (s : Stmt) (_ : Answer s) (l : List Write) (d : Data) : Bool :=
  !s.commits || writesNewest l d

/-- The watermark of the market is the newest delivered date, or the first watermark. -/
def Data.Maximal (first : WithBot Time) (m : Uuid) (d : Data) : Prop :=
  IsGreatest (d.deliveries.rows.dates first m) (d.deliveries.rows.watermark m)

theorem keepsNewest_order : KeepsOrder True keepsNewest := fun _ i l d ok => by
  simpa [keepsNewest, Stmt.commits] using ok

/-- In the runs whose commits keep the newest watermark, it is the greatest delivered date. -/
theorem watermark_greatest (lib : PyLib) {d₀ : Data} (h₀ : d₀.Initial) {w : NewsWorld}
    (h : Reachable ((newsSys lib plainTask).restrict keepsNewest) d₀ w) (m : Uuid) :
    IsGreatest (w.data.db.deliveredDates (d₀.db.watermarkOf m) m) (w.data.db.watermarkOf m) := by
  have governs := deliveryContract_governs lib keepsNewest_order
  have start : (deliveryContract True).Sound ((newsSys lib plainTask).restrict keepsNewest)
      ⟨d₀, fun _ => none⟩ := ⟨h₀.deliveryInv, by simp⟩
  have kept := (governs.steps_ind (R := fun (d d' : Data) =>
    d.Maximal (d₀.db.watermarkOf m) m → d'.Maximal (d₀.db.watermarkOf m) m)
    (fun old => old) (fun h h' old => h' (h old))
    (fun hi act old => act.2.greatest True.intro hi.1.keyed (Ledger.Inv.keyed (act.1.inv hi.1)) old)
    start h).2
  have first : d₀.deliveries.rows.watermark m = d₀.db.watermarkOf m := watermark_deliveryRows d₀.db m
  refine (watermark_deliveryRows w.data.db m) ▸ kept ⟨.inl first, ?_⟩
  rintro t (rfl | ⟨log, hl, _⟩)
  · exact first.ge
  · simp [Data.deliveries, Database.deliveryRows, h₀.logs] at hl

theorem watermark_rises (lib : PyLib) {d₀ : Data} (h₀ : d₀.Initial) {w w' : NewsWorld}
    (h : Reachable ((newsSys lib plainTask).restrict keepsNewest) d₀ w)
    (run : Steps ((newsSys lib plainTask).restrict keepsNewest) w w') (m : Uuid) :
    w.data.db.watermarkOf m ≤ w'.data.db.watermarkOf m := by
  have governs := deliveryContract_governs lib keepsNewest_order
  have le := (governs.steps_ind (R := fun d d' => d.deliveries.rows.watermark m ≤ d'.deliveries.rows.watermark m)
    le_rfl (fun h h' => h.trans h') (fun hi act => act.2.watermark_le True.intro m)
    (governs.sound h₀.deliveryInv h) run).2
  exact (watermark_deliveryRows w.data.db m).symm.trans_le (le.trans_eq (watermark_deliveryRows w'.data.db m))

end NewsNotifier

import NewsNotifier.DeliveryFrame
import NewsNotifier.IdempotencyKeys

namespace NewsNotifier

open Interleaving KeyedRows

def Market.watermark (m : Market) : WithBot Time := m.maxDeliveredPublishedAt

def Database.watermarkOf (db : Database) (m : Uuid) : WithBot Time :=
  match db.market m with
  | none => ⊥
  | some market => market.watermark

def Database.deliveryRows (db : Database) : DeliveryRows :=
  ⟨db.logs, db.items, db.markets.map fun m => (m.id, m.watermark)⟩

def Data.deliveries (d : Data) : Deliveries :=
  ⟨d.db.deliveryRows, d.sent, d.redis.running.map fun e => (e.id, e.cfg.telegramEnabled)⟩

theorem watermark_deliveryRows (db : Database) (m : Uuid) :
    db.deliveryRows.watermark m = db.watermarkOf m := by
  simp only [DeliveryRows.watermark, Database.deliveryRows, List.find?_map, Function.comp_def,
    Database.watermarkOf, Database.market]
  cases db.markets.find? (·.id = m) <;> rfl

/-- What the staged writes `l` do to the rows of the deliveries. -/
def Changes (l : List Write) (f : DeliveryRows → DeliveryRows) : Prop :=
  ∀ db : Database, (db.after l).deliveryRows = f db.deliveryRows

theorem Changes.nil : Changes [] id := fun _ => rfl

theorem Changes.append {l : List Write} {f : DeliveryRows → DeliveryRows} (h : Changes l f) {w : Write}
    {g : DeliveryRows → DeliveryRows} (hw : ∀ db : Database, (w.apply db).deliveryRows = g db.deliveryRows) :
    Changes (l ++ [w]) fun r => g (f r) := by
  intro db
  rw [Database.after_append, Database.after_cons, Database.after_nil, hw, h db]

/-- The staged writes add fresh rows only. -/
def Grows (l : List Write) : Prop :=
  ∃ logs items marks, (∀ log ∈ logs, DeliveryLog.Fresh log) ∧ (∀ o ∈ items, NewsItem.delivered o = false) ∧
    (∀ e ∈ marks, e.2 = ⊥) ∧ Changes l (·.grow logs items marks)

theorem DeliveryRows.grow_nil (r : DeliveryRows) : r.grow [] [] [] = r := by
  simp [DeliveryRows.grow]

theorem DeliveryRows.grow_grow (r : DeliveryRows) (logs logs' : List DeliveryLog)
    (items items' : List NewsItem) (marks marks' : List (Uuid × WithBot Time)) :
    (r.grow logs items marks).grow logs' items' marks' =
      r.grow (logs ++ logs') (items ++ items') (marks ++ marks') := by
  simp [DeliveryRows.grow]

theorem Grows.nil : Grows [] :=
  ⟨[], [], [], by simp, by simp, by simp, fun db => (DeliveryRows.grow_nil db.deliveryRows).symm⟩

theorem Grows.append {l : List Write} (h : Grows l) {w : Write} (logs : List DeliveryLog)
    (items : List NewsItem) (marks : List (Uuid × WithBot Time)) (fresh : ∀ log ∈ logs, log.Fresh)
    (undelivered : ∀ o ∈ items, o.delivered = false) (unmarked : ∀ e ∈ marks, e.2 = ⊥)
    (hw : ∀ db : Database, (w.apply db).deliveryRows = db.deliveryRows.grow logs items marks) :
    Grows (l ++ [w]) := by
  obtain ⟨logs₀, items₀, marks₀, fresh₀, undelivered₀, unmarked₀, changes⟩ := h
  refine ⟨logs₀ ++ logs, items₀ ++ items, marks₀ ++ marks, ?_, ?_, ?_, fun db => ?_⟩
  · exact fun log hl => (List.mem_append.mp hl).elim (fresh₀ log) (fresh log)
  · exact fun o ho => (List.mem_append.mp ho).elim (undelivered₀ o) (undelivered o)
  · exact fun e he => (List.mem_append.mp he).elim (unmarked₀ e) (unmarked e)
  · exact (changes.append (g := (·.grow logs items marks)) hw db).trans (DeliveryRows.grow_grow ..)

theorem MarketChange.watermark_apply {c : MarketChange} (h : c.isWatermark = false) (m : Market) :
    ((c.apply m).id, (c.apply m).watermark) = (m.id, m.watermark) := by
  cases c with
  | maxDeliveredPublishedAt => simp [MarketChange.isWatermark] at h
  | _ => rfl

/-- What a process other than a delivery may do. -/
def Stmt.aside : Stmt → Prop
  | .sendWebhook _ _ _ => False
  | .sendTelegram _ _ _ _ => False
  | .assign (.insertFailure _) => True
  | .assign (.setMarket _ c) => c.isWatermark = false
  | .assign _ => False
  | .insertItem row => row.delivered = false
  | .insertMarket row => row.maxDeliveredPublishedAt = none
  | _ => True

theorem Stmt.Writes.grows {s : Stmt} {w : Write} (h : s.Writes w) (hs : s.aside) {l : List Write}
    (hl : Grows l) : Grows (l ++ [w]) := by
  have same : ∀ {w : Write}, (∀ db : Database, (w.apply db).deliveryRows = db.deliveryRows) →
      Grows (l ++ [w]) := by
    intro w hw
    refine hl.append [] [] [] (by simp) (by simp) (by simp) fun db => ?_
    rw [hw, DeliveryRows.grow_nil]
  cases h with
  | candidate | batch | closed | opened => exact same fun _ => rfl
  | item row u t =>
    have undelivered : row.delivered = false := hs
    refine hl.append [] [{ row with id := u, discoveredAt := t }] [] (by simp)
      (by simpa using undelivered) (by simp) fun db => ?_
    simp [Write.apply, Database.deliveryRows, DeliveryRows.grow]
  | log m b ids u t =>
    refine hl.append [⟨u, m, b, ids, 0, .pending, none, none, false, [], t, none⟩] [] [] ?_ (by simp) (by simp) fun db => ?_
    · intro log hlog
      obtain rfl := List.mem_singleton.mp hlog
      exact ⟨rfl, rfl, rfl, rfl, rfl⟩
    · simp [Write.apply, Database.deliveryRows, DeliveryRows.grow]
  | assigned w =>
    cases w with
    | insertFailure => exact same fun _ => rfl
    | setMarket id c =>
      refine same fun db => ?_
      simp only [Write.apply, Database.deliveryRows]
      rw [map_update (MarketChange.watermark_apply hs)]
    | _ => exact False.elim hs

/-- One statement of a process other than a delivery. -/
theorem aside_delivers {lib : PyLib} {ordered : Prop} {i : JobId} {s : Stmt} {r : Answer s}
    {l l' : List Write} {d d' : Data} (hs : s.aside) (hl : Grows l)
    (h : exec lib i s r l d = some (l', d')) :
    Delivers ordered (some i) d.deliveries d'.deliveries ∧ Grows l' := by
  cases exec_outcome h with
  | nothing | locked | drew | tracked => exact ⟨.stay _ _, hl⟩
  | staged w writes => exact ⟨.stay _ _, writes.grows hs hl⟩
  | drewStaged u w fresh writes => exact ⟨.stay _ _, writes.grows hs hl⟩
  | drewBatch u row w =>
    refine ⟨.stay _ _, hl.append [] [] [] (by simp) (by simp) (by simp)
      fun db => ?_⟩
    rw [DeliveryRows.grow_nil]
    rfl
  | committed =>
    obtain ⟨logs, items, marks, fresh, undelivered, unmarked, changes⟩ := hl
    have act := @Delivers.grew ordered i d.deliveries logs items marks fresh
      undelivered unmarked
    have same : ({ d with db := d.db.after l }.release i).deliveries =
        { d.deliveries with rows := d.deliveries.rows.grow logs items marks } := by
      simp only [Data.deliveries, Data.release, changes d.db]
    exact ⟨same ▸ act, .nil⟩
  | marketInserted row e =>
    subst e
    obtain ⟨logs, items, marks, fresh, undelivered, unmarked, changes⟩ := hl
    have bot : ∀ e ∈ marks ++ [(row.id, row.watermark)], e.2 = ⊥ := by
      intro e he
      rcases List.mem_append.mp he with he | he
      · exact unmarked e he
      · obtain rfl := List.mem_singleton.mp he
        exact hs
    have act := @Delivers.grew ordered i d.deliveries logs items _ fresh
      undelivered bot
    have same : ({ d with db := (Write.insertMarket row).apply (d.db.after l) }.release i).deliveries =
        ⟨d.deliveries.rows.grow logs items (marks ++ [(row.id, row.watermark)]), d.deliveries.sent,
          d.deliveries.running⟩ := by
      have after := changes d.db
      simp only [Database.deliveryRows, DeliveryRows.grow, DeliveryRows.mk.injEq] at after
      simp [Data.deliveries, Data.release, Write.apply, Database.deliveryRows, DeliveryRows.grow, after]
    exact ⟨same ▸ act, .nil⟩
  | sent x sends => cases sends <;> exact False.elim hs
  | enqueued q =>
    have same : (d.enqueue i q).deliveries = d.deliveries := by
      simp only [Data.deliveries, Data.enqueue, List.map_map, Deliveries.mk.injEq, true_and]
      refine List.map_congr_left fun e _ => ?_
      simp only [Function.comp_apply]
      split <;> rfl
    exact ⟨same ▸ .stay _ _, hl⟩

end NewsNotifier

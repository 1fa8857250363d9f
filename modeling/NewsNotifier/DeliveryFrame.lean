import NewsNotifier.DeliveryProgress

namespace NewsNotifier

open KeyedRows

/-- What a log keeps from one state to a later one. -/
structure DeliveryLog.Advances (log log' : DeliveryLog) : Prop where
  id : log'.id = log.id
  newsItemIds : log'.newsItemIds = log.newsItemIds
  webhook : log.webhookDelivered = true → log'.webhookDelivered = true
  telegram : ∀ id ∈ log.telegramSentNewsItemIds, id ∈ log'.telegramSentNewsItemIds
  done : log.status = .success → log' = log

/-- A message that a later execution on the log may still send. -/
structure DeliveryLog.Owes (log : DeliveryLog) (s : Sent) : Prop where
  status : log.status ≠ .success
  webhook : ∀ sender url secret payload answer, s = .webhook sender url secret payload answer →
    log.webhookDelivered = false
  telegram : ∀ sender chat market news answer, s = .telegram sender chat market news answer →
    news.newsId ∉ log.telegramSentNewsItemIds

theorem DeliveryLog.Advances.refl (log : DeliveryLog) : log.Advances log :=
  ⟨rfl, rfl, fun h => h, fun _ h => h, fun _ => rfl⟩

theorem DeliveryLog.Advances.trans {log log' log'' : DeliveryLog} (h : log.Advances log')
    (h' : log'.Advances log'') : log.Advances log'' where
  id := h'.id.trans h.id
  newsItemIds := h'.newsItemIds.trans h.newsItemIds
  webhook hw := h'.webhook (h.webhook hw)
  telegram id hid := h'.telegram id (h.telegram id hid)
  done hs := by
    obtain rfl := h.done hs
    exact h'.done hs

theorem DeliveryLog.Advances.owes {log log' : DeliveryLog} (h : log.Advances log') {s : Sent}
    (owes : log'.Owes s) : log.Owes s where
  status hs := owes.status (h.done hs ▸ hs)
  webhook sender url secret payload answer e := by
    have := owes.webhook sender url secret payload answer e
    cases hw : log.webhookDelivered with
    | false => rfl
    | true => simp [h.webhook hw] at this
  telegram sender chat market news answer e mem :=
    owes.telegram sender chat market news answer e (h.telegram _ mem)

theorem Progress.advances {x : Deliveries} {log log' : DeliveryLog} (h : Progress x log log')
    (status : log.status ≠ .success) : log.Advances log' where
  id := h.head.1
  newsItemIds := h.head.2.2.2
  webhook hw := by
    rcases h.webhook with same | ⟨hw', _⟩
    · exact same.trans hw
    · exact hw'
  telegram id hid := by
    rcases h.telegram with same | ⟨new, eq, _⟩
    · exact same ▸ hid
    · exact eq ▸ List.mem_append_left _ hid
  done hs := absurd hs status

/-- What any run keeps: logs advance, and messages are sent only where they are owed. -/
structure Deliveries.Later (x y : Deliveries) : Prop where
  logs : ∀ log ∈ x.rows.logs, ∃ log' ∈ y.rows.logs, log.Advances log'
  sent : ∃ new, y.sent = x.sent ++ new ∧
    ∀ s ∈ new, ∀ log ∈ x.rows.logs, s.sender = .deliverBatch log.id → log.Owes s

namespace Deliveries.Later

variable {x y z : Deliveries}

theorem refl (x : Deliveries) : x.Later x :=
  ⟨fun log hl => ⟨log, hl, .refl log⟩, [], by simp, by simp⟩

theorem trans (h : x.Later y) (h' : y.Later z) : x.Later z := by
  constructor
  · intro log hl
    obtain ⟨log', hl', adv⟩ := h.logs log hl
    obtain ⟨log'', hl'', adv'⟩ := h'.logs log' hl'
    exact ⟨log'', hl'', adv.trans adv'⟩
  · obtain ⟨new, eq, owes⟩ := h.sent
    obtain ⟨new', eq', owes'⟩ := h'.sent
    refine ⟨new ++ new', by rw [eq', eq, List.append_assoc], ?_⟩
    intro s hs log hl sender
    rcases List.mem_append.mp hs with hs | hs
    · exact owes s hs log hl sender
    · obtain ⟨log', hl', adv⟩ := h.logs log hl
      exact adv.owes (owes' s hs log' hl' (adv.id ▸ sender))

end Deliveries.Later

namespace Delivers

variable {ordered : Prop} {a : Option JobId} {x y : Deliveries}

theorem later (h : Delivers ordered a x y) (unique : (x.rows.logs.map (·.id)).Nodup) : x.Later y := by
  have moved : ∀ {log : DeliveryLog} {c : DeliveryLog → DeliveryLog}, log ∈ x.rows.logs →
      log.Advances (c log) →
      ∀ log' ∈ x.rows.logs, ∃ log'' ∈ (x.rows.setLog log.id c).logs, log'.Advances log'' := by
    intro log c mem adv log' hl
    by_cases same : log'.id = log.id
    · obtain rfl := List.inj_on_of_nodup_map unique hl mem same
      exact ⟨_, (DeliveryRows.mem_setLog unique mem).mpr (.inl rfl), adv⟩
    · exact ⟨log', (DeliveryRows.mem_setLog unique mem).mpr (.inr ⟨hl, same⟩), .refl log'⟩
  have quiet : ∃ new, x.sent = x.sent ++ new ∧
      ∀ s ∈ new, ∀ log ∈ x.rows.logs, s.sender = .deliverBatch log.id → log.Owes s :=
    ⟨[], by simp, by simp⟩
  cases h with
  | stay | began | ended => exact ⟨fun log hl => ⟨log, hl, .refl log⟩, quiet⟩
  | grew => exact ⟨fun log hl => ⟨log, List.mem_append_left _ hl, .refl log⟩, quiet⟩
  | sent s log mem sender status due =>
    refine ⟨fun log hl => ⟨log, hl, .refl log⟩, [s], rfl, ?_⟩
    intro s' hs log' hl sender'
    obtain rfl := List.mem_singleton.mp hs
    obtain rfl : log' = log := by
      refine List.inj_on_of_nodup_map unique hl mem ?_
      rw [sender] at sender'
      exact (JobId.deliverBatch.inj sender').symm
    refine ⟨status, ?_, ?_⟩
    · rintro sender url secret payload answer rfl
      exact due
    · rintro sender chat market news answer rfl
      exact due.2
  | attempted log c mem status progress => exact ⟨moved mem (progress.advances status), quiet⟩
  | finished log c t newest mem status progress => exact ⟨moved mem (progress.advances status), quiet⟩

/-- A success is recorded with the webhook acknowledged and, where the execution has Telegram
enabled, every message acknowledged. -/
theorem success (h : Delivers ordered a x y) (unique : (x.rows.logs.map (·.id)).Nodup)
    (hx : ∀ log ∈ x.rows.logs, log.Inv x.sent) {log log' : DeliveryLog} (mem : log ∈ x.rows.logs)
    (status : log.status ≠ .success) (mem' : log' ∈ y.rows.logs) (id : log'.id = log.id)
    (status' : log'.status = .success) :
    (∃ s ∈ x.sent, s.acksWebhook log = true) ∧ (∃ e ∈ x.running, e.1 = .deliverBatch log.id) ∧
      ∀ e ∈ x.running, e.1 = .deliverBatch log.id → e.2 = true →
        ∀ o ∈ log.newsItemIds, ∃ s ∈ x.sent, s.acksTelegram log o = true := by
  have old : ∀ row ∈ x.rows.logs, row.id = log.id → row.status ≠ .success := by
    intro row hr e
    rwa [List.inj_on_of_nodup_map unique hr mem e]
  cases h with
  | stay | began | ended | sent => exact absurd status' (old log' mem' id)
  | grew logs items marks fresh =>
    rcases List.mem_append.mp mem' with mem' | mem'
    · exact absurd status' (old log' mem' id)
    · simp [(fresh log' mem').status] at status'
  | attempted row c memRow statusRow progress failed =>
    rcases (DeliveryRows.mem_setLog unique memRow).mp mem' with rfl | ⟨mem', _⟩
    · exact absurd status' failed
    · exact absurd status' (old log' mem' id)
  | finished row c t newest memRow statusRow progress webhook execution telegram =>
    rcases (DeliveryRows.mem_setLog unique memRow).mp mem' with rfl | ⟨mem', _⟩
    · obtain rfl := List.inj_on_of_nodup_map unique memRow mem (progress.head.1.symm.trans id)
      refine ⟨(hx row memRow).webhookAcked webhook, execution, fun e he key enabled o ho => ?_⟩
      exact (hx row memRow).telegramAcked o (telegram e he key enabled ▸ ho)
    · exact absurd status' (old log' mem' id)

end Delivers

/-- What the steps of the others keep for a delivery in progress. -/
structure Undisturbed (ordered : Prop) (i : JobId) (x y : Deliveries) : Prop where
  log : ∀ log ∈ x.rows.logs, i = .deliverBatch log.id → log ∈ y.rows.logs
  items : ∀ o ∈ x.rows.items, ∃ o' ∈ y.rows.items, o'.deliver = o.deliver
  market : ∀ e ∈ x.rows.marks, ∃ e' ∈ y.rows.marks, e'.1 = e.1
  watermark : ordered → ∀ m, x.rows.watermark m ≤ y.rows.watermark m
  sent : ∀ s ∈ x.sent, s ∈ y.sent
  running : ∀ e, e.1 = i → (e ∈ y.running ↔ e ∈ x.running)

namespace Undisturbed

variable {ordered : Prop} {i : JobId} {x y z : Deliveries}

theorem refl (x : Deliveries) : Undisturbed ordered i x x :=
  ⟨fun _ h _ => h, fun o h => ⟨o, h, rfl⟩, fun e h => ⟨e, h, rfl⟩, fun _ _ => le_rfl, fun _ h => h,
    fun _ _ => .rfl⟩

theorem trans (h : Undisturbed ordered i x y) (h' : Undisturbed ordered i y z) :
    Undisturbed ordered i x z where
  log row hr hi := h'.log row (h.log row hr hi) hi
  items o ho := by
    obtain ⟨o', ho', e⟩ := h.items o ho
    obtain ⟨o'', ho'', e'⟩ := h'.items o' ho'
    exact ⟨o'', ho'', e'.trans e⟩
  market e he := by
    obtain ⟨e', he', k⟩ := h.market e he
    obtain ⟨e'', he'', k'⟩ := h'.market e' he'
    exact ⟨e'', he'', k'.trans k⟩
  watermark ho m := (h.watermark ho m).trans (h'.watermark ho m)
  sent s hs := h'.sent s (h.sent s hs)
  running e hi := (h'.running e hi).trans (h.running e hi)

end Undisturbed

namespace Delivers

variable {ordered : Prop} {a : Option JobId} {i : JobId} {x y : Deliveries}

theorem watermark_le (h : Delivers ordered a x y) (ho : ordered) (m : Uuid) :
    x.rows.watermark m ≤ y.rows.watermark m := by
  cases h with
  | stay | began | ended | sent | attempted => exact le_rfl
  | grew logs items marks fresh undelivered unmarked =>
    exact (DeliveryRows.watermark_grow unmarked m).ge
  | finished log c t newest mem status progress webhook execution telegram status' deliveredAt market dates
      advance =>
    refine le_of_le_of_eq ?_ (DeliveryRows.watermark_mark fun _ => market).symm
    split
    next same =>
      subst same
      exact (le_max_left _ _).trans_eq (advance ho).symm
    next => exact le_rfl

theorem items_kept (h : Delivers ordered a x y) :
    ∀ o ∈ x.rows.items, ∃ o' ∈ y.rows.items, o'.deliver = o.deliver := by
  intro o ho
  cases h with
  | stay | began | ended | sent | attempted => exact ⟨o, ho, rfl⟩
  | grew => exact ⟨o, List.mem_append_left _ ho, rfl⟩
  | finished log =>
    refine ⟨_, DeliveryRows.mem_deliver.mpr ⟨o, ho, rfl⟩, ?_⟩
    split <;> rfl

theorem undisturbed (h : Delivers ordered a x y) (unique : (x.rows.logs.map (·.id)).Nodup)
    (ne : a ≠ some i) : Undisturbed ordered i x y := by
  have moved : ∀ {log : DeliveryLog} {c : DeliveryLog → DeliveryLog}, log ∈ x.rows.logs →
      some (JobId.deliverBatch log.id) ≠ some i → ∀ row ∈ x.rows.logs, i = .deliverBatch row.id →
        row ∈ (x.rows.setLog log.id c).logs := by
    intro log c mem ne row hr own
    refine (DeliveryRows.mem_setLog unique mem).mpr (.inr ⟨hr, fun e => ne ?_⟩)
    rw [own, e]
  refine ⟨?_, h.items_kept, ?_, h.watermark_le, ?_, ?_⟩
  · cases h with
    | stay | began | ended | sent => exact fun _ hr _ => hr
    | grew => exact fun _ hr _ => List.mem_append_left _ hr
    | attempted log c mem => exact moved mem ne
    | finished log c t newest mem => exact moved mem ne
  · cases h with
    | stay | began | ended | sent | attempted => exact fun e he => ⟨e, he, rfl⟩
    | grew => exact fun e he => ⟨e, List.mem_append_left _ he, rfl⟩
    | finished log c t =>
      refine fun e he => ⟨_, mem_update.mpr ⟨e, he, rfl⟩, ?_⟩
      split <;> rfl
  · cases h with
    | sent s => exact fun _ hs => List.mem_append_left _ hs
    | _ => exact fun _ hs => hs
  · cases h with
    | @began j =>
      have other : i ≠ j := fun e => ne (congrArg some e.symm)
      rintro ⟨k, on⟩ rfl
      simp [other]
    | @ended j =>
      have other : i ≠ j := fun e => ne (congrArg some e.symm)
      rintro ⟨k, on⟩ rfl
      simp [other]
    | _ => exact fun _ _ => .rfl

/-- A step of the others leaves a log as it was, or creates it. -/
theorem others_row (h : Delivers ordered a x y) (unique : (x.rows.logs.map (·.id)).Nodup) {id : Uuid}
    (ne : a ≠ some (.deliverBatch id)) {row : DeliveryLog} (mem : row ∈ y.rows.logs) (key : row.id = id) :
    row ∈ x.rows.logs ∨ row.Fresh := by
  have moved : ∀ {log : DeliveryLog} {c : DeliveryLog → DeliveryLog}, log ∈ x.rows.logs → (c log).id = log.id →
      some (JobId.deliverBatch log.id) ≠ some (.deliverBatch id) → row ∈ (x.rows.setLog log.id c).logs →
      row ∈ x.rows.logs := by
    intro log c old same ne mem
    rcases (DeliveryRows.mem_setLog unique old).mp mem with rfl | ⟨mem, _⟩
    · exact absurd (by rw [← key, same]) ne
    · exact mem
  cases h with
  | stay | began | ended | sent => exact .inl mem
  | grew logs items marks fresh =>
    rcases List.mem_append.mp mem with mem | mem
    · exact .inl mem
    · exact .inr (fresh row mem)
  | attempted log c old status progress => exact .inl (moved old progress.head.1 ne mem)
  | finished log c t newest old status progress => exact .inl (moved old progress.head.1 ne mem)

/-- A watermark moves with the success of a log of the market, to the newest date of its items. -/
theorem watermark_moved (h : Delivers ordered a x y) (unique : (x.rows.logs.map (·.id)).Nodup) {m : Uuid}
    (moved : y.rows.watermark m ≠ x.rows.watermark m) :
    ∃ log ∈ x.rows.logs, a = some (.deliverBatch log.id) ∧ log.marketId = m ∧ log.status ≠ .success ∧
      (∃ log' ∈ y.rows.logs, log'.id = log.id ∧ log'.status = .success) ∧ x.rows.Newest log (y.rows.watermark m) := by
  cases h with
  | stay | began | ended | sent | attempted => exact absurd rfl moved
  | grew logs items marks fresh undelivered unmarked =>
    exact absurd (DeliveryRows.watermark_grow unmarked m) moved
  | finished log c t newest mem status progress webhook execution telegram status' deliveredAt market dates advance
      wrote =>
    have after : (((x.rows.setLog log.id c).deliver log.newsItemIds).mark log.marketId t).watermark m = _ :=
      DeliveryRows.watermark_mark fun _ => market
    by_cases same : m = log.marketId
    · rw [if_pos same] at after
      by_cases none : t = ⊥
      · rw [if_pos none] at after
        exact absurd (same ▸ after) moved
      · rw [if_neg none] at after
        obtain rfl := wrote.resolve_left none
        refine ⟨log, mem, rfl, same.symm, status, ⟨c log, ?_, progress.head.1, status'⟩, ?_⟩
        · exact (DeliveryRows.mem_setLog unique mem).mpr (.inl rfl)
        · rw [after]
          exact dates
    · rw [if_neg same] at after
      exact absurd after moved

end Delivers

end NewsNotifier

import NewsNotifier.DeliveryGoverns

namespace NewsNotifier

open Interleaving

/-- What the committed rows say of a log's delivery at any time. -/
structure Resumable (d : Data) (log : DeliveryLog) : Prop where
  isPrefix : log.telegramSentNewsItemIds <+: log.newsItemIds
  nodup : log.telegramSentNewsItemIds.Nodup
  webhook : log.webhookDelivered = true → ∃ s ∈ d.sent, s.acksWebhook log = true
  telegram : ∀ id ∈ log.telegramSentNewsItemIds, ∃ s ∈ d.sent, s.acksTelegram log id = true
  success : log.status = .success → log.webhookDelivered = true
  deliveredAt : log.status = .success ↔ log.deliveredAt.isSome = true
  items : ∀ o ∈ d.db.items, o.id ∈ log.newsItemIds → (o.delivered = true ↔ log.status = .success)

theorem resumable_of_inv {d : Data} {ordered : Prop} (h : (deliveryContract ordered).inv d)
    {log : DeliveryLog} (mem : log ∈ d.db.logs) : Resumable d log := by
  have keyed := h.1.keyed
  have inv := h.2.logs log mem
  refine ⟨inv.telegram, ?_, inv.webhookAcked, inv.telegramAcked, inv.success, inv.deliveredAt, ?_⟩
  · exact (keyed.distinct log mem).sublist inv.telegram.sublist
  · intro o ho hid
    rw [h.2.items o ho]
    constructor
    · rintro ⟨log', hl', hs, hid'⟩
      obtain rfl := keyed.apart log mem log' hl' o.id hid hid'
      exact hs
    · exact fun hs => ⟨log, mem, hs, hid⟩

/-- Resumable delivery: what is recorded was acknowledged, success, `delivered_at` and the delivered
items appear together, no later execution sends again what is recorded or touches a success, and a
success needs every message acknowledged where its execution has Telegram enabled. -/
theorem delivery_resumes (lib : PyLib) {d₀ : Data} (h₀ : d₀.Initial) {w : NewsWorld}
    (h : Reachable (newsSys lib plainTask) d₀ w) :
    (∀ log ∈ w.data.db.logs, Resumable w.data log) ∧
    (∀ w', Steps (newsSys lib plainTask) w w' → ∃ new, w'.data.sent = w.data.sent ++ new ∧
      ∀ log ∈ w.data.db.logs, (∀ s ∈ new, s.sender = .deliverBatch log.id → log.Owes s) ∧
        (log.status = .success → log ∈ w'.data.db.logs)) ∧
    ∀ w', Step (newsSys lib plainTask) w w' → ∀ log ∈ w.data.db.logs, log.status ≠ .success →
      ∀ log' ∈ w'.data.db.logs, log'.id = log.id → log'.status = .success →
        (∃ s ∈ w.data.sent, s.acksWebhook log = true) ∧
        (∃ e ∈ w.data.redis.running, e.id = .deliverBatch log.id) ∧
        ∀ e ∈ w.data.redis.running, e.id = .deliverBatch log.id → e.cfg.telegramEnabled = true →
          ∀ id ∈ log.newsItemIds, ∃ s ∈ w.data.sent, s.acksTelegram log id = true := by
  have governs : (deliveryContract False).Governs (newsSys lib plainTask) := by
    have all : (deliveryContract False).Governs ((newsSys lib plainTask).restrict fun _ _ _ _ _ => true) :=
      deliveryContract_governs lib False.elim
    rwa [Sys.restrict_true] at all
  have sound := governs.sound h₀.deliveryInv h
  refine ⟨fun log hl => resumable_of_inv sound.data hl, ?_, ?_⟩
  · intro w' hw
    obtain ⟨_, later⟩ := governs.steps_ind (R := fun d d' => d.deliveries.Later d'.deliveries)
      (.refl _) .trans (fun hi act => act.2.later hi.1.keyed.logs) sound hw
    obtain ⟨new, eq, owes⟩ := later.sent
    refine ⟨new, eq, fun log hl => ⟨fun s hs sender => owes s hs log hl sender, fun done => ?_⟩⟩
    obtain ⟨log', hl', adv⟩ := later.logs log hl
    exact adv.done done ▸ hl'
  · intro w' hw log hl open_ log' hl' id done
    obtain ⟨_, a, act⟩ := governs.step sound hw
    have keyed := sound.data.1.keyed
    obtain ⟨webhook, ⟨e, he, own⟩, telegram⟩ :=
      act.2.success keyed.logs sound.data.2.logs hl open_ hl' id done
    obtain ⟨entry, mem, rfl⟩ := List.mem_map.mp he
    refine ⟨webhook, ⟨entry, mem, own⟩, fun e he own on => ?_⟩
    exact telegram _ (List.mem_map_of_mem he) own on

def telegramSettings : Settings :=
  { sampleSettings with telegramBotToken := some "b", telegramChatId := some "c" }

/-- A delivery killed after its webhook, taken up again and finished with Telegram. -/
def resumedSample : List NewsMove :=
  [.start (.call 3) (.job (.processCandidate 1 (sampleCandidate "b") none), sampleSettings)] ++
  execs sampleLib (sampleOracle "t") (.call 3) 13 ++
  [.start (.deliverBatch 4) (.job (.deliverBatch 4), telegramSettings)] ++
  execs sampleLib (sampleOracle "t") (.deliverBatch 4) 11 ++
  [.stop (.deliverBatch 4), .start (.deliverBatch 4) (.job (.deliverBatch 4), telegramSettings)] ++
  execs sampleLib (sampleOracle "t") (.deliverBatch 4) 16

theorem delivery_resumes_sample : ∃ w : NewsWorld,
    w.data.db.logs.map (fun log => (log.status, log.telegramSentNewsItemIds)) = [(.success, [2])] ∧
    w.data.sent.length = 2 ∧ ∀ log ∈ w.data.db.logs, Resumable w.data log := by
  have run : ((newsSys sampleLib plainTask).run sampleWorld resumedSample).map (fun w =>
      w.data.db.logs.map (fun log => (log.status, log.telegramSentNewsItemIds)) == [(.success, [2])] &&
        w.data.sent.length == 2) = some true := by
    decide +kernel
  obtain ⟨w, steps, hp⟩ := Sys.run_reaches run
  simp only [Bool.and_eq_true, beq_iff_eq] at hp
  exact ⟨w, hp.1, hp.2, (delivery_resumes sampleLib sampleData_initial steps).1⟩

end NewsNotifier

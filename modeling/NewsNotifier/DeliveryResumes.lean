import NewsNotifier.DeliveryAttempts

namespace NewsNotifier

open Interleaving KeyedRows

variable {lib : PyLib} {allow : Allows} {ordered : Prop} {i : JobId} {cfg : Settings} {market : Market}
  {items : List NewsItem} {row log : DeliveryLog} {l : List Write} {d : Data} {telegram : Bool}
  {c : DeliveryLog → DeliveryLog}

/-- A commit that records progress and leaves the log open. -/
theorem resumes_attempt {next : Unit → Program Unit}
    (at_ : Attempting ordered i telegram market items row d.deliveries) (effect : LogEffect l row.id c)
    (progress : ∀ x : Deliveries, (∀ s ∈ d.deliveries.sent, s ∈ x.sent) → Progress x row (c row))
    (status : (c row).status ≠ .success) (deliveredAt : (c row).deliveredAt = row.deliveredAt)
    (h : ∀ d' : Data, Attempting ordered i telegram market items (c row) d'.deliveries →
      Resumes lib allow ordered i (next ()) (fun _ _ _ => True) [] d') :
    Resumes lib allow ordered i (.stmt .commit next) (fun _ _ _ => True) l d := by
  refine resumes_commit effect.changes fun d' hu hi _ => ?_
  have at' := at_.undisturbed hu
  have kept := progress d'.deliveries hu.sent
  refine ⟨?_, fun d'' same => h d'' ?_⟩
  · have act := @Delivers.attempted ordered _ row c at'.mem at'.status kept status deliveredAt
    rwa [← at'.own] at act
  · rw [same]
    exact at'.commit hi.keyed.logs kept status

theorem recordFailure_resumes {channel : String} {statusCode : Option Int} {error : Option String}
    (at_ : Attempting ordered i telegram market items row d.deliveries) (effect : LogEffect l row.id c)
    (same : row.Same (c row)) (id : log.id = row.id) :
    Resumes lib allow ordered i (recordFailure cfg log channel statusCode error)
      (fun _ _ _ => True) l d := by
  rw [recordFailure, id]
  refine resumes_assign fun d₁ hu₁ => resumes_assign fun d₂ hu₂ => ?_
  have at₂ := (at_.undisturbed hu₁).undisturbed hu₂
  have effect₂ := (effect.assign (.statusCode statusCode)).assign
    (.error (some (failureText channel statusCode error)))
  split
  next =>
    refine resumes_assign fun d₃ hu₃ => ?_
    refine resumes_attempt (at₂.undisturbed hu₃) (effect₂.assign (.status .deadLetter)) ?_ ?_
      same.deliveredAt fun d' _ => resumes_ret fun _ => True.intro
    · exact fun x _ => ⟨same.head, .inl same.webhook, .inl same.telegram⟩
    · simp [LogChange.apply]
  next =>
    refine resumes_assign fun d₃ hu₃ => ?_
    refine resumes_attempt (at₂.undisturbed hu₃) (effect₂.assign (.status .failed)) ?_ ?_
      same.deliveredAt fun d' _ => resumes_raise
    · exact fun x _ => ⟨same.head, .inl same.webhook, .inl same.telegram⟩
    · simp [LogChange.apply]

/-- The loop that marks the items of a log as delivered. -/
theorem resumes_setDelivered {next : Unit → Program Unit} (items : List NewsItem)
    (h : ∀ d' : Data, Undisturbed ordered i d.deliveries d'.deliveries →
      Resumes lib allow ordered i (next ()) (fun _ _ _ => True)
        (l ++ items.map fun o => .setDelivered o.id) d') :
    Resumes lib allow ordered i
      ((Prog.forEach items fun item => await (.assign (.setDelivered item.id))).bind next)
      (fun _ _ _ => True) l d := by
  induction items generalizing l d with
  | nil =>
    have done := h d (.refl _)
    rwa [List.map_nil, List.append_nil] at done
  | cons item items ih =>
    refine resumes_assign fun d₁ hu₁ => ih fun d' hu => ?_
    simpa using h d' (hu₁.trans hu)

theorem stagedWatermark_mark (l : List Write) (m : Uuid) (t : Time) :
    stagedWatermark (l ++ [.setMarket m (.maxDeliveredPublishedAt t)]) m = some t := by
  simp [stagedWatermark]

/-- What a restricted run must give an `ordered` contract. -/
def KeepsOrder (ordered : Prop) (allow : Allows) : Prop :=
  ordered → ∀ i l d, allow i .commit () l d = true → writesNewest l d = true

theorem watermark_of_writesNewest {l : List Write} {d : Data} (h : writesNewest l d = true) {m : Uuid}
    {t : Time} (staged : stagedWatermark l m = some t)
    (known : ∃ e ∈ d.deliveries.rows.marks, e.1 = m) : d.deliveries.rows.watermark m ≤ t := by
  obtain ⟨e, he, rfl⟩ := known
  obtain ⟨market, mem, rfl⟩ := List.mem_map.mp he
  have ok := List.all_eq_true.mp h market mem
  simp only [show stagedWatermark l market.id = some t from staged, reaches_iff] at ok
  exact (watermark_deliveryRows d.db market.id).trans_le ok

/-- The columns that a success assigns. -/
def succeeded (c : DeliveryLog → DeliveryLog) (now : Time) (log : DeliveryLog) : DeliveryLog :=
  (LogChange.deliveredAt now).apply ((LogChange.error none).apply ((LogChange.status .success).apply (c log)))

theorem finishDelivery_resumes (order : KeepsOrder ordered allow)
    (at_ : Attempting ordered i telegram market items row d.deliveries) (effect : LogEffect l row.id c)
    (same : row.Same (c row)) (id : log.id = row.id) (webhook : row.webhookDelivered = true)
    (all : telegram = true → row.telegramSentNewsItemIds = row.newsItemIds) :
    Resumes lib allow ordered i (finishDelivery market log items) (fun _ _ _ => True) l d := by
  rw [finishDelivery, id]
  refine resumes_assign fun d₁ hu₁ => resumes_assign fun d₂ hu₂ => resumes_look rfl fun now d₃ hu₃ _ _ =>
    resumes_assign fun d₄ hu₄ => ?_
  simp only [Prog.ret_bind, Prog.bind_eq]
  refine resumes_setDelivered items fun d₅ hu₅ => ?_
  have at₅ := ((((at_.undisturbed hu₁).undisturbed hu₂).undisturbed hu₃).undisturbed hu₄).undisturbed hu₅
  have effect₅ : LogEffect _ row.id (succeeded c now) :=
    ((effect.assign (.status .success)).assign (.error none)).assign (.deliveredAt now)
  have changes₅ := effect₅.changes.deliver items
  simp only [at₅.ids] at changes₅
  have progress : ∀ x : Deliveries, Progress x row (succeeded c now row) :=
    fun x => ⟨same.head, .inl same.webhook, .inl same.telegram⟩
  -- one commit, with or without a watermark
  have finish : ∀ {l' : List Write} {d' : Data} {t : WithBot Time},
      Attempting ordered i telegram market items row d'.deliveries →
      Changes l' (fun r => ((r.setLog row.id (succeeded c now)).deliver row.newsItemIds).mark
        row.marketId t) →
      (∀ d'' : Data, Attempting ordered i telegram market items row d''.deliveries →
        allow i .commit () l' d'' = true → ordered →
        (if t = ⊥ then d''.deliveries.rows.watermark row.marketId else t) =
          max (d''.deliveries.rows.watermark row.marketId) (newestOf items : WithBot Time)) →
      (t = ⊥ ∨ t = (newestOf items : WithBot Time)) →
      Resumes lib allow ordered i (.stmt .commit fun _ => .ret ()) (fun _ _ _ => True) l' d' := by
    intro l' d' t at' changes advance wrote
    refine resumes_commit changes fun d'' hu hi ok => ⟨?_, fun _ _ => resumes_ret fun _ => True.intro⟩
    have at'' := at'.undisturbed hu
    have telegrams : ∀ e ∈ d''.deliveries.running, e.1 = JobId.deliverBatch row.id → e.2 = true →
        row.telegramSentNewsItemIds = row.newsItemIds :=
      fun e he key on => all (((at''.running e (key.trans at''.own.symm)).mp he).symm.trans on)
    have execution : ∃ e ∈ d''.deliveries.running, e.1 = JobId.deliverBatch row.id :=
      ⟨(i, telegram), (at''.running _ rfl).mpr rfl, at''.own⟩
    have act := @Delivers.finished ordered _ row (succeeded c now) t
      (newestOf items : WithBot Time) at''.mem
      at''.status (progress d''.deliveries) webhook execution telegrams rfl rfl at''.known (at''.newest hi.keyed)
      (advance d'' at'' ok) wrote
    rwa [← at''.own] at act
  split
  next none_ =>
    refine finish (t := ⊥) at₅ (by simpa only [DeliveryRows.mark_bot] using changes₅) ?_ (.inl rfl)
    intro d'' _ _ _
    rw [if_pos rfl, none_]
    exact (max_bot_right _).symm
  next newest some_ =>
    split
    next advances =>
      have changed : (MarketChange.maxDeliveredPublishedAt newest).apply market ≠ market := by
        intro e
        have stays : market.maxDeliveredPublishedAt = some newest := (congrArg Market.maxDeliveredPublishedAt e).symm
        simp [advancesWatermark, stays] at advances
      rw [assignMarket, if_neg changed]
      refine resumes_assign fun d₆ hu₆ => ?_
      have at₆ := at₅.undisturbed hu₆
      have changes₆ := changes₅.mark market.id newest
      rw [at₆.marketId] at changes₆
      rw [at₆.marketId]
      refine finish (t := (newest : WithBot Time)) at₆ changes₆ ?_ (.inr some_.symm)
      intro d'' at'' ok ho
      have le := watermark_of_writesNewest (order ho _ _ _ ok) (stagedWatermark_mark _ _ _) at''.known
      rw [if_neg (WithBot.coe_ne_bot), some_]
      exact (max_eq_right le).symm
    next stays =>
      refine finish (t := ⊥) at₅ (by simpa only [DeliveryRows.mark_bot] using changes₅) ?_ (.inl rfl)
      intro d'' at'' _ ho
      have le : (newest : WithBot Time) ≤ market.watermark := by
        cases hw : market.maxDeliveredPublishedAt with
        | none => simp [advancesWatermark, hw] at stays
        | some w =>
          simp only [advancesWatermark, hw, decide_eq_true_eq, not_lt] at stays
          rw [Market.watermark, hw]
          exact WithBot.coe_le_coe.mpr stays
      rw [if_pos rfl, some_]
      exact (max_eq_left (le.trans (at''.read ho))).symm

/-- A prefix that covers all before `a`, and not `a`, ends right before `a`. -/
theorem prefix_ends {α : Type} {sent done : List α} (a : α) (rest : List α) (nodup : (done ++ a :: rest).Nodup)
    (isPrefix : sent <+: done ++ a :: rest) (covers : ∀ x ∈ done, x ∈ sent) (new : a ∉ sent) :
    sent = done := by
  rcases List.prefix_or_prefix_of_prefix isPrefix (List.prefix_append done (a :: rest)) with h | h
  · obtain ⟨t, rfl⟩ := h
    cases t with
    | nil => simp
    | cons x t =>
      have mem := covers x (by simp)
      simp only [List.append_assoc, List.cons_append] at nodup
      exact absurd rfl ((List.nodup_append.mp nodup).2.2 x mem x (by simp))
  · obtain ⟨t, rfl⟩ := h
    cases t with
    | nil => simp
    | cons x t =>
      obtain ⟨u, hu⟩ := isPrefix
      simp only [List.append_assoc, List.append_cancel_left_eq, List.cons_append, List.cons.injEq] at hu
      exact absurd (by simp [hu.1]) new

theorem prefix_all {α : Type} {sent ids : List α} (nodup : ids.Nodup) (isPrefix : sent <+: ids)
    (covers : ∀ x ∈ ids, x ∈ sent) : sent = ids := by
  obtain ⟨t, rfl⟩ := isPrefix
  cases t with
  | nil => simp
  | cons x t =>
    exact absurd rfl ((List.nodup_append.mp nodup).2.2 x (covers x (by simp)) x (by simp))

theorem telegramLoop_resumes (order : KeepsOrder ordered allow) (nodup : (items.map (·.id)).Nodup)
    (rest : List NewsItem) (done : List Uuid)
    (at_ : Attempting ordered i telegram market items row d.deliveries) (effect : LogEffect l row.id c)
    (same : row.Same (c row)) (id : log.id = row.id) (webhook : row.webhookDelivered = true)
    (split_ : items.map (·.id) = done ++ rest.map (·.id))
    (isPrefix : row.telegramSentNewsItemIds <+: row.newsItemIds)
    (covers : ∀ x ∈ done, x ∈ row.telegramSentNewsItemIds) :
    Resumes lib allow ordered i
      (telegramLoop cfg market log items rest row.telegramSentNewsItemIds) (fun _ _ _ => True) l d := by
  induction rest generalizing row done l c d with
  | nil =>
    refine finishDelivery_resumes order at_ effect same id webhook fun _ => ?_
    have all : row.newsItemIds = done := by rw [← at_.ids, split_]; simp
    exact prefix_all (at_.ids ▸ nodup) isPrefix (all ▸ covers)
  | cons item rest ih =>
    rw [telegramLoop]
    have next : items.map (·.id) = (done ++ [item.id]) ++ rest.map (·.id) := by simp [split_]
    split
    next seen =>
      refine ih (done ++ [item.id]) at_ effect same id webhook next isPrefix fun x hx => ?_
      rcases List.mem_append.mp hx with hx | hx
      · exact covers x hx
      · exact List.mem_singleton.mp hx ▸ List.contains_iff_mem.mp seen
    next unseen =>
      have new : item.id ∉ row.telegramSentNewsItemIds := fun h => unseen (List.contains_iff_mem.mpr h)
      refine resumes_send (fun answer => .telegram i cfg.telegramChatId market.externalMarketId
        (newsPayload item) answer) (fun _ _ _ => rfl) fun answer d₁ hu₁ _ => ?_
      have at₁ := at_.undisturbed hu₁
      refine ⟨?_, fun d₂ same₂ => ?_⟩
      · have act := @Delivers.sent ordered _
          (.telegram i cfg.telegramChatId market.externalMarketId (newsPayload item) answer) row at₁.mem
          at₁.own at₁.status ⟨webhook, new⟩
        rwa [← at₁.own] at act
      have at₂ : Attempting ordered i telegram market items row d₂.deliveries := same₂ ▸ at₁.send _
      have mem₂ : Sent.telegram i cfg.telegramChatId market.externalMarketId (newsPayload item) answer ∈
          d₂.deliveries.sent := by
        rw [same₂]
        exact List.mem_append_right _ (List.mem_singleton_self _)
      simp only [Prog.ret_bind]
      split
      next => exact resumes_raise
      next statusCode error =>
        split
        next => exact recordFailure_resumes at₂ effect same id
        next sent_ =>
          rw [id]
          refine resumes_assign fun d₃ hu₃ => resumes_assign fun d₄ hu₄ => resumes_assign fun d₅ hu₅ => ?_
          have hu : Undisturbed ordered i d₂.deliveries d₅.deliveries := (hu₃.trans hu₄).trans hu₅
          have before : row.telegramSentNewsItemIds = done := by
            refine prefix_ends item.id (rest.map (·.id)) ?_ ?_ covers new
            · exact split_ ▸ nodup
            · rw [← at_.ids, split_] at isPrefix
              exact isPrefix
          have extends_ : row.telegramSentNewsItemIds ++ [item.id] <+: row.newsItemIds := by
            rw [before, ← at_.ids, next]
            exact List.prefix_append _ _
          have acked : (Sent.telegram i cfg.telegramChatId market.externalMarketId (newsPayload item)
              (.ok (statusCode, error))).acksTelegram row item.id = true := by
            simp [Sent.acksTelegram, at_.own, newsPayload, sent_]
          refine resumes_attempt (at₂.undisturbed hu) (((effect.assign (.telegramSentNewsItemIds
            (row.telegramSentNewsItemIds ++ [item.id]))).assign (.statusCode statusCode)).assign
              (.error none)) ?_ ?_ same.deliveredAt fun d₆ at₆ => ?_
          · exact fun x kept => ⟨same.head, .inl same.webhook,
              .inr ⟨item.id, rfl, extends_, _, kept _ (hu.sent _ mem₂), acked⟩⟩
          · exact same.status.trans_ne at₂.status
          · refine ih (done ++ [item.id]) at₆ (.nil _) ⟨⟨rfl, rfl, rfl, rfl⟩, rfl, rfl, rfl, rfl⟩ (id.trans same.head.1.symm)
              (same.webhook.trans webhook) next (same.head.2.2.2 ▸ extends_) fun x hx => ?_
            rcases List.mem_append.mp hx with hx | hx
            · exact List.mem_append_left _ (covers x hx)
            · exact List.mem_append_right _ hx

theorem deliverTelegram_resumes (order : KeepsOrder ordered allow) (nodup : (items.map (·.id)).Nodup)
    (at_ : Attempting ordered i cfg.telegramEnabled market items row d.deliveries)
    (effect : LogEffect l row.id c) (same : row.Same (c row)) (id : log.id = row.id)
    (sent : log.telegramSentNewsItemIds = row.telegramSentNewsItemIds)
    (webhook : row.webhookDelivered = true)
    (isPrefix : row.telegramSentNewsItemIds <+: row.newsItemIds) :
    Resumes lib allow ordered i (deliverTelegram cfg market log items) (fun _ _ _ => True) l d := by
  rw [deliverTelegram, sent]
  split
  next => exact telegramLoop_resumes order nodup items [] at_ effect same id webhook rfl isPrefix (by simp)
  next off => exact finishDelivery_resumes order at_ effect same id webhook fun on => absurd on off

theorem deliverWebhook_resumes (order : KeepsOrder ordered allow) (nodup : (items.map (·.id)).Nodup)
    {payload : WebhookPayload}
    (at_ : Attempting ordered i cfg.telegramEnabled market items row d.deliveries)
    (effect : LogEffect l row.id c) (same : row.Same (c row)) (id : log.id = row.id)
    (sent : log.telegramSentNewsItemIds = row.telegramSentNewsItemIds)
    (key : payload.batchId = row.batchId) (webhook : row.webhookDelivered = false)
    (isPrefix : row.telegramSentNewsItemIds <+: row.newsItemIds) :
    Resumes lib allow ordered i (deliverWebhook cfg market log items payload) (fun _ _ _ => True) l d := by
  refine resumes_look rfl fun found d₁ hu₁ _ _ => ?_
  simp only [Prog.ret_bind]
  cases found with
  | none => exact resumes_raise
  | some secret =>
    dsimp only
    refine resumes_send (fun answer => .webhook i market.callbackUrl secret payload answer)
      (fun _ _ _ => rfl) fun answer d₂ hu₂ _ => ?_
    have at₂ := (at_.undisturbed hu₁).undisturbed hu₂
    refine ⟨?_, fun d₃ same₃ => ?_⟩
    · have act := @Delivers.sent ordered _
        (.webhook i market.callbackUrl secret payload answer) row at₂.mem at₂.own at₂.status webhook
      rwa [← at₂.own] at act
    have at₃ : Attempting ordered i cfg.telegramEnabled market items row d₃.deliveries :=
      same₃ ▸ at₂.send _
    have mem₃ : Sent.webhook i market.callbackUrl secret payload answer ∈ d₃.deliveries.sent := by
      rw [same₃]
      exact List.mem_append_right _ (List.mem_singleton_self _)
    simp only [Prog.ret_bind]
    split
    next => exact resumes_raise
    next statusCode error =>
      split
      next => exact recordFailure_resumes at₃ effect same id
      next sent_ =>
        refine resumes_assign fun d₄ hu₄ => resumes_assign fun d₅ hu₅ => resumes_assign fun d₆ hu₆ => ?_
        have hu : Undisturbed ordered i d₃.deliveries d₆.deliveries := (hu₄.trans hu₅).trans hu₆
        rw [id]
        have acked : (Sent.webhook i market.callbackUrl secret payload
            (.ok (statusCode, error))).acksWebhook row = true := by
          simp [Sent.acksWebhook, at_.own, key, sent_]
        refine resumes_attempt (at₃.undisturbed hu) (((effect.assign .webhookDelivered).assign
          (.statusCode statusCode)).assign (.error none)) ?_ ?_ same.deliveredAt fun d₇ at₇ => ?_
        · exact fun x kept => ⟨same.head, .inr ⟨rfl, _, kept _ (hu.sent _ mem₃), acked⟩, .inl same.telegram⟩
        · exact same.status.trans_ne at₃.status
        · refine deliverTelegram_resumes order nodup at₇ (.nil _) ⟨⟨rfl, rfl, rfl, rfl⟩, rfl, rfl, rfl, rfl⟩
            (id.trans same.head.1.symm) (sent.trans same.telegram.symm) rfl ?_
          change (c row).telegramSentNewsItemIds <+: (c row).newsItemIds
          rw [same.telegram, same.head.2.2.2]
          exact isPrefix

theorem deliverBatch_resumes (order : KeepsOrder ordered allow) {logId : Uuid}
    (own : i = .deliverBatch logId)
    (running : ∀ e, e.1 = i → (e ∈ d.deliveries.running ↔ e.2 = cfg.telegramEnabled)) :
    Resumes lib allow ordered i (deliverBatch cfg logId) (fun _ _ _ => True) [] d := by
  refine resumes_look rfl fun log d₁ hu₁ _ hx₁ => ?_
  simp only [Prog.ret_bind]
  split
  next => exact resumes_ret fun _ => True.intro
  next log =>
    obtain ⟨ok₁, _, _⟩ := answered_eq hx₁
    obtain ⟨mem₁, rfl⟩ := key_of_find (of_decide_eq_true ok₁).symm
    split
    next => exact resumes_ret fun _ => True.intro
    next status =>
      refine resumes_look rfl fun market d₂ hu₂ _ hx₂ => ?_
      simp only [Prog.ret_bind]
      split
      next => exact resumes_ret fun _ => True.intro
      next market =>
        obtain ⟨ok₂, _, _⟩ := answered_eq hx₂
        have found₂ := (of_decide_eq_true ok₂).symm
        obtain ⟨mem₂, marketId⟩ := key_of_find found₂
        split
        next => exact resumes_ret fun _ => True.intro
        next =>
          refine resumes_look rfl fun fetched d₃ hu₃ hi₃ hx₃ => ?_
          obtain ⟨ok₃, _, _⟩ := answered_eq hx₃
          have perm := List.isPerm_iff.mp ok₃
          have mem₃ := (hu₂.trans hu₃).log log mem₁ own
          have keyed₃ := hi₃.keyed
          have all : ∀ id ∈ log.newsItemIds, ∃ o ∈ fetched, o.id = id := by
            intro id hid
            obtain ⟨o, ho, rfl⟩ := keyed₃.listed log mem₃ id hid
            exact ⟨o, perm.mem_iff.mpr (List.mem_filter.mpr ⟨ho, List.contains_iff_mem.mpr hid⟩), rfl⟩
          have ids := inOrder_ids all
          have stored : ∀ o ∈ inOrder log.newsItemIds fetched, o ∈ d₃.db.items := by
            intro o ho
            obtain ⟨id, _, found⟩ := List.mem_filterMap.mp ho
            exact List.mem_of_mem_filter (perm.mem_iff.mp (List.mem_of_find?_eq_some found))
          have at₃ : Attempting ordered i cfg.telegramEnabled market
              (inOrder log.newsItemIds fetched) log d₃.deliveries := {
            own := own
            mem := mem₃
            status := status
            marketId := marketId
            known := by
              obtain ⟨e, he, k⟩ := hu₃.market _ (List.mem_map_of_mem mem₂)
              exact ⟨e, he, k.trans marketId⟩
            read := fun ho => by
              refine le_trans (le_of_eq ?_) (hu₃.watermark ho log.marketId)
              refine Eq.trans ?_ (watermark_deliveryRows d₂.db log.marketId).symm
              rw [Database.watermarkOf, show d₂.db.market log.marketId = some market from found₂]
            ids := ids
            items := fun o ho => ⟨o, stored o ho, rfl⟩
            running := fun e hi => (((hu₁.trans hu₂).trans hu₃).running e hi).trans (running e hi) }
          have nodup : ((inOrder log.newsItemIds fetched).map (·.id)).Nodup := by
            rw [ids]
            exact keyed₃.distinct log mem₃
          refine resumes_look rfl fun now d₄ hu₄ _ _ => ?_
          refine wp_of_rely fun d₅ hr₅ hi₅ => ?_
          have at₅ := (at₃.undisturbed hu₄).undisturbed (undisturbed_of_rely hr₅)
          have isPrefix := (hi₅.2.logs log at₅.mem).telegram
          refine resumes_assign fun d₆ hu₆ => ?_
          have at₆ := at₅.undisturbed hu₆
          have effect := (LogEffect.nil log.id).assign (.attempt (log.attempt + 1))
          simp only [Prog.ret_bind]
          split
          next delivered =>
            exact deliverTelegram_resumes order nodup at₆ effect ⟨⟨rfl, rfl, rfl, rfl⟩, rfl, rfl, rfl, rfl⟩
              rfl rfl delivered isPrefix
          next owed =>
            exact deliverWebhook_resumes order nodup at₆ effect ⟨⟨rfl, rfl, rfl, rfl⟩, rfl, rfl, rfl, rfl⟩
              rfl rfl rfl (Bool.eq_false_iff.mpr owed) isPrefix

end NewsNotifier

import NewsNotifier.DeliveryProgram
import NewsNotifier.BatchSpecs

namespace NewsNotifier

open Interleaving

theorem inOrder_ids {ids : List Uuid} {fetched : List NewsItem}
    (h : ∀ id ∈ ids, ∃ o ∈ fetched, o.id = id) : (inOrder ids fetched).map (·.id) = ids := by
  induction ids with
  | nil => rfl
  | cons id ids ih =>
    obtain ⟨o, ho, e⟩ := h id (by simp)
    obtain ⟨found, hf⟩ : ∃ found, fetched.find? (·.id = id) = some found :=
      Option.isSome_iff_exists.mp (List.find?_isSome.mpr ⟨o, ho, by simpa using e⟩)
    have hid : found.id = id := by simpa using List.find?_some hf
    have rest := ih fun id' h' => h id' (List.mem_cons_of_mem _ h')
    simp only [inOrder] at rest ⊢
    simp [hf, hid, rest]

theorem Stmt.delivering.calm {s : Stmt} (h : s.delivering) : s.calm = true := by
  unfold Stmt.delivering at h
  split at h <;> first | rfl | exact h.elim

variable {lib : PyLib} {admits : Admits} {P : Policy} {i : JobId} {d : Data} {cfg : Settings}

/-- The items of a log are all there to be fetched. -/
theorem itemsIn_listed {log : DeliveryLog} {fetched : List NewsItem} {l' : List Write} {d' : Data}
    (hx : exec lib i (.itemsIn log.newsItemIds) fetched [] d = some (l', d'))
    (listing : Listing d.ledger.tables) (mem : log.head ∈ d.ledger.tables.logs) :
    ∀ id ∈ log.newsItemIds, ∃ o ∈ fetched, o.id = id := by
  intro id hid
  obtain ⟨ok, _, _⟩ := answered_eq hx
  have listed : id ∈ d.ledger.tables.listed := List.mem_flatMap.mpr ⟨log.head, mem, hid⟩
  obtain ⟨o, ho, e, _⟩ := listing.stored id listed
  obtain ⟨o', ho', rfl⟩ := List.mem_map.mp ho
  refine ⟨o', (List.isPerm_iff.mp ok).mem_iff.mpr (List.mem_filter.mpr ⟨ho', ?_⟩), e⟩
  subst e
  exact List.contains_iff_mem.mpr hid

/-- The delivery's promise: what it posts is what the log lists. -/
theorem deliverBatch_meets (logId : Uuid) :
    Meets lib admits P i (deliverBatch cfg logId) (fun _ l _ => Effect l id) [] d := by
  have telegram : ∀ {market log items l} {d' : Data}, Effect l id →
      Meets lib admits P i (deliverTelegram cfg market log items) (fun _ l _ => Effect l id) l d' :=
    fun effect => meets_calm_program (deliverTelegram_does (fun _ h => h.calm) (by simp [ledgerContract])
      (by simp [ledgerContract])) effect
  refine meets_quiet rfl fun log d₁ d₁' hf₁ _ hx₁ same₁ => ?_
  simp only [Prog.ret_bind]
  split
  next => exact meets_ret fun _ _ _ => .nil
  next log =>
    have mem₁ : log.head ∈ d₁'.ledger.tables.logs := by
      obtain ⟨ok, _, rfl⟩ := answered_eq hx₁
      exact List.mem_map_of_mem (List.mem_of_find?_eq_some (of_decide_eq_true ok).symm)
    split
    next => exact meets_ret fun _ _ _ => .nil
    next =>
      refine meets_quiet rfl fun market d₂ d₂' hf₂ _ _ same₂ => ?_
      simp only [Prog.ret_bind]
      split
      next => exact meets_ret fun _ _ _ => .nil
      next market =>
        split
        next => exact meets_ret fun _ _ _ => .nil
        next =>
          refine meets_quiet rfl fun fetched d₃ d₃' hf₃ hi₃ hx₃ same₃ => ?_
          have mem₃ : log.head ∈ d₃.ledger.tables.logs :=
            hf₃.tables.logs _ (same₂ ▸ hf₂.tables.logs _ mem₁)
          have ids : P.strict → (inOrder log.newsItemIds fetched).map (·.id) = log.newsItemIds :=
            fun strict => inOrder_ids (itemsIn_listed hx₃ (hi₃.listing strict) mem₃)
          refine meets_quiet rfl fun now d₄ d₄' hf₄ _ _ same₄ => ?_
          refine meets_assign fun d₅ hf₅ => ?_
          have hf : Frame P i d₃.ledger d₅.ledger :=
            (same₃ ▸ hf₄ : Frame P i d₃.ledger d₄.ledger).trans (same₄ ▸ hf₅)
          simp only [Prog.ret_bind]
          split
          next => exact telegram (Effect.nil.quiet rfl)
          next =>
            refine meets_quiet rfl fun secret d₆ d₆' hf₆ _ _ same₆ => ?_
            simp only [Prog.ret_bind]
            split
            next => exact meets_raise (by simp)
            next secret =>
              refine meets_sendWebhook (fun d₇ hf₇ _ strict => ?_) fun answer d₇ hf₇ => ?_
              · refine ⟨log.head, hf₇.tables.logs _ (same₆ ▸ hf₆.tables.logs _ (hf.tables.logs _ mem₃)), ?_⟩
                rw [List.map_map]
                exact congrArg _ (ids strict)
              · simp only [Prog.ret_bind]
                split
                next => exact meets_raise (by simp)
                next =>
                  split
                  next =>
                    exact meets_calm_program (recordFailure_does (fun _ h => h.calm) (by simp [ledgerContract]) _ _ _)
                      (Effect.nil.quiet rfl)
                  next =>
                    exact meets_calm_program ⟨rfl, fun _ => ⟨rfl, fun _ => ⟨rfl, fun _ => ⟨rfl, fun _ =>
                      deliverTelegram_does (fun _ h => h.calm) (by simp [ledgerContract]) (by simp [ledgerContract])⟩⟩⟩⟩
                      (Effect.nil.quiet rfl)

end NewsNotifier

import NewsNotifier.ExecutionTraces

namespace Interleaving

namespace Prog

variable {σ : Type} {ρ : σ → Type} {ε α : Type}

/-- The program asks these statements, is given these answers, and then ends: it returns or raises. -/
inductive Concludes : Prog σ ρ ε α → List (Said ρ) → Except ε α → Prop
  | ret (a : α) : Concludes (.ret a) [] (.ok a)
  | raise (e : ε) : Concludes (.raise e) [] (.error e)
  | stmt {s : σ} {next : ρ s → Prog σ ρ ε α} {said : List (Said ρ)} {out : Except ε α} (r : ρ s)
      (rest : Concludes (next r) said out) : Concludes (.stmt s next) (⟨s, r⟩ :: said) out

variable {p : Prog σ ρ ε α} {said : List (Said ρ)} {out : Except ε α} {A : List (Said ρ) → σ → Prop}

/-- What holds of all histories under any answers holds of one that has ended. -/
theorem Obeys.concludes {Q : List (Said ρ) → α → Prop} {F : List (Said ρ) → ε → Prop} {m : List (Said ρ)}
    (h : p.Obeys (Monitor.history (fun _ _ _ => True) A) Q F m) (run : Concludes p said out) :
    (∀ a, out = .ok a → Q (m ++ said) a) ∧ ∀ e, out = .error e → F (m ++ said) e := by
  induction run generalizing m with
  | ret a =>
    rw [List.append_nil]
    refine ⟨fun a' same => ?_, fun e same => (by cases same)⟩
    obtain rfl := Except.ok.inj same
    exact h
  | raise e =>
    rw [List.append_nil]
    refine ⟨fun a same => (by cases same), fun e' same => ?_⟩
    obtain rfl := Except.error.inj same
    exact h
  | stmt r rest ih =>
    have later := ih (h.2 r True.intro)
    rwa [Monitor.history, List.append_assoc, List.singleton_append] at later

/-- What a program tells, it tells of answers with which it ends. -/
theorem Tells.concludes {R : (s : σ) → ρ s → Prop} {Q : List (Said ρ) → α → Prop} {m : List (Said ρ)}
    (h : p.Tells R Q m) : p.Tells R (fun m' a => Q m' a ∧ ∃ said, m' = m ++ said ∧ Concludes p said (.ok a)) m := by
  induction p generalizing m with
  | ret a => exact ⟨h, [], (List.append_nil m).symm, .ret a⟩
  | raise e => exact True.intro
  | stmt s next ih =>
    refine ⟨True.intro, fun r hr => (ih r (h.2 r hr)).mono (fun m' a => ?_) fun _ _ h => h⟩
    rintro ⟨told, said, rfl, rest⟩
    exact ⟨told, ⟨s, r⟩ :: said, List.append_assoc .., .stmt r rest⟩

end Prog

end Interleaving

import Mathlib.Data.String.Basic
import Mathlib.Data.List.Forall2

namespace LetterCase

/-- The case data of the characters: the texts that they become, and the two properties that tell
where a word ends. -/
structure CaseTable where
  lowerChar : Char → List Char
  upperChar : Char → List Char
  cased : Char → Bool
  ignorable : Char → Bool

namespace CaseTable

variable (t : CaseTable)

/-- The next character that is not ignored is cased. -/
def besideCased (cs : List Char) : Bool := (cs.dropWhile t.ignorable).head?.any t.cased

/-- What one character becomes between `before`, read backwards, and `after`; of all characters the
capital sigma alone depends on them. -/
def lowerAt (before : List Char) (c : Char) (after : List Char) : List Char :=
  if c = 'Σ' then [if t.besideCased before && !t.besideCased after then 'ς' else 'σ'] else t.lowerChar c

def lowerFrom : List Char → List Char → List Char
  | _, [] => []
  | before, c :: cs => t.lowerAt before c cs ++ lowerFrom (c :: before) cs

/-- `str.lower`. -/
def lower (s : String) : String := String.ofList (t.lowerFrom [] s.toList)

/-- What holds of the case data of Unicode. -/
structure Lawful : Prop where
  fixed : ∀ c ≠ 'Σ', ∀ d ∈ t.lowerChar c, d ≠ 'Σ' ∧ t.lowerChar d = [d]
  sigma : t.lowerChar 'σ' = ['σ'] ∧ t.lowerChar 'ς' = ['ς']
  ascii : ∀ c, c.toNat < 128 → t.lowerChar c = [c.toLower]
  uncased : ∀ c, ∀ d ∈ t.lowerChar c, d.toNat < 128 → d.isAlpha = false → d = c
  nonempty : ∀ c, t.lowerChar c ≠ []
  classes : ∀ c d, t.lowerChar c = t.lowerChar d → t.cased c = t.cased d ∧ t.ignorable c = t.ignorable d

/-- Two letters with one lower-case form, which for the capital sigma only its neighbours tell. -/
def SameLetter (c d : Char) : Prop := c = d ∨ c ≠ 'Σ' ∧ d ≠ 'Σ' ∧ t.lowerChar c = t.lowerChar d

/-- One text is the other with some letters in their upper or lower case. -/
inductive Recased : List Char → List Char → Prop
  | nil : Recased [] []
  | cons {c : Char} {s cs ds : List Char} (form : s = [c] ∨ s = t.upperChar c ∨ s = t.lowerChar c)
      (rest : Recased cs ds) : Recased (c :: cs) (s ++ ds)

variable {t}

theorem lowerAt_of_ne {c : Char} (h : c ≠ 'Σ') (before after : List Char) :
    t.lowerAt before c after = t.lowerChar c := if_neg h

/-- Whatever stands beside it, a character becomes characters that stay as they are. -/
theorem Lawful.lowerAt_fixed (laws : t.Lawful) {before after : List Char} {c d : Char}
    (h : d ∈ t.lowerAt before c after) : d ≠ 'Σ' ∧ t.lowerChar d = [d] := by
  by_cases sigma : c = 'Σ'
  · subst sigma
    rw [lowerAt, if_pos rfl] at h
    obtain rfl := List.mem_singleton.mp h
    split
    · exact ⟨by decide, laws.sigma.2⟩
    · exact ⟨by decide, laws.sigma.1⟩
  · rw [lowerAt_of_ne sigma] at h
    exact laws.fixed c sigma d h

theorem mem_lowerFrom {cs before : List Char} {d : Char} (h : d ∈ t.lowerFrom before cs) :
    ∃ before c after, c ∈ cs ∧ d ∈ t.lowerAt before c after := by
  induction cs generalizing before with
  | nil => exact absurd h List.not_mem_nil
  | cons c cs ih =>
    rcases List.mem_append.mp h with h | h
    · exact ⟨before, c, cs, List.mem_cons_self, h⟩
    · obtain ⟨before', c', after, mem, found⟩ := ih h
      exact ⟨before', c', after, List.mem_cons_of_mem _ mem, found⟩

theorem lowerFrom_fixed {cs : List Char} (h : ∀ c ∈ cs, c ≠ 'Σ' ∧ t.lowerChar c = [c]) (before : List Char) :
    t.lowerFrom before cs = cs := by
  induction cs generalizing before with
  | nil => rfl
  | cons c cs ih =>
    obtain ⟨ne, same⟩ := h c List.mem_cons_self
    rw [lowerFrom, lowerAt_of_ne ne, same, ih fun d hd => h d (List.mem_cons_of_mem _ hd)]
    rfl

theorem Lawful.lower_idem (laws : t.Lawful) (s : String) : t.lower (t.lower s) = t.lower s := by
  have fixed : ∀ c ∈ t.lowerFrom [] s.toList, c ≠ 'Σ' ∧ t.lowerChar c = [c] := by
    intro c hc
    obtain ⟨before, c', after, _, found⟩ := mem_lowerFrom hc
    exact laws.lowerAt_fixed found
  rw [lower, lower, String.toList_ofList, lowerFrom_fixed fixed]

theorem Lawful.lower_ascii (laws : t.Lawful) {s : String} (h : ∀ c ∈ s.toList, c.toNat < 128) :
    t.lower s = String.ofList (s.toList.map Char.toLower) := by
  have chars : ∀ (cs before : List Char), (∀ c ∈ cs, c.toNat < 128) → t.lowerFrom before cs = cs.map Char.toLower := by
    intro cs
    induction cs with
    | nil => exact fun _ _ => rfl
    | cons c cs ih =>
      intro before small
      have one := small c List.mem_cons_self
      have ne : c ≠ 'Σ' := by
        rintro rfl
        exact absurd one (by decide)
      rw [lowerFrom, lowerAt_of_ne ne, laws.ascii c one, ih _ fun d hd => small d (List.mem_cons_of_mem _ hd)]
      rfl
  rw [lower, chars _ _ h]

/-- No ASCII delimiter is made of another character. -/
theorem Lawful.lower_uncased (laws : t.Lawful) {s : String} {d : Char} (h : d ∈ (t.lower s).toList)
    (small : d.toNat < 128) (uncased : d.isAlpha = false) : d ∈ s.toList := by
  rw [lower, String.toList_ofList] at h
  obtain ⟨before, c, after, mem, found⟩ := mem_lowerFrom h
  by_cases sigma : c = 'Σ'
  · subst sigma
    rw [lowerAt, if_pos rfl] at found
    obtain rfl := List.mem_singleton.mp found
    exfalso
    split at small
    · exact absurd small (by decide)
    · exact absurd small (by decide)
  · rw [lowerAt_of_ne sigma] at found
    exact laws.uncased c d found small uncased ▸ mem

theorem recased_upper (cs : List Char) : t.Recased cs (cs.flatMap t.upperChar) := by
  induction cs with
  | nil => exact .nil
  | cons c cs ih => exact .cons (.inr (.inl rfl)) ih

theorem Lawful.lower_eq_empty (laws : t.Lawful) {s : String} (h : t.lower s = "") : s = "" := by
  have none_ : t.lowerFrom [] s.toList = [] := by simpa [lower] using h
  cases cs : s.toList with
  | nil => simpa using cs
  | cons c cs' =>
    rw [cs, lowerFrom, List.append_eq_nil_iff] at none_
    by_cases sigma : c = 'Σ'
    · simp [lowerAt, sigma] at none_
    · rw [lowerAt_of_ne sigma] at none_
      exact absurd none_.1 (laws.nonempty c)

theorem Lawful.same_classes (laws : t.Lawful) {c d : Char} (h : t.SameLetter c d) :
    t.cased c = t.cased d ∧ t.ignorable c = t.ignorable d := by
  rcases h with rfl | ⟨_, _, same⟩
  · exact ⟨rfl, rfl⟩
  · exact laws.classes c d same

theorem Lawful.besideCased_same (laws : t.Lawful) {cs ds : List Char} (h : List.Forall₂ t.SameLetter cs ds) :
    t.besideCased cs = t.besideCased ds := by
  induction h with
  | nil => rfl
  | @cons c d cs ds same rest ih =>
    obtain ⟨cased, ignorable⟩ := laws.same_classes same
    simp only [besideCased, List.dropWhile_cons, ignorable] at ih ⊢
    split
    · exact ih
    · exact cased

theorem Lawful.lowerFrom_same (laws : t.Lawful) {cs ds before before' : List Char}
    (h : List.Forall₂ t.SameLetter cs ds) (beside : List.Forall₂ t.SameLetter before before') :
    t.lowerFrom before cs = t.lowerFrom before' ds := by
  induction h generalizing before before' with
  | nil => rfl
  | @cons c d cs ds same rest ih =>
    have first : t.lowerAt before c cs = t.lowerAt before' d ds := by
      rcases same with rfl | ⟨ne, ne', same⟩
      · rw [lowerAt, lowerAt, laws.besideCased_same beside, laws.besideCased_same rest]
      · rw [lowerAt_of_ne ne, lowerAt_of_ne ne', same]
    rw [lowerFrom, lowerFrom, first, ih (.cons same beside)]

/-- The lower-case text does not see the case of the letters. -/
theorem Lawful.lower_same (laws : t.Lawful) {s s' : String} (h : List.Forall₂ t.SameLetter s.toList s'.toList) :
    t.lower s = t.lower s' := congrArg String.ofList (laws.lowerFrom_same h .nil)

end CaseTable

end LetterCase

import Mathlib.Data.Set.Insert
import Mathlib.Tactic

namespace Library

namespace Preference

variable {A : Type} (better : A → A → Bool)
  {small large members : Set A} {items : List A} {best start final : A} {R : Type}

/-- Keep the held item unless the next one is better. -/
def keep (held : Option A) (next : A) : Option A :=
  match held with
  | none => some next
  | some held => if better next held then some next else some held

/-- Scan a list for its best item; earlier items win ties. -/
def select (items : List A) : Option A :=
  items.foldl (keep better) none

/-- No item of the set is better than this one. -/
def Unbeaten (members : Set A) (best : A) : Prop :=
  ∀ item ∈ members, better item best = false

/-- No three items of the set are each better than the next around a circle. -/
def Acyclic (members : Set A) : Prop :=
  ∀ a ∈ members, ∀ b ∈ members, ∀ c ∈ members,
    better a b = true → better b c = true → better c a = false

/-- Two different items of the set are never tied. -/
def Decisive (members : Set A) : Prop :=
  ∀ a ∈ members, ∀ b ∈ members, a ≠ b → better a b = true ∨ better b a = true

/-- No two items beat each other. -/
def Asymmetric : Prop :=
  ∀ a b, better a b = true → better b a = false

variable {better}

theorem keep_some (held next : A) :
    keep better (some held) next = some (if better next held then next else held) := by
  simp only [keep]
  split <;> rfl

theorem Acyclic.mono (acyclic : Acyclic better large) (inside : small ⊆ large) : Acyclic better small :=
  fun a ha b hb c hc => acyclic a (inside ha) b (inside hb) c (inside hc)

/-- Items that are compared by their images have no cycle where the images have none. -/
theorem Acyclic.comap {B : Type} {view : B → A} {items : Set B} (acyclic : Acyclic better members)
    (inside : ∀ item ∈ items, view item ∈ members) : Acyclic (fun a b => better (view a) (view b)) items :=
  fun a ha b hb c hc => acyclic (view a) (inside a ha) (view b) (inside b hb) (view c) (inside c hc)

theorem Decisive.mono (decisive : Decisive better large) (inside : small ⊆ large) : Decisive better small :=
  fun a ha b hb => decisive a (inside ha) b (inside hb)

theorem Unbeaten.mono (unbeaten : Unbeaten better large best) (inside : small ⊆ large) : Unbeaten better small best :=
  fun item member => unbeaten item (inside member)

/-- An unbeaten item of a decisive set beats every other one. -/
theorem Unbeaten.beats {item : A} (unbeaten : Unbeaten better members best) (decisive : Decisive better members)
    (bestIn : best ∈ members) (itemIn : item ∈ members) (different : item ≠ best) : better best item = true := by
  rcases decisive item itemIn best bestIn different with wins | loses
  · rw [unbeaten item itemIn] at wins
    exact Bool.noConfusion wins
  · exact loses

/-- A decisive set has at most one unbeaten item. -/
theorem Unbeaten.unique {first second : A} (decisive : Decisive better members)
    (firstBest : Unbeaten better members first) (secondBest : Unbeaten better members second)
    (firstIn : first ∈ members) (secondIn : second ∈ members) : first = second := by
  by_contra different
  have wins := firstBest.beats decisive firstIn secondIn (Ne.symm different)
  rw [secondBest first firstIn] at wins
  exact Bool.noConfusion wins

/-- The better of an unbeaten item and a new one is unbeaten. -/
theorem Unbeaten.challenge {challenger : A} (asymmetric : Asymmetric better) (decisive : Decisive better members)
    (acyclic : Acyclic better (insert challenger members)) (bestIn : best ∈ members)
    (unbeaten : Unbeaten better members best) :
    Unbeaten better (insert challenger members)
      (if better challenger best then challenger else best) := by
  split
  · next wins =>
      rintro item (rfl | member)
      · by_contra self
        rw [Bool.not_eq_false] at self
        rw [asymmetric item item self] at self
        exact Bool.noConfusion self
      · by_contra beaten
        rw [Bool.not_eq_false] at beaten
        by_cases same : item = best
        · subst same
          rw [asymmetric challenger item wins] at beaten
          exact Bool.noConfusion beaten
        · have around := unbeaten.beats decisive bestIn member same
          rw [acyclic item (.inr member) challenger (.inl rfl) best (.inr bestIn) beaten wins] at around
          exact Bool.noConfusion around
  · next loses =>
      rintro item (rfl | member)
      · simpa using loses
      · exact unbeaten item member

/-- Rescanning after a challenge: the fold keeps an unbeaten item of what it has seen. -/
theorem foldl_keep_unbeaten (asymmetric : Asymmetric better) (seen : Set A) (best : A) (items : List A)
    (bestIn : best ∈ seen) (unbeaten : Unbeaten better seen best)
    (decisive : Decisive better (seen ∪ {item | item ∈ items}))
    (acyclic : Acyclic better (seen ∪ {item | item ∈ items})) :
    ∃ final ∈ seen ∪ {item | item ∈ items}, items.foldl (keep better) (some best) = some final ∧
      Unbeaten better (seen ∪ {item | item ∈ items}) final := by
  induction items generalizing seen best with
  | nil => exact ⟨best, .inl bestIn, rfl, by simpa using unbeaten⟩
  | cons next rest ih =>
    have regroup : seen ∪ {item | item ∈ next :: rest} = insert next seen ∪ {item | item ∈ rest} := by
      ext item
      simp only [Set.mem_union, Set.mem_ofPred_eq, List.mem_cons, Set.mem_insert_iff]
      tauto
    rw [regroup] at decisive acyclic ⊢
    have challenged := unbeaten.challenge asymmetric
      (decisive.mono (Set.Subset.trans (Set.subset_insert next seen) Set.subset_union_left))
      (acyclic.mono Set.subset_union_left) bestIn
    rw [List.foldl_cons, keep_some]
    apply ih (insert next seen) _ _ challenged decisive acyclic
    split
    · exact .inl rfl
    · exact .inr bestIn

/-- What the scan keeps is one of the items it saw. -/
theorem foldl_keep_mem (selected : items.foldl (keep better) (some start) = some final) :
    final = start ∨ final ∈ items := by
  induction items generalizing start with
  | nil => exact .inl (Option.some.inj selected).symm
  | cons next rest ih =>
    rw [List.foldl_cons, keep_some] at selected
    rcases ih selected with rfl | member
    · split
      · exact .inr (by simp)
      · exact .inl rfl
    · exact .inr (List.mem_cons_of_mem _ member)

/-- A scan returns an item of the list. -/
theorem select_mem (selected : select better items = some final) : final ∈ items := by
  cases items with
  | nil => cases selected
  | cons first rest =>
    rcases foldl_keep_mem selected with rfl | member
    · simp
    · exact List.mem_cons_of_mem _ member

theorem foldl_keep_some (better : A → A → Bool) (start : A) (items : List A) :
    ∃ final, items.foldl (keep better) (some start) = some final := by
  induction items generalizing start with
  | nil => exact ⟨start, rfl⟩
  | cons next rest ih =>
    rw [List.foldl_cons, keep_some]
    exact ih _

/-- A fold whose preference follows a rank never loses rank. -/
theorem foldl_keep_rank [LinearOrder R] {rank : A → R} (follows : ∀ a b, better a b = true → rank b ≤ rank a)
    (prefers : ∀ a b, rank b < rank a → better a b = true)
    (selected : items.foldl (keep better) (some start) = some final) :
    rank start ≤ rank final ∧ ∀ item ∈ items, rank item ≤ rank final := by
  induction items generalizing start with
  | nil =>
    cases selected
    exact ⟨le_refl _, fun item absent => nomatch absent⟩
  | cons next rest ih =>
    rw [List.foldl_cons, keep_some] at selected
    obtain ⟨held, others⟩ := ih selected
    have both : rank start ≤ rank final ∧ rank next ≤ rank final := by
      by_cases wins : better next start = true
      · rw [if_pos wins] at held
        exact ⟨(follows next start wins).trans held, held⟩
      · rw [if_neg wins] at held
        have order : rank next ≤ rank start := le_of_not_gt fun higher => wins (prefers next start higher)
        exact ⟨held, order.trans held⟩
    refine ⟨both.1, fun item member => ?_⟩
    rcases List.mem_cons.mp member with rfl | later
    · exact both.2
    · exact others item later

/-- A scan whose preference follows a rank returns an item of the highest rank. -/
theorem select_rank [LinearOrder R] (rank : A → R) (follows : ∀ a b, better a b = true → rank b ≤ rank a)
    (prefers : ∀ a b, rank b < rank a → better a b = true) (selected : select better items = some final) :
    ∀ item ∈ items, rank item ≤ rank final := by
  cases items with
  | nil =>
    intro item absent
    cases absent
  | cons first rest =>
    obtain ⟨held, others⟩ := foldl_keep_rank follows prefers selected
    intro item member
    rcases List.mem_cons.mp member with rfl | later
    · exact held
    · exact others item later

/-- Only the empty list has no best item. -/
theorem select_eq_none_iff : select better items = none ↔ items = [] := by
  cases items with
  | nil => simp [select]
  | cons first rest =>
    obtain ⟨final, selected⟩ := foldl_keep_some better first rest
    have found : select better (first :: rest) = some final := selected
    simp [found]

/-- Without a preference cycle the scan finds an unbeaten item, whatever the order of the list. -/
theorem select_unbeaten (asymmetric : Asymmetric better) (decisive : Decisive better {item | item ∈ items})
    (acyclic : Acyclic better {item | item ∈ items}) (selected : select better items = some final) :
    Unbeaten better {item | item ∈ items} final := by
  cases items with
  | nil => cases selected
  | cons first rest =>
    have regroup : {item | item ∈ first :: rest} = ({first} : Set A) ∪ {item | item ∈ rest} := by
      ext item
      simp only [Set.mem_ofPred_eq, List.mem_cons, Set.mem_union, Set.mem_singleton_iff]
    rw [regroup] at decisive acyclic ⊢
    have alone : Unbeaten better {first} first := by
      rintro item rfl
      by_contra self
      rw [Bool.not_eq_false] at self
      rw [asymmetric item item self] at self
      exact Bool.noConfusion self
    obtain ⟨last, -, found, unbeaten⟩ :=
      foldl_keep_unbeaten asymmetric {first} first rest rfl alone decisive acyclic
    have same : some last = some final := found.symm.trans selected
    cases same
    exact unbeaten

end Preference

end Library

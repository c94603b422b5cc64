import Mathlib.Data.List.Forall2
import Mathlib.Data.List.Induction

/-!
# Items after those before them

Pairs every item of a list with the list of those before it. What a pass over a list
says of an item often depends on the earlier ones; with this pairing it is a function
of one pair, and the pass is a `flatMap` or a `filterMap`.
-/

namespace OberonModules

variable {α : Type u} {earlier : List α}

/-- Every item with those before it, where `earlier` come before all. -/
def withEarlier (earlier : List α) : List α → List (List α × α)
  | [] => []
  | item :: rest => (earlier, item) :: withEarlier (earlier ++ [item]) rest

@[simp] theorem withEarlier_nil (earlier : List α) : withEarlier earlier [] = [] := rfl

@[simp] theorem withEarlier_cons (earlier : List α) (item : α) (rest : List α) :
    withEarlier earlier (item :: rest) = (earlier, item) :: withEarlier (earlier ++ [item]) rest :=
  rfl

theorem withEarlier_append (earlier first second : List α) :
    withEarlier earlier (first ++ second) =
      withEarlier earlier first ++ withEarlier (earlier ++ first) second := by
  induction first generalizing earlier with
  | nil => simp
  | cons item first ih => simp [ih]

theorem withEarlier_map (f : α → β) (earlier items : List α) :
    withEarlier (earlier.map f) (items.map f) =
      (withEarlier earlier items).map fun pair => (pair.1.map f, f pair.2) := by
  induction items generalizing earlier with
  | nil => rfl
  | cons item items ih =>
    have htail := ih (earlier ++ [item])
    rw [List.map_append, List.map_singleton] at htail
    simp [htail]

theorem flatMap_withEarlier_map (f : α → β) (g : List β × β → List γ) (items : List α) :
    (withEarlier [] (items.map f)).flatMap g =
      (withEarlier [] items).flatMap fun pair => g (pair.1.map f, f pair.2) := by
  have hpairs := withEarlier_map f [] items
  rw [List.map_nil] at hpairs
  rw [hpairs, List.flatMap_map]

@[simp] theorem map_snd_withEarlier (earlier items : List α) :
    (withEarlier earlier items).map Prod.snd = items := by
  induction items generalizing earlier with
  | nil => rfl
  | cons item items ih => simp [ih]

theorem mem_of_mem_withEarlier {items : List α} {pair : List α × α}
    (h : pair ∈ withEarlier earlier items) : pair.2 ∈ items := by
  rw [← map_snd_withEarlier earlier items]
  exact List.mem_map_of_mem h

theorem mem_withEarlier_iff {items before : List α} {item : α} :
    (before, item) ∈ withEarlier earlier items ↔
      ∃ first rest, items = first ++ item :: rest ∧ before = earlier ++ first := by
  induction items generalizing earlier with
  | nil => simp
  | cons head items ih =>
    simp only [withEarlier_cons, List.mem_cons, Prod.mk.injEq, ih]
    constructor
    · rintro (⟨rfl, rfl⟩ | ⟨first, rest, rfl, rfl⟩)
      · exact ⟨[], items, rfl, by simp⟩
      · exact ⟨head :: first, rest, rfl, by simp⟩
    · rintro ⟨first, rest, h, rfl⟩
      cases first with
      | nil =>
        cases h
        exact .inl ⟨by simp, rfl⟩
      | cons _ first =>
        cases h
        exact .inr ⟨first, rest, rfl, by simp⟩

/-- Of two items of a list, the earlier one is among those before the later one, in its place. -/
theorem pairwise_withEarlier (earlier items : List α) :
    (withEarlier earlier items).Pairwise fun first second =>
      ∃ between, second.1 = first.1 ++ first.2 :: between := by
  induction items generalizing earlier with
  | nil => exact .nil
  | cons item items ih =>
    refine .cons ?_ (ih (earlier ++ [item]))
    rintro ⟨before, later⟩ hm
    obtain ⟨between, -, -, rfl⟩ := mem_withEarlier_iff.mp hm
    exact ⟨between, by simp⟩

/-- What is chosen by position goes on after one more item. -/
theorem shift_concat {β : Type*} (choice : Nat → β) (before : List α) (item : α) :
    (fun position => choice (before.length + (position + 1))) =
      fun position => choice ((before ++ [item]).length + position) := by
  funext position
  rw [List.length_append, List.length_singleton, Nat.add_assoc, Nat.add_comm 1]

variable {β γ : Type*} {R : β → γ → Prop}

/-- A pass that gives something for every item gives it in the order of the items. -/
theorem forall₂_filterMap_withEarlier {f : α → β} {g : List α × α → Option γ} {items : List α}
    (h : ∀ pair ∈ withEarlier earlier items, ∃ result, g pair = some result ∧ R (f pair.2) result) :
    List.Forall₂ R (items.map f) ((withEarlier earlier items).filterMap g) := by
  induction items generalizing earlier with
  | nil => exact .nil
  | cons item items ih =>
    obtain ⟨result, hg, hr⟩ := h (earlier, item) List.mem_cons_self
    rw [withEarlier_cons, List.filterMap_cons_some hg, List.map_cons]
    exact .cons hr (ih fun pair hm => h pair (List.mem_cons_of_mem _ hm))

theorem forall₂_flatMap_withEarlier {f : α → List β} {g : List α × α → List γ} {items : List α}
    (h : ∀ pair ∈ withEarlier earlier items, List.Forall₂ R (f pair.2) (g pair)) :
    List.Forall₂ R (items.flatMap f) ((withEarlier earlier items).flatMap g) := by
  induction items generalizing earlier with
  | nil => exact .nil
  | cons item items ih =>
    rw [withEarlier_cons, List.flatMap_cons, List.flatMap_cons]
    exact List.rel_append (h (earlier, item) List.mem_cons_self)
      (ih fun pair hm => h pair (List.mem_cons_of_mem _ hm))

theorem sublistForall₂_append {S : γ → β → Prop} {a a' : List γ} {b b' : List β}
    (h : List.SublistForall₂ S a b) (h' : List.SublistForall₂ S a' b') :
    List.SublistForall₂ S (a ++ a') (b ++ b') := by
  obtain ⟨kept, hr, hs⟩ := List.sublistForall₂_iff.mp h
  obtain ⟨kept', hr', hs'⟩ := List.sublistForall₂_iff.mp h'
  exact List.sublistForall₂_iff.mpr ⟨kept ++ kept', List.rel_append hr hr', hs.append hs'⟩

/-- A pass that gives something for some of the items gives it in the order of the items. -/
theorem sublistForall₂_filterMap_withEarlier {S : γ → β → Prop} {f : α → β}
    {g : List α × α → Option γ} {items : List α}
    (h : ∀ pair ∈ withEarlier earlier items, ∀ result, g pair = some result →
      S result (f pair.2)) :
    List.SublistForall₂ S ((withEarlier earlier items).filterMap g) (items.map f) := by
  induction items generalizing earlier with
  | nil => exact .nil
  | cons item items ih =>
    have htail := ih fun pair hm => h pair (List.mem_cons_of_mem _ hm)
    cases hg : g (earlier, item) with
    | none => simpa [hg] using htail.cons_right
    | some result =>
      rw [withEarlier_cons, List.filterMap_cons_some hg, List.map_cons]
      exact .cons (h _ List.mem_cons_self result hg) htail

theorem sublistForall₂_flatMap_withEarlier {S : γ → β → Prop} {f : α → List β}
    {g : List α × α → List γ} {items : List α}
    (h : ∀ pair ∈ withEarlier earlier items, List.SublistForall₂ S (g pair) (f pair.2)) :
    List.SublistForall₂ S ((withEarlier earlier items).flatMap g) (items.flatMap f) := by
  induction items generalizing earlier with
  | nil => exact .nil
  | cons item items ih =>
    rw [withEarlier_cons, List.flatMap_cons, List.flatMap_cons]
    exact sublistForall₂_append (h (earlier, item) List.mem_cons_self)
      (ih fun pair hm => h pair (List.mem_cons_of_mem _ hm))

/-- A relation holds along a list if it holds of every item and each one before it. -/
theorem pairwise_iff_withEarlier {R : α → α → Prop} {items : List α} :
    items.Pairwise R ↔ ∀ pair ∈ withEarlier [] items, ∀ other ∈ pair.1, R other pair.2 := by
  constructor
  · rintro h ⟨before, item⟩ hm other ho
    obtain ⟨first, rest, rfl, rfl⟩ := mem_withEarlier_iff.mp hm
    exact (List.pairwise_append.mp h).2.2 other ho item List.mem_cons_self
  · intro h
    induction items using List.reverseRecOn with
    | nil => exact .nil
    | append_singleton items item ih =>
      rw [withEarlier_append] at h
      refine List.pairwise_append.mpr ⟨ih fun pair hm => h pair (List.mem_append_left _ hm),
        List.pairwise_singleton R item, ?_⟩
      intro other ho last hl
      rw [List.mem_singleton.mp hl]
      exact h (items, item) (List.mem_append_right _ (by simp)) other ho

end OberonModules

import Mathlib.Data.List.Forall2

/-!
# Lists side by side

Lists whose elements are related one by one.
-/

namespace SideBySide

theorem exists_of_forall₂ {α β : Type} {R : α → β → Prop} {xs : List α} {ys : List β}
    (h : List.Forall₂ R xs ys) {x : α} (hx : x ∈ xs) : ∃ y ∈ ys, R x y := by
  induction h with
  | nil => cases hx
  | @cons x' y xs ys hxy _ ih =>
    rcases List.mem_cons.mp hx with rfl | hx
    · exact ⟨y, List.mem_cons_self, hxy⟩
    · obtain ⟨y, hy, hR⟩ := ih hx
      exact ⟨y, List.mem_cons_of_mem _ hy, hR⟩

theorem map_eq_of_forall₂ {α β γ : Type} {R : α → β → Prop} {f : α → γ} {g : β → γ} {xs : List α}
    {ys : List β} (h : List.Forall₂ R xs ys) (hfg : ∀ x ∈ xs, ∀ y, R x y → f x = g y) :
    xs.map f = ys.map g := by
  induction h with
  | nil => rfl
  | @cons x y xs ys hxy _ ih =>
    rw [List.map_cons, List.map_cons, hfg x List.mem_cons_self y hxy,
      ih fun x hx => hfg x (List.mem_cons_of_mem _ hx)]

theorem forall₂_of_map_eq {α β γ : Type} {f : α → γ} {g : β → γ} {xs : List α} {ys : List β}
    (h : xs.map f = ys.map g) : List.Forall₂ (fun x y => f x = g y) xs ys := by
  rw [← List.forall₂_map_left_iff (R := fun c y => c = g y), h, List.forall₂_map_left_iff]
  exact List.forall₂_same.mpr fun y _ => rfl

/-- Parts that are related to the parts of a list, each as a whole. -/
theorem forall₂_flatMap {α β : Type} {R : α → β → Prop} {f : List β → List α}
    (h : ∀ ys, List.Forall₂ R (f ys) ys) (parts : List (List β)) :
    List.Forall₂ R (parts.flatMap f) parts.flatten := by
  induction parts with
  | nil => exact .nil
  | cons ys parts ih =>
    rw [List.flatMap_cons, List.flatten_cons]
    exact List.rel_append (h ys) ih

/-- Prefixes one after the other are part of the lists one after the other. -/
theorem flatten_sublist_of_prefixes {α : Type} {xss yss : List (List α)}
    (h : List.Forall₂ (· <+: ·) xss yss) : xss.flatten.Sublist yss.flatten := by
  induction h with
  | nil => exact .slnil
  | cons hhead _ ih => exact hhead.sublist.append ih

/-- Prefixes of what a function makes of lists are what it makes of prefixes. -/
theorem exists_prefixes_of_map {α β γ : Type} {f : α → β} {all : γ → List α} {parts : List (List β)}
    {xs : List γ} (h : List.Forall₂ (fun part x => part <+: (all x).map f) parts xs) :
    ∃ parts' : List (List α), List.Forall₂ (fun part x => part <+: all x) parts' xs ∧
      parts'.map (List.map f) = parts := by
  induction h with
  | nil => exact ⟨[], .nil, rfl⟩
  | @cons part x parts xs hpart _ ih =>
    obtain ⟨parts', hparts', rfl⟩ := ih
    obtain ⟨part', hpart', rfl⟩ := List.prefix_map_iff.mp hpart
    exact ⟨part' :: parts', .cons hpart' hparts', rfl⟩

end SideBySide

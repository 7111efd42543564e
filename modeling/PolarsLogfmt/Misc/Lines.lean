import Mathlib

/-!
# Cutting a list after each delimiter

`Lines.split` cuts a list after every delimiter, the delimiter staying with the
piece it ends: the pieces a reader that stops at each delimiter hands out one
after the other. `Lines.Whole` says that a list was cut into parts at such
places only; the pieces of the parts are then the pieces of the whole
(`Lines.split_flatten`).
-/

namespace Lines

variable {α : Type} [DecidableEq α]

/-- The pieces of a list cut after each `delim`; the last one may lack it. -/
def split (delim : α) : List α → List (List α)
  | [] => []
  | a :: rest =>
      if a = delim then [a] :: split delim rest
      else
        match split delim rest with
        | [] => [[a]]
        | piece :: pieces => (a :: piece) :: pieces

@[simp] theorem split_nil (delim : α) : split delim [] = [] := rfl

theorem split_cons_self (delim : α) (rest : List α) :
    split delim (delim :: rest) = [delim] :: split delim rest := by
  simp [split]

theorem split_cons_ne {delim a : α} (ha : a ≠ delim) (rest : List α) :
    split delim (a :: rest) =
      match split delim rest with
      | [] => [[a]]
      | piece :: pieces => (a :: piece) :: pieces := by
  simp [split, ha]

theorem split_eq_nil {delim : α} {xs : List α} : split delim xs = [] ↔ xs = [] := by
  cases xs with
  | nil => simp
  | cons a rest =>
    by_cases ha : a = delim
    · simp [split, ha]
    · rw [split_cons_ne ha]
      cases split delim rest <;> simp

@[simp] theorem flatten_split (delim : α) (xs : List α) : (split delim xs).flatten = xs := by
  induction xs with
  | nil => rfl
  | cons a rest ih =>
    by_cases ha : a = delim
    · subst ha
      simp [split_cons_self, ih]
    · rw [split_cons_ne ha]
      cases hs : split delim rest with
      | nil => simp [split_eq_nil.mp hs]
      | cons piece pieces =>
        rw [hs] at ih
        simpa using ih

theorem ne_nil_of_mem_split {delim : α} {xs piece : List α} (h : piece ∈ split delim xs) :
    piece ≠ [] := by
  induction xs generalizing piece with
  | nil => simp at h
  | cons a rest ih =>
    by_cases ha : a = delim
    · subst ha
      rw [split_cons_self, List.mem_cons] at h
      rcases h with rfl | h
      · simp
      · exact ih h
    · rw [split_cons_ne ha] at h
      cases hs : split delim rest with
      | nil => simp_all
      | cons p ps =>
        rw [hs] at h
        rcases List.mem_cons.mp h with rfl | h
        · simp
        · exact ih (by rw [hs]; exact List.mem_cons_of_mem _ h)

/-- Text that ends with the delimiter, or is empty, cuts the pieces that follow off. -/
theorem split_append {delim : α} {xs : List α} (hx : xs = [] ∨ xs.getLast? = some delim)
    (ys : List α) : split delim (xs ++ ys) = split delim xs ++ split delim ys := by
  induction xs with
  | nil => simp
  | cons a rest ih =>
    by_cases hr : rest = []
    · subst hr
      have ha : a = delim := by simpa using hx
      subst ha
      simp [split_cons_self]
    · have hlast : rest.getLast? = some delim := by
        rcases hx with hx | hx
        · simp at hx
        · rwa [List.getLast?_cons_of_ne_nil hr] at hx
      have ihr := ih (.inr hlast)
      by_cases ha : a = delim
      · subst ha
        simp [split_cons_self, ihr]
      · rw [List.cons_append, split_cons_ne ha, split_cons_ne ha, ihr]
        cases hs : split delim rest with
        | nil => exact absurd (split_eq_nil.mp hs) hr
        | cons piece pieces => rfl

/-- A part without the delimiter goes in front of the first piece. -/
theorem split_append_of_not_mem {delim : α} {xs : List α} (hx : delim ∉ xs) (hne : xs ≠ [])
    (ys : List α) : split delim (xs ++ ys) =
      (xs ++ (split delim ys).headD []) :: (split delim ys).tail := by
  induction xs with
  | nil => exact absurd rfl hne
  | cons a rest ih =>
    have ha : a ≠ delim := fun h => hx (h ▸ List.mem_cons_self)
    have hr : delim ∉ rest := fun h => hx (List.mem_cons_of_mem a h)
    rw [List.cons_append, split_cons_ne ha]
    by_cases hnil : rest = []
    · subst hnil
      rw [List.nil_append]
      cases split delim ys with
      | nil => rfl
      | cons piece pieces => rfl
    · rw [ih hr hnil]
      rfl

/-- The first delimiter ends the first piece. -/
theorem split_append_of_mem {delim : α} {xs : List α} (hx : delim ∈ xs) (ys : List α) :
    split delim (xs.take (xs.idxOf delim + 1) ++ ys) =
      xs.take (xs.idxOf delim + 1) :: split delim ys := by
  induction xs with
  | nil => cases hx
  | cons a rest ih =>
    by_cases ha : a = delim
    · subst ha
      rw [List.idxOf_cons_self, List.take_succ_cons, List.take_zero, List.cons_append,
        split_cons_self]
      rfl
    · have hr : delim ∈ rest := (List.mem_cons.mp hx).resolve_left (Ne.symm ha)
      rw [List.idxOf_cons_ne _ ha, List.take_succ_cons, List.cons_append, split_cons_ne ha, ih hr]

/-- The first piece, and the pieces of what follows it. -/
theorem split_first {delim : α} {xs piece : List α} {pieces : List (List α)}
    (h : split delim xs = piece :: pieces) :
    ∃ rest, xs = piece ++ rest ∧ split delim rest = pieces ∧ split delim piece = [piece] ∧
      (rest ≠ [] → piece.getLast? = some delim) := by
  induction xs generalizing piece with
  | nil => cases h
  | cons a xs ih =>
    by_cases ha : a = delim
    · subst ha
      rw [split_cons_self] at h
      obtain ⟨rfl, rfl⟩ := List.cons.inj h
      exact ⟨xs, rfl, rfl, by rw [split_cons_self, split_nil], fun _ => rfl⟩
    · rw [split_cons_ne ha] at h
      cases hs : split delim xs with
      | nil =>
        rw [hs] at h
        obtain ⟨rfl, rfl⟩ := List.cons.inj h
        refine ⟨[], by rw [split_eq_nil.mp hs]; rfl, rfl, ?_, fun h => absurd rfl h⟩
        rw [split_cons_ne ha, split_nil]
      | cons p ps =>
        rw [hs] at h
        obtain ⟨rfl, rfl⟩ := List.cons.inj h
        obtain ⟨rest, rfl, hrest, hp, hlast⟩ := ih hs
        refine ⟨rest, rfl, hrest, by rw [split_cons_ne ha, hp], ?_⟩
        intro hne
        have hpne : p ≠ [] := by
          rintro rfl
          cases hp
        rw [List.getLast?_cons_of_ne_nil hpne]
        exact hlast hne

/-- The first pieces of a list are the pieces of what they make up, and end in a delimiter
when others follow. -/
theorem split_prefix {delim : α} {xs : List α} {ys zs : List (List α)}
    (h : split delim xs = ys ++ zs) :
    split delim ys.flatten = ys ∧
      (zs ≠ [] → ys.flatten = [] ∨ ys.flatten.getLast? = some delim) := by
  induction ys generalizing xs with
  | nil => exact ⟨rfl, fun _ => .inl rfl⟩
  | cons piece ys ih =>
    obtain ⟨rest, rfl, hrest, hpiece, hlast⟩ := split_first h
    obtain ⟨hys, hend⟩ := ih hrest
    rw [List.flatten_cons]
    by_cases hnil : ys = []
    · subst hnil
      rw [List.flatten_nil, List.append_nil]
      refine ⟨hpiece, fun hz => .inr (hlast ?_)⟩
      rintro rfl
      exact hz hrest.symm
    · have hne : rest ≠ [] := by
        rintro rfl
        exact hnil (List.append_eq_nil_iff.mp hrest.symm).1
      refine ⟨by rw [split_append (.inr (hlast hne)), hpiece, hys]; rfl, fun hz => .inr ?_⟩
      have hflat : ys.flatten ≠ [] := by
        intro hflat
        rw [hflat, split_nil] at hys
        exact hnil hys.symm
      rw [List.getLast?_append_of_ne_nil _ hflat]
      exact (hend hz).resolve_left hflat

/-- The parts of a list cut after delimiters only (or where nothing follows). -/
def Whole (delim : α) : List (List α) → Prop
  | [] => True
  | part :: parts =>
      (part = [] ∨ part.getLast? = some delim ∨ parts.flatten = []) ∧ Whole delim parts

instance (delim : α) : DecidablePred (Whole delim)
  | [] => .isTrue trivial
  | _ :: parts =>
      haveI : Decidable (Whole delim parts) := instDecidablePredListWhole delim parts
      inferInstanceAs (Decidable (_ ∧ _))

/-- The pieces of the parts are the pieces of the whole. -/
theorem split_flatten {delim : α} {parts : List (List α)} (h : Whole delim parts) :
    split delim parts.flatten = parts.flatMap (split delim) := by
  induction parts with
  | nil => rfl
  | cons part parts ih =>
    obtain ⟨hcut, hrest⟩ := h
    rw [List.flatten_cons, List.flatMap_cons, ← ih hrest]
    rcases hcut with hcut | hcut | hcut
    · exact split_append (.inl hcut) _
    · exact split_append (.inr hcut) _
    · simp [hcut]

/-- Some of the lines of a text, one after the other, are the lines of a text. -/
theorem split_flatten_sublist {delim : α} {xs : List α} {lines : List (List α)}
    (h : lines.Sublist (split delim xs)) : split delim lines.flatten = lines := by
  generalize hsplit : split delim xs = pieces at h
  induction h generalizing xs with
  | slnil => rfl
  | cons piece _ ih =>
    obtain ⟨rest, -, hrest, -, -⟩ := split_first hsplit
    exact ih hrest
  | @cons_cons lines pieces piece hsub ih =>
    obtain ⟨rest, -, hrest, hpiece, hend⟩ := split_first hsplit
    rw [List.flatten_cons]
    cases rest with
    | nil =>
      -- the piece is the last one, and may lack the delimiter
      obtain rfl : pieces = [] := hrest.symm
      obtain rfl : lines = [] := List.sublist_nil.mp hsub
      rw [List.flatten_nil, List.append_nil, hpiece]
    | cons a rest =>
      rw [split_append (.inr (hend (List.cons_ne_nil a rest))), hpiece, ih hrest]
      rfl

end Lines

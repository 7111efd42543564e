import Std.Data.ExtTreeMap.Lemmas
import Mathlib.Order.Bounds.Basic
import Mathlib.Order.Lattice

/-!
# Maps merged by a join

Maps whose values have a join are merged key by key. A list of maps merged from the left is
at every key the least upper bound of the values there, so the order of the maps does not
matter, and more of them only add keys or raise values.
-/

namespace PolarsLogfmt

namespace MergeMaps

variable {α β : Type} {cmp : α → α → Ordering} [Std.TransCmp cmp] [Std.LawfulEqCmp cmp]

abbrev Map (α β : Type) (cmp : α → α → Ordering) := Std.ExtTreeMap α β cmp

section

variable [SemilatticeSup β]

/-- The value of a key after one more entry. -/
def enter (v : β) : Option β → Option β
  | some seen => some (seen ⊔ v)
  | none => some v

/-- The entries of the second map entered into the first. -/
def merge (m m' : Map α β cmp) : Map α β cmp :=
  m'.toList.foldl (fun m (k, v) => m.alter k (enter v)) m

def mergeAll (ms : List (Map α β cmp)) : Map α β cmp := ms.foldl merge ∅

/-! ## One merge -/

theorem getElem?_foldl_alter (k : α) {kvs : List (α × β)}
    (hd : kvs.Pairwise fun a b => ¬ cmp a.1 b.1 = .eq) (m : Map α β cmp) :
    (∀ v, (k, v) ∈ kvs →
      (kvs.foldl (fun (m : Map α β cmp) kv => m.alter kv.1 (enter kv.2)) m)[k]? =
        enter v m[k]?) ∧
    ((∀ v, (k, v) ∉ kvs) →
      (kvs.foldl (fun (m : Map α β cmp) kv => m.alter kv.1 (enter kv.2)) m)[k]? = m[k]?) := by
  induction kvs generalizing m with
  | nil => exact ⟨fun v hv => (List.not_mem_nil hv).elim, fun _ => rfl⟩
  | cons kv kvs ih =>
    obtain ⟨k', v'⟩ := kv
    obtain ⟨hfirst, hrest⟩ := List.pairwise_cons.mp hd
    obtain ⟨hmem, hnot⟩ := ih hrest (m.alter k' (enter v'))
    rw [Std.ExtTreeMap.getElem?_alter] at hmem hnot
    rw [List.foldl_cons]
    constructor
    · intro v hv
      rcases List.mem_cons.mp hv with heq | hv
      · obtain ⟨rfl, rfl⟩ := Prod.mk.inj heq
        have hself : cmp k k = .eq := Std.ReflCmp.compare_self
        rw [hnot fun v hv => hfirst (k, v) hv hself, if_pos hself]
      · have hne : ¬ cmp k' k = .eq := hfirst (k, v) hv
        rw [hmem v hv, if_neg hne]
    · intro hnone
      have hne : ¬ cmp k' k = .eq := by
        intro heq
        obtain rfl := Std.LawfulEqCmp.eq_of_compare heq
        exact hnone v' List.mem_cons_self
      rw [hnot fun v hv => hnone v (List.mem_cons_of_mem _ hv), if_neg hne]

/-- A merged map at a key. -/
theorem getElem?_merge (m m' : Map α β cmp) (k : α) :
    (merge m m')[k]? = m[k]?.merge (· ⊔ ·) m'[k]? := by
  have hd : m'.toList.Pairwise fun a b => ¬ cmp a.1 b.1 = .eq := m'.distinct_keys_toList
  obtain ⟨hmem, hnot⟩ := getElem?_foldl_alter k hd m
  unfold merge
  cases hv : m'[k]? with
  | some v =>
    rw [hmem v (Std.ExtTreeMap.mem_toList_iff_getElem?_eq_some.mpr hv)]
    cases m[k]? <;> rfl
  | none =>
    rw [hnot fun v hmem => by
      rw [Std.ExtTreeMap.mem_toList_iff_getElem?_eq_some, hv] at hmem
      cases hmem]
    cases m[k]? <;> rfl

theorem mem_merge {m m' : Map α β cmp} {k : α} : k ∈ merge m m' ↔ k ∈ m ∨ k ∈ m' := by
  simp only [Std.ExtTreeMap.mem_iff_isSome_getElem?, getElem?_merge]
  cases m[k]? <;> cases m'[k]? <;> simp

/-- A bound on a merged value bounds both. -/
theorem merge_le_iff {m m' : Map α β cmp} {k : α} {u : β} :
    (∀ v ∈ (merge m m')[k]?, v ≤ u) ↔ (∀ v ∈ m[k]?, v ≤ u) ∧ ∀ v ∈ m'[k]?, v ≤ u := by
  rw [getElem?_merge]
  cases m[k]? <;> cases m'[k]? <;> simp

/-! ## Merging a list -/

theorem mem_foldl_merge {ms : List (Map α β cmp)} {acc : Map α β cmp} {k : α} :
    k ∈ ms.foldl merge acc ↔ k ∈ acc ∨ ∃ m ∈ ms, k ∈ m := by
  induction ms generalizing acc with
  | nil => simp
  | cons m ms ih => simp [ih, mem_merge, or_assoc]

theorem foldl_merge_le_iff {ms : List (Map α β cmp)} {acc : Map α β cmp} {k : α} {u : β} :
    (∀ v ∈ (ms.foldl merge acc)[k]?, v ≤ u) ↔
      (∀ v ∈ acc[k]?, v ≤ u) ∧ ∀ m ∈ ms, ∀ v ∈ m[k]?, v ≤ u := by
  induction ms generalizing acc with
  | nil => simp
  | cons m ms ih => rw [List.foldl_cons, ih, merge_le_iff, List.forall_mem_cons, and_assoc]

theorem mem_mergeAll {ms : List (Map α β cmp)} {k : α} : k ∈ mergeAll ms ↔ ∃ m ∈ ms, k ∈ m := by
  simp [mergeAll, mem_foldl_merge]

/-- The values of a key. -/
def valuesAt (ms : List (Map α β cmp)) (k : α) : Set β := {v | ∃ m ∈ ms, m[k]? = some v}

/-- The merged map has at a key the least upper bound of the values there. -/
theorem isLUB_mergeAll {ms : List (Map α β cmp)} {k : α} {t : β} (h : (mergeAll ms)[k]? = some t) :
    IsLUB (valuesAt ms k) t := by
  rw [isLUB_iff_le_iff]
  intro u
  have hle := @foldl_merge_le_iff _ _ _ _ _ _ ms ∅ k u
  rw [show ms.foldl merge ∅ = mergeAll ms from rfl, h] at hle
  simp only [Option.mem_def, Option.some.injEq, forall_eq', Std.ExtTreeMap.getElem?_empty,
    reduceCtorEq, false_imp_iff, implies_true, true_and] at hle
  rw [hle, mem_upperBounds]
  constructor
  · rintro hall v ⟨m, hm, hv⟩
    exact hall m hm v hv
  · intro hall m hm v hv
    exact hall v ⟨m, hm, hv⟩

/-- Lists with the same maps merge to the same. -/
theorem mergeAll_congr {ms ms' : List (Map α β cmp)} (h : ∀ m, m ∈ ms ↔ m ∈ ms') :
    mergeAll ms = mergeAll ms' := by
  have hkeys : ∀ k, k ∈ mergeAll ms ↔ k ∈ mergeAll ms' := by
    intro k
    simp only [mem_mergeAll, h]
  have hvalues : ∀ k, valuesAt ms k = valuesAt ms' k := by
    intro k
    ext v
    simp only [valuesAt, h]
  apply Std.ExtTreeMap.ext_getElem?
  intro k
  have hk := hkeys k
  simp only [Std.ExtTreeMap.mem_iff_isSome_getElem?] at hk
  cases hv : (mergeAll ms)[k]? with
  | none =>
    rw [hv] at hk
    cases hv' : (mergeAll ms')[k]? with
    | none => rfl
    | some v' =>
      rw [hv'] at hk
      cases hk.mpr rfl
  | some v =>
    rw [hv] at hk
    obtain ⟨v', hv'⟩ := Option.isSome_iff_exists.mp (hk.mp rfl)
    rw [hv', (isLUB_mergeAll hv).unique (hvalues k ▸ isLUB_mergeAll hv')]

/-- More maps keep the keys and raise the values. -/
theorem mergeAll_mono {ms ms' : List (Map α β cmp)} (h : ms ⊆ ms') {k : α} {t : β}
    (ht : (mergeAll ms)[k]? = some t) : ∃ t', (mergeAll ms')[k]? = some t' ∧ t ≤ t' := by
  have hk : k ∈ mergeAll ms := Std.ExtTreeMap.mem_iff_isSome_getElem?.mpr (by rw [ht]; rfl)
  obtain ⟨m, hm, hkm⟩ := mem_mergeAll.mp hk
  obtain ⟨t', ht'⟩ := Option.isSome_iff_exists.mp
    (Std.ExtTreeMap.mem_iff_isSome_getElem?.mp (mem_mergeAll.mpr ⟨m, h hm, hkm⟩))
  refine ⟨t', ht', (isLUB_mergeAll ht).mono (isLUB_mergeAll ht') ?_⟩
  rintro v ⟨m, hm, hv⟩
  exact ⟨m, h hm, hv⟩

end

end MergeMaps

end PolarsLogfmt

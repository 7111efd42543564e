import PolarsLogfmt.Crates

/-!
# Columns

The part of polars' `DataType`, `AnyValue`, `Series` and `Column` the program uses. A
`Series` carries the proof that its cells have its type.
-/

namespace PolarsLogfmt

variable [Crates]

open Crates

/-- `DataType`; `datetime` is `Datetime(Microseconds, None)` and `duration` is
`Duration(Microseconds)`, which only the builders of the parallel path know. -/
inductive DataType where
  | string
  | int64
  | float64
  | boolean
  | datetime
  | duration
deriving DecidableEq, Repr

/-- A cell of a column. -/
inductive AnyValue where
  | null
  | string (s : Bytes)
  | int64 (i : Int64)
  | float64 (f : F64)
  | boolean (b : Bool)
  | datetime (micros : Int64)
deriving DecidableEq

/-- The cell is null or has the type. -/
def AnyValue.Fits (dtype : DataType) : AnyValue → Prop
  | .null => True
  | .string _ => dtype = .string
  | .int64 _ => dtype = .int64
  | .float64 _ => dtype = .float64
  | .boolean _ => dtype = .boolean
  | .datetime _ => dtype = .datetime

/-- Typed cells. -/
structure Series where
  dtype : DataType
  values : List AnyValue
  typed : ∀ v ∈ values, v.Fits dtype

/-- A named series. -/
structure Column where
  name : Bytes
  series : Series

theorem Series.ext {a b : Series} (hd : a.dtype = b.dtype) (hv : a.values = b.values) : a = b := by
  cases a
  cases b
  subst hd hv
  rfl

instance : DecidableEq Series := fun a b =>
  if h : a.dtype = b.dtype ∧ a.values = b.values then .isTrue (Series.ext h.1 h.2)
  else .isFalse (by rintro rfl; exact h ⟨rfl, rfl⟩)

instance : DecidableEq Column := fun a b =>
  if h : a.name = b.name ∧ a.series = b.series then
    .isTrue (by cases a; cases b; obtain ⟨rfl, rfl⟩ := h; rfl)
  else .isFalse (by rintro rfl; exact h ⟨rfl, rfl⟩)

namespace Column

/-- What a column holds: its name, type and cells. -/
def data (c : Column) : Bytes × DataType × List AnyValue :=
  (c.name, c.series.dtype, c.series.values)

theorem data_injective {a b : Column} (h : a.data = b.data) : a = b := by
  obtain ⟨name, series⟩ := a
  obtain ⟨name', series'⟩ := b
  simp only [data, Prod.mk.injEq] at h
  obtain ⟨rfl, hd, hv⟩ := h
  rw [Series.ext hd hv]

/-- The number of cells. -/
def len (c : Column) : Nat := c.series.values.length

/-- A column whose cells are made from `xs` one by one. -/
def ofMap {α : Type} (name : Bytes) (dtype : DataType) (xs : List α) (cell : α → AnyValue)
    (typed : ∀ x, (cell x).Fits dtype) : Column where
  name := name
  series :=
    { dtype := dtype
      values := xs.map cell
      typed := by
        intro v hv
        obtain ⟨x, -, rfl⟩ := List.mem_map.mp hv
        exact typed x }

@[simp] theorem ofMap_name {α : Type} (name : Bytes) (dtype : DataType) (xs : List α)
    (cell : α → AnyValue) (typed : ∀ x, (cell x).Fits dtype) :
    (ofMap name dtype xs cell typed).name = name := rfl

@[simp] theorem ofMap_len {α : Type} (name : Bytes) (dtype : DataType) (xs : List α)
    (cell : α → AnyValue) (typed : ∀ x, (cell x).Fits dtype) :
    (ofMap name dtype xs cell typed).len = xs.length := List.length_map _

/-- The cells of the second column after those of the first, when they have one type. -/
def append (a b : Column) (h : a.series.dtype = b.series.dtype) : Column where
  name := a.name
  series :=
    { dtype := a.series.dtype
      values := a.series.values ++ b.series.values
      typed := by
        intro v hv
        rcases List.mem_append.mp hv with hv | hv
        · exact a.series.typed v hv
        · rw [h]
          exact b.series.typed v hv }

@[simp] theorem append_name (a b : Column) (h : a.series.dtype = b.series.dtype) :
    (a.append b h).name = a.name := rfl

@[simp] theorem append_len (a b : Column) (h : a.series.dtype = b.series.dtype) :
    (a.append b h).len = a.len + b.len := List.length_append

/-- The column with the cells a function picks from it. -/
def pick (c : Column) (f : List AnyValue → List AnyValue) (sub : ∀ vs, f vs ⊆ vs) : Column where
  name := c.name
  series :=
    { dtype := c.series.dtype
      values := f c.series.values
      typed := fun v hv => c.series.typed v (sub _ hv) }

@[simp] theorem pick_name (c : Column) (f : List AnyValue → List AnyValue) (sub : ∀ vs, f vs ⊆ vs) :
    (c.pick f sub).name = c.name := rfl

end Column

end PolarsLogfmt

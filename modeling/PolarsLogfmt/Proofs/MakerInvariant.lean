import PolarsLogfmt.Lazy.AlignedFrame

/-!
# The representation of the frame maker

What `column_infos` and the builders look like after any number of lines, when the maker
is asked for the keys of the first.
-/

namespace PolarsLogfmt

section

variable [Crates]

open DataFrameMaker

/-- The entry a line stands for in the builder of the column. -/
def ColumnInfo.entryOf (ci : ColumnInfo) (line : Bytes) : AnyValue :=
  ((rawValue line ci.name).map (convert ci.dataType)).getD .null

/-- The columns of a maker that has pushed `lines`: their names are distinct, each has a
builder to itself, and the builder has one entry for each line. -/
structure RepInvariant (m : DataFrameMaker) (lines : List Bytes) : Prop where
  names : (m.columnInfos.map ColumnInfo.name).Nodup
  inRange : ∀ ci ∈ m.columnInfos, ci.index < m.arrays.count ci.dataType
  unshared : (m.columnInfos.map fun ci => (ci.dataType, ci.index)).Nodup
  typed : ∀ ci ∈ m.columnInfos, ci.dataType = trackType m.schema ci.name
  rowsPushed : m.rowsPushed = lines.length
  builders : ∀ ci ∈ m.columnInfos,
    m.arrays.entryAt ci.dataType ci.index = some (ci.name, lines.map ci.entryOf)

theorem rowsPushed_pushLines (m : DataFrameMaker) (lines : List Bytes) :
    (pushLines m lines).rowsPushed = m.rowsPushed + lines.length := by
  induction lines generalizing m with
  | nil => rfl
  | cons line lines ih =>
    have hline : (m.pushLine line).rowsPushed = m.rowsPushed + 1 := rfl
    rw [pushLines_cons, ih, hline, List.length_cons]
    omega

/-- The cells of a column are the entries of its builder. -/
theorem cellsOf_columnInfo {m : DataFrameMaker} (hnames : (m.columnInfos.map ColumnInfo.name).Nodup)
    {ci : ColumnInfo} (hci : ci ∈ m.columnInfos) {name : Bytes} {cells : List AnyValue}
    (hentry : m.arrays.entryAt ci.dataType ci.index = some (name, cells)) :
    cellsOf m.tracks ci.name = some cells := by
  have hsome : (m.columnInfos.find? fun cj => cj.name == ci.name).isSome := by
    rw [List.find?_isSome]
    exact ⟨ci, hci, by simp⟩
  obtain ⟨cj, hfind⟩ := Option.isSome_iff_exists.mp hsome
  have hname : cj.name = ci.name := by simpa using List.find?_some hfind
  obtain rfl := List.inj_on_of_nodup_map hnames (List.mem_of_find?_eq_some hfind) hci hname
  rw [cellsOf, trackOf, find?_tracks, hfind, Option.map_some, Option.map_some, track, hentry]
  rfl

/-- Lines that have no key twice keep the representation. -/
theorem repInvariant_of_tracksFor {m : DataFrameMaker} (hm : m.Ready) {keys lines : List Bytes}
    (hrows : m.rowsPushed = lines.length)
    (ht : TracksFor m.schema keys (fun key => lines.map (alignedCell m.schema key)) m.tracks) :
    RepInvariant m lines := by
  have htyped : ∀ ci ∈ m.columnInfos, ci.dataType = trackType m.schema ci.name :=
    fun ci hci => ht.typed (m.track ci) (List.mem_map_of_mem hci)
  refine ⟨hm.names, ?_, hm.slots, htyped, hrows, ?_⟩
  · intro ci hci
    obtain ⟨cells, hcells⟩ := hm.entries ci hci
    exact ColumnArrays.lt_count hcells
  · intro ci hci
    obtain ⟨cells, hcells⟩ := hm.entries ci hci
    have hkey : ci.name ∈ keys := by
      apply ht.names
      rw [tracks_names]
      exact List.mem_map_of_mem hci
    have hlines := ht.cells ci.name hkey
    rw [cellsOf_columnInfo hm.names hci hcells, Option.getD_some] at hlines
    rw [hcells, hlines]
    unfold alignedCell ColumnInfo.entryOf
    rw [htyped ci hci]

/-- A line that has a key twice breaks it. -/
theorem not_repInvariant_of_repeated {m : DataFrameMaker} (hm : m.Ready)
    (hne : m.columnKeys ≠ []) {lines : List Bytes}
    (ht : TracksFor m.schema m.columnKeys
      (fun key => lines.map (alignedCell m.schema key)) m.tracks)
    {line : Bytes} (hrep : ¬ HasOnce m.columnKeys line) :
    ¬ RepInvariant (m.pushLine line) (lines ++ [line]) := by
  intro hinv
  have hcells : ∀ key ∈ m.columnKeys, ((cellsOf m.tracks key).getD []).length = lines.length := by
    intro key hkey
    rw [ht.cells key hkey, List.length_map]
  obtain ⟨key, -, cells, hgrown, hlen⟩ := cells_of_repeated hm ht.typed hne hcells hrep
  have hname : key ∈ (m.pushLine line).columnInfos.map ColumnInfo.name := by
    rw [← tracks_names, ← cellsOf_isSome, hgrown]
    rfl
  obtain ⟨ci, hci, rfl⟩ := List.mem_map.mp hname
  have hentries := cellsOf_columnInfo hinv.names hci (hinv.builders ci hci)
  rw [hgrown] at hentries
  obtain rfl := Option.some.inj hentries
  rw [List.length_map, List.length_append, List.length_singleton] at hlen
  omega

/-- Pushing lines from a fresh maker that is asked for the keys of the first keeps the
representation, from the first line to the last, exactly when no line has such a key twice. -/
theorem repInvariant_iff (schema : Option Schema) {keys : List Bytes} (hkeys : keys.Nodup)
    (hne : keys ≠ []) {first : Bytes} (hfirst : ∀ key, key ∈ keys ↔ key ∈ lineKeys first)
    (lines : List Bytes) :
    (∀ k, 0 < k → k ≤ (first :: lines).length →
        RepInvariant (pushLines { schema := schema, columnKeys := keys } ((first :: lines).take k))
          ((first :: lines).take k)) ↔
      ∀ line ∈ first :: lines, HasOnce keys line := by
  have hhead : ∀ k, ∀ line ∈ ((first :: lines).take k).head?, ∀ key ∈ keys,
    key ∈ lineKeys line := by
    intro k line hline key hkey
    cases k with
    | zero => cases hline
    | succ k =>
      cases hline
      exact (hfirst key).mp hkey
  have hready : ∀ ls, (pushLines { schema := schema, columnKeys := keys } ls).Ready ∧
      (pushLines { schema := schema, columnKeys := keys } ls).schema = schema ∧
      (pushLines { schema := schema, columnKeys := keys } ls).columnKeys = keys := by
    intro ls
    obtain ⟨hm, -, hschema, hcols⟩ :=
      pushLines_spec (ready_asked schema keys) (by simp [Typed, tracks]) ls
    exact ⟨hm, hschema, hcols⟩
  constructor
  · intro hall
    -- by induction on the number of lines: the first one that has a key twice breaks the invariant
    have hprefix : ∀ k ≤ (first :: lines).length, ∀ line ∈ (first :: lines).take k,
        HasOnce keys line := by
      intro k
      induction k with
      | zero =>
        intro _ line hline
        cases hline
      | succ k ih =>
        intro hle line hline
        have hlt : k < (first :: lines).length := hle
        have ih := ih (Nat.le_of_lt hlt)
        have hinv := hall (k + 1) (Nat.succ_pos k) hle
        rw [List.take_succ_eq_append_getElem hlt] at hline hinv
        rcases List.mem_append.mp hline with hline | hline
        · exact ih line hline
        · obtain rfl := List.mem_singleton.mp hline
          by_contra hrep
          obtain ⟨ht, -⟩ := tracksFor_aligned schema hkeys hne (hhead k) ih
          obtain ⟨hm, hschema, hcols⟩ := hready ((first :: lines).take k)
          rw [pushLines_concat] at hinv
          generalize pushLines { schema := schema, columnKeys := keys } ((first :: lines).take k) =
            m
            at ht hm hschema hcols hinv
          subst hschema hcols
          exact not_repInvariant_of_repeated hm hne ht hrep hinv
    intro line hline
    exact hprefix (first :: lines).length (Nat.le_refl _) line (by rwa [List.take_length])
  · intro honce k hk hle
    obtain ⟨ht, -⟩ := tracksFor_aligned schema hkeys hne (hhead k)
      fun line hline => honce line (List.mem_of_mem_take hline)
    obtain ⟨hm, hschema, -⟩ := hready ((first :: lines).take k)
    have hrows := rowsPushed_pushLines { schema := schema, columnKeys := keys }
      ((first :: lines).take k)
    simp only [Nat.zero_add] at hrows
    generalize pushLines { schema := schema, columnKeys := keys } ((first :: lines).take k) = m
      at ht hm hschema hrows ⊢
    subst hschema
    exact repInvariant_of_tracksFor hm hrows ht

end

section

attribute [local instance] smallCrates

/-- A key, and lines that have it once or not at all. -/
theorem repInvariant_ragged :
    (∀ k, 0 < k → k ≤ 2 → RepInvariant
        (pushLines { schema := none, columnKeys := [Utf8.ofString "a"] }
          ([Utf8.ofString "a=1", Utf8.ofString "b=2"].take k))
        ([Utf8.ofString "a=1", Utf8.ofString "b=2"].take k)) ↔
      ∀ line ∈ [Utf8.ofString "a=1", Utf8.ofString "b=2"], HasOnce [Utf8.ofString "a"] line :=
  repInvariant_iff none (by simp) (by simp)
    (by
      have hkeys : lineKeys (Utf8.ofString "a=1") = [Utf8.ofString "a"] := by decide +kernel
      intro key
      rw [hkeys])
    [Utf8.ofString "b=2"]

/-- After `a=1` and `a=1 a=2` the builder of `a` has three entries for two rows. -/
theorem repInvariant_counterexample :
    lineKeys (Utf8.ofString "a=1") = [Utf8.ofString "a"] ∧
      ¬ RepInvariant
        (pushLines { schema := none, columnKeys := [Utf8.ofString "a"] }
          [Utf8.ofString "a=1", Utf8.ofString "a=1 a=2"])
        [Utf8.ofString "a=1", Utf8.ofString "a=1 a=2"] := by
  refine ⟨by decide +kernel, fun h => ?_⟩
  have hci : (⟨Utf8.ofString "a", .string, 0⟩ : ColumnInfo) ∈
      (pushLines { schema := none, columnKeys := [Utf8.ofString "a"] }
        [Utf8.ofString "a=1", Utf8.ofString "a=1 a=2"]).columnInfos := by decide +kernel
  have hentry := congrArg (Option.map fun e => e.2.length) (h.builders _ hci)
  rw [Option.map_some, List.length_map] at hentry
  revert hentry
  decide +kernel

end

end PolarsLogfmt

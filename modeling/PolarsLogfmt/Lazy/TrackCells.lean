import PolarsLogfmt.Lazy.MakerTracks

/-!
# What a line adds to each track

Lookup lemmas for `pushLineTracks`: the cells of a key after a line are its cells
before, then the converted values the line has for it, or one null.
-/

namespace PolarsLogfmt

variable [Crates]

/-- The track of a key. -/
def trackOf (tracks : List Track) (key : Bytes) : Option Track :=
  tracks.find? fun t => t.name == key

/-- The cells of a key, if it has a track. -/
def cellsOf (tracks : List Track) (key : Bytes) : Option (List AnyValue) :=
  (trackOf tracks key).map Track.cells

/-- Every track has the type its key has under the schema. -/
def Typed (schema : Option Schema) (tracks : List Track) : Prop :=
  ∀ t ∈ tracks, t.dataType = trackType schema t.name

/-- The values of a key, in order. -/
def valuesOf (key : Bytes) (kvs : List (Bytes × Bytes)) : List Bytes :=
  (kvs.filter fun kv => kv.1 = key).map Prod.snd

omit [Crates] in
theorem valuesOf_eq_nil {key : Bytes} {kvs : List (Bytes × Bytes)} (h : key ∉ kvs.map Prod.fst) :
    valuesOf key kvs = [] := by
  rw [valuesOf, List.map_eq_nil_iff, List.filter_eq_nil_iff]
  intro kv hkv hkey
  exact h (List.mem_map.mpr ⟨kv, hkv, by simpa using hkey⟩)

omit [Crates] in
/-- With distinct keys a key has one value. -/
theorem valuesOf_eq_singleton {key value : Bytes} {kvs : List (Bytes × Bytes)}
    (hd : (kvs.map Prod.fst).Nodup) (h : (key, value) ∈ kvs) : valuesOf key kvs = [value] := by
  induction kvs with
  | nil => cases h
  | cons kv kvs ih =>
    rw [List.map_cons, List.nodup_cons] at hd
    rcases List.mem_cons.mp h with rfl | h
    · have hrest := valuesOf_eq_nil hd.1
      rw [valuesOf] at hrest ⊢
      rw [List.filter_cons_of_pos (by simp), List.map_cons, hrest]
    · have hne : kv.1 ≠ key := by
        intro heq
        exact hd.1 (heq ▸ List.mem_map_of_mem h)
      have hrest := ih hd.2 h
      rw [valuesOf] at hrest ⊢
      rw [List.filter_cons_of_neg (by simpa using hne), hrest]

omit [Crates] in
theorem length_valuesOf (key : Bytes) (kvs : List (Bytes × Bytes)) :
    (valuesOf key kvs).length = (kvs.map Prod.fst).count key := by
  induction kvs with
  | nil => rfl
  | cons kv kvs ih =>
    rw [valuesOf, List.length_map] at ih ⊢
    by_cases h : kv.1 = key
    · rw [List.filter_cons_of_pos (by simpa using h), List.length_cons, ih, List.map_cons, h,
        List.count_cons_self]
    · rw [List.filter_cons_of_neg (by simpa using h), ih, List.map_cons, List.count_cons_of_ne h]

theorem trackOf_name {tracks : List Track} {key : Bytes} {t : Track}
    (h : trackOf tracks key = some t) : t.name = key := by
  simpa using List.find?_some h

theorem trackOf_mem {tracks : List Track} {key : Bytes} {t : Track}
    (h : trackOf tracks key = some t) : t ∈ tracks := List.mem_of_find?_eq_some h

theorem trackOf_isSome {tracks : List Track} {key : Bytes} :
    (trackOf tracks key).isSome ↔ key ∈ tracks.map Track.name := by
  rw [trackOf, List.find?_isSome]
  simp only [beq_iff_eq, List.mem_map]

theorem cellsOf_isSome {tracks : List Track} {key : Bytes} :
    (cellsOf tracks key).isSome ↔ key ∈ tracks.map Track.name := by
  rw [cellsOf, Option.isSome_map, trackOf_isSome]

theorem trackOf_map {tracks : List Track} {f : Track → Track} (hf : ∀ t, (f t).name = t.name)
    (key : Bytes) : trackOf (tracks.map f) key = (trackOf tracks key).map f := by
  rw [trackOf, List.find?_map, trackOf]
  simp only [Function.comp_def, hf]

/-! ## One pair -/

/-- A pair grows the track of its key, and no other. -/
theorem pushPair_map_name (t : Track) (pair : Bytes × Bytes) :
    (if t.name = pair.1 then t.push (convert t.dataType pair.2) else t).name = t.name := by
  split <;> rfl

theorem names_pushPairTracks (schema : Option Schema) (tracks : List Track) (pair : Bytes × Bytes) :
    (pushPairTracks schema tracks pair).map Track.name =
      if pair.1 ∈ tracks.map Track.name then tracks.map Track.name
      else tracks.map Track.name ++ [pair.1] := by
  rw [pushPairTracks]
  split
  · rw [List.map_map]
    exact List.map_congr_left fun t _ => pushPair_map_name t pair
  · rw [List.map_append]
    rfl

theorem typed_pushPairTracks {schema : Option Schema} {tracks : List Track}
    (ht : Typed schema tracks) (pair : Bytes × Bytes) :
    Typed schema (pushPairTracks schema tracks pair) := by
  rw [pushPairTracks]
  split
  · intro t hmem
    obtain ⟨u, hu, rfl⟩ := List.mem_map.mp hmem
    rw [pushPair_map_name]
    have := ht u hu
    split
    · exact this
    · exact this
  · intro t hmem
    rcases List.mem_append.mp hmem with hmem | hmem
    · exact ht t hmem
    · obtain rfl := List.mem_singleton.mp hmem
      rfl

theorem cellsOf_pushPairTracks {schema : Option Schema} {tracks : List Track}
    (ht : Typed schema tracks) (pair : Bytes × Bytes) (key : Bytes) :
    cellsOf (pushPairTracks schema tracks pair) key =
      if pair.1 = key then
        some ((cellsOf tracks key).getD [] ++ [convert (trackType schema key) pair.2])
      else cellsOf tracks key := by
  rw [pushPairTracks]
  by_cases hmem : pair.1 ∈ tracks.map Track.name
  · rw [if_pos hmem, cellsOf, trackOf_map fun t => pushPair_map_name t pair]
    by_cases hkey : pair.1 = key
    · rw [if_pos hkey]
      rw [hkey] at hmem
      obtain ⟨t, hfind⟩ := Option.isSome_iff_exists.mp (trackOf_isSome.mpr hmem)
      have hname := trackOf_name hfind
      simp [cellsOf, hfind, hname, hkey, Track.push, ht t (trackOf_mem hfind)]
    · rw [if_neg hkey, cellsOf]
      cases hfind : trackOf tracks key with
      | none => rfl
      | some t =>
        have hname := trackOf_name hfind
        simp [hname, Ne.symm hkey]
  · rw [if_neg hmem, cellsOf, trackOf, List.find?_append, ← trackOf]
    by_cases hkey : pair.1 = key
    · have hnone : trackOf tracks key = none := by
        rw [← Option.not_isSome_iff_eq_none, trackOf_isSome, ← hkey]
        exact hmem
      simp [hnone, hkey, cellsOf]
    · simp [hkey, cellsOf]

/-! ## The pairs of a line -/

theorem typed_foldl_pushPair {schema : Option Schema} {tracks : List Track}
    (ht : Typed schema tracks) (kvs : List (Bytes × Bytes)) :
    Typed schema (kvs.foldl (pushPairTracks schema) tracks) := by
  induction kvs generalizing tracks with
  | nil => exact ht
  | cons kv kvs ih => exact ih (typed_pushPairTracks ht kv)

theorem mem_names_foldl_pushPair (schema : Option Schema) (tracks : List Track)
    (kvs : List (Bytes × Bytes)) (key : Bytes) :
    key ∈ (kvs.foldl (pushPairTracks schema) tracks).map Track.name ↔
      key ∈ tracks.map Track.name ∨ key ∈ kvs.map Prod.fst := by
  induction kvs generalizing tracks with
  | nil => simp
  | cons kv kvs ih =>
    rw [List.foldl_cons, ih, names_pushPairTracks, List.map_cons, List.mem_cons, ← or_assoc]
    refine or_congr_left ?_
    split
    · rename_i hmem
      constructor
      · exact .inl
      · rintro (h | rfl)
        · exact h
        · exact hmem
    · rw [List.mem_append, List.mem_singleton]

theorem cellsOf_foldl_pushPair {schema : Option Schema} {tracks : List Track}
    (ht : Typed schema tracks) (kvs : List (Bytes × Bytes)) (key : Bytes) :
    cellsOf (kvs.foldl (pushPairTracks schema) tracks) key =
      if key ∈ kvs.map Prod.fst then
        some ((cellsOf tracks key).getD [] ++
          (valuesOf key kvs).map (convert (trackType schema key)))
      else cellsOf tracks key := by
  induction kvs generalizing tracks with
  | nil => simp
  | cons kv kvs ih =>
    rw [List.foldl_cons, ih (typed_pushPairTracks ht kv), cellsOf_pushPairTracks ht]
    by_cases hkey : kv.1 = key
    · simp only [hkey, if_true, Option.getD_some, List.map_cons, List.mem_cons, true_or, valuesOf]
      rw [List.filter_cons_of_pos (by simpa using hkey)]
      by_cases hrest : key ∈ kvs.map Prod.fst
      · simp [hrest]
      · have hnone := valuesOf_eq_nil hrest
        rw [valuesOf, List.map_eq_nil_iff] at hnone
        simp [hrest, hnone]
    · have hfilter : valuesOf key (kv :: kvs) = valuesOf key kvs := by
        rw [valuesOf, List.filter_cons_of_neg (by simpa using hkey), valuesOf]
      have hmem : key ∈ (kv :: kvs).map Prod.fst ↔ key ∈ kvs.map Prod.fst := by
        rw [List.map_cons, List.mem_cons]
        exact or_iff_right (Ne.symm hkey)
      simp only [hkey, if_false, hfilter, hmem]

/-! ## A line -/

theorem typed_pushLineTracks {schema : Option Schema} {columnKeys : List Bytes}
    {tracks : List Track} (ht : Typed schema tracks) (line : Bytes) :
    Typed schema (pushLineTracks schema columnKeys tracks line) := by
  have hfold := typed_foldl_pushPair ht (wantedPairs columnKeys line)
  unfold pushLineTracks
  simp only
  split
  · intro t hmem
    obtain ⟨u, hu, rfl⟩ := List.mem_map.mp hmem
    have := hfold u hu
    split
    · exact this
    · exact this
  · exact hfold

/-- A key the line carries gets its converted values. -/
theorem cellsOf_pushLineTracks {schema : Option Schema} {columnKeys : List Bytes}
    {tracks : List Track} (ht : Typed schema tracks) {line key : Bytes}
    (hkey : key ∈ (wantedPairs columnKeys line).map Prod.fst) :
    cellsOf (pushLineTracks schema columnKeys tracks line) key =
      some ((cellsOf tracks key).getD [] ++
        (valuesOf key (wantedPairs columnKeys line)).map (convert (trackType schema key))) := by
  have hfold := cellsOf_foldl_pushPair ht (wantedPairs columnKeys line) key
  rw [if_pos hkey] at hfold
  unfold pushLineTracks
  simp only
  split
  · rw [cellsOf, trackOf_map (fun t => by split <;> rfl)]
    rw [cellsOf] at hfold
    obtain ⟨t, ht', hcells⟩ := Option.map_eq_some_iff.mp hfold
    rw [ht', Option.map_some, Option.map_some, trackOf_name ht', if_pos hkey, hcells]
  · exact hfold

/-! ## Many lines -/

/-- A maker that has pushed some lines. -/
def pushLines (m : DataFrameMaker) (lines : List Bytes) : DataFrameMaker :=
  lines.foldl DataFrameMaker.pushLine m

@[simp] theorem pushLines_cons (m : DataFrameMaker) (line : Bytes) (lines : List Bytes) :
    pushLines m (line :: lines) = pushLines (m.pushLine line) lines := rfl

theorem pushLines_concat (m : DataFrameMaker) (lines : List Bytes) (line : Bytes) :
    pushLines m (lines ++ [line]) = (pushLines m lines).pushLine line := List.foldl_append

/-- Pushing lines keeps the maker ready, its columns typed by the schema, and what it is
asked for. -/
theorem pushLines_spec {m : DataFrameMaker} (hm : m.Ready) (ht : Typed m.schema m.tracks)
    (lines : List Bytes) :
    (pushLines m lines).Ready ∧ Typed m.schema (pushLines m lines).tracks ∧
      (pushLines m lines).schema = m.schema ∧ (pushLines m lines).columnKeys = m.columnKeys := by
  induction lines generalizing m with
  | nil => exact ⟨hm, ht, rfl, rfl⟩
  | cons line lines ih =>
    obtain ⟨hready, htracks, hschema, hkeys⟩ := DataFrameMaker.pushLine_spec hm line
    have htyped : Typed (m.pushLine line).schema (m.pushLine line).tracks := by
      rw [htracks, hschema]
      exact typed_pushLineTracks ht line
    have ih := ih hready htyped
    rw [hschema, hkeys] at ih
    exact ih

end PolarsLogfmt

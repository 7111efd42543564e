import PolarsLogfmt.Lazy.ParallelFrames

/-!
# The slice of the parallel scan

With `n_rows = n` the workers share one counter of slots, which they load before a
frame and increment before a line. In every interleaving they push `n` lines
together, or all when there are fewer.
-/

namespace PolarsLogfmt

open SharedCounter (outcome)
open SideBySide (flatten_sublist_of_prefixes)
open LazyLogFmtReader (workerProg worker_outcome)

section

variable [Crates]

/-- With a slice of `n` rows the workers push `min n A` lines in every interleaving, `A` the
number of accepted lines, none of them twice, and each worker a prefix of the
accepted lines of its chunk. The lines of a chunk count up to its first read error,
should it have one. -/
theorem slot_claims (opts : FrameOpts) (origin : FrameOrigin) {n : Nat}
    (hcap : opts.rowCap = some n) (chunks : List (Nat × List FrameRange))
    (hidx : ((chunks.flatMap Prod.snd).map FrameRange.idx).Nodup)
    (sched : List Nat) :
    let traces := (outcome (chunks.map (workerProg opts origin)) sched).map Prod.snd
    let accepted := chunks.map fun chunk => (origin.chunkLines opts.lineFilter chunk).1
    traces.flatten.length = min n accepted.flatten.length ∧ traces.flatten.Nodup ∧
      List.Forall₂ (· <+: ·) traces accepted := by
  intro traces accepted
  obtain ⟨hends, hcount⟩ := worker_outcome opts origin hidx sched
  have hprefix : List.Forall₂ (· <+: ·) traces accepted := by
    rw [List.forall₂_map_left_iff, List.forall₂_map_right_iff]
    exact hends.flip.imp fun r chunk h => h.1
  refine ⟨?_, ?_, hprefix⟩
  · rw [List.length_flatten, List.length_flatten, List.map_map, List.map_map]
    exact hcount n hcap
  · have hnodup := FrameOrigin.chunkLines_nodup origin opts.lineFilter hidx
    exact hnodup.sublist (flatten_sublist_of_prefixes hprefix)

end

section

attribute [local instance] smallCrates

/-- Two units of two lines each. -/
def twoUnits : UnitSource where
  units := [.ok (Utf8.ofString "a=1\na=2\n"), .ok (Utf8.ofString "a=3\na=4\n")]
  countUnits := some 2

/-- Two workers with a unit each and a slice of three rows. -/
theorem slot_claims_three :
    let chunks : List (Nat × List FrameRange) := [(0, [{ idx := 0 }]), (1, [{ idx := 1 }])]
    let traces := (outcome (chunks.map (workerProg { rowCap := some 3 } (.units twoUnits)))
      [1, 0, 1, 0, 1, 0]).map Prod.snd
    let accepted := chunks.map fun chunk => ((FrameOrigin.units twoUnits).chunkLines none chunk).1
    traces.flatten.length = min 3 accepted.flatten.length ∧ traces.flatten.Nodup ∧
      List.Forall₂ (· <+: ·) traces accepted :=
  slot_claims { rowCap := some 3 } (.units twoUnits) rfl [(0, [{ idx := 0 }]), (1, [{ idx := 1 }])]
    (by decide) [1, 0, 1, 0, 1, 0]

end

end PolarsLogfmt

import RadminPro.FileStore
import RadminPro.SessionEffects

namespace RadminPro

open ByteCodec

/-!
# What the effects of a session leave on disk

The effects that succeed are changes to a store of files.  An output stream that
none of its writes has failed holds everything written to it: a part is on disk,
the rest in its buffer.
-/

/-- The files on a disk. -/
abbrev Files := FileStore.Store Path UInt8

/-- The change that an effect makes. -/
def Effect.change? : Effect → Option (FileStore.Change Path UInt8)
  | .openTrunc path true => some (.truncate path)
  | .write path position data => some (.write path position data)
  | .rename src dst true => some (.rename src dst)
  | .remove path true => some (.remove path)
  | _ => none

/-- The files after some effects. -/
def filesAfter (files : Files) (effects : List Effect) : Files :=
  FileStore.applyAll files (effects.filterMap Effect.change?)

@[simp] theorem filesAfter_nil (files : Files) : filesAfter files [] = files :=
  rfl

theorem filesAfter_append
    (files : Files)
    (first second : List Effect) :
    filesAfter files (first ++ second) =
      filesAfter (filesAfter files first) second := by
  rw [filesAfter, List.filterMap_append, FileStore.applyAll_append]
  rfl

/-- An effect that changes no file. -/
theorem filesAfter_cons_unchanged
    {effect : Effect}
    (unchanged : effect.change? = none)
    (files : Files)
    (rest : List Effect) :
    filesAfter files (effect :: rest) = filesAfter files rest := by
  simp [filesAfter, unchanged]

/-- An effect that changes a file. -/
theorem filesAfter_cons_change
    {effect : Effect}
    {change : FileStore.Change Path UInt8}
    (changed : effect.change? = some change)
    (files : Files)
    (rest : List Effect) :
    filesAfter files (effect :: rest) =
      filesAfter (FileStore.apply files change) rest := by
  simp [filesAfter, changed]

/-- Effects that change no file leave all of them alone. -/
theorem filesAfter_unchanged
    (files : Files)
    {effects : List Effect}
    (unchanged : ∀ effect ∈ effects, effect.change? = none) :
    filesAfter files effects = files := by
  rw [filesAfter, List.filterMap_eq_nil_iff.mpr unchanged,
    FileStore.applyAll_nil]

/-- The effect does not act on the path. -/
def Effect.Spares (effect : Effect) (path : Path) : Prop :=
  ∀ change, effect.change? = some change → path ∉ change.paths

/-- Effects that spare a path leave its file alone. -/
theorem filesAfter_spared
    (files : Files)
    {effects : List Effect}
    {path : Path}
    (spared : ∀ effect ∈ effects, effect.Spares path) :
    filesAfter files effects path = files path := by
  apply FileStore.applyAll_other
  intro change member
  obtain ⟨effect, isEffect, changed⟩ := List.mem_filterMap.mp member
  exact spared effect isEffect change changed

namespace OfStream

/-- All that was written to the stream is on disk or in its buffer. -/
structure Holds
    (files : Files)
    (stream : OfStream)
    (written : Bytes) : Prop where
  good : stream.good = true
  disk :
    ∃ content,
      files stream.path = some content ∧
        stream.position = content.length ∧
        content ++ stream.buffered = written

/-- A stream that has just been opened holds nothing. -/
theorem holds_opened
    {files : Files}
    {path : Path}
    (empty : files path = some []) :
    Holds files { path } [] where
  good := rfl
  disk := ⟨[], empty, rfl, rfl⟩

/-- A stream acts on its own file only. -/
theorem write_spares
    (stream : OfStream)
    (data : Bytes)
    (flush : Flush)
    {path : Path}
    (other : path ≠ stream.path) :
    ∀ effect ∈ (stream.write data flush).2, effect.Spares path := by
  intro effect member change changed
  unfold write at member
  split at member
  · rw [List.mem_singleton.mp member, Effect.change?, Option.some.injEq]
      at changed
    simp [← changed, FileStore.Change.paths, other]
  · cases member

theorem close_spares
    (stream : OfStream)
    (flushed : Nat)
    {path : Path}
    (other : path ≠ stream.path) :
    ∀ effect ∈ stream.close flushed, effect.Spares path := by
  intro effect member change changed
  simp only [close, List.mem_cons, List.not_mem_nil, or_false] at member
  rcases member with rfl | rfl
  · rw [Effect.change?, Option.some.injEq] at changed
    simp [← changed, FileStore.Change.paths, other]
  · cases changed

/-- What a write hands over follows what is on disk. -/
theorem Holds.write
    {files : Files}
    {stream : OfStream}
    {written : Bytes}
    (holds : stream.Holds files written)
    (data : Bytes)
    {flush : Flush}
    (ok : flush.ok = true) :
    Holds (filesAfter files (stream.write data flush).2)
      (stream.write data flush).1 (written ++ data) := by
  obtain ⟨content, present, position, together⟩ := holds.disk
  let pending := stream.buffered ++ data
  let handed := min flush.handed pending.length
  have next :
      stream.write data flush =
        ({ stream with
            good := true
            position := stream.position + handed
            buffered := pending.drop handed },
          [.write stream.path stream.position (pending.take handed)]) := by
    simp [OfStream.write, holds.good, ok, pending, handed]
  rw [next]
  refine ⟨rfl, content ++ pending.take handed, ?_, ?_, ?_⟩
  · rw [position]
    exact FileStore.apply_write_end present (pending.take handed)
  · simp [position, handed]
  · rw [List.append_assoc, List.take_append_drop, ← List.append_assoc, together]

/-- A close that hands over the rest completes the file. -/
theorem Holds.close
    {files : Files}
    {stream : OfStream}
    {written : Bytes}
    (holds : stream.Holds files written)
    {flushed : Nat}
    (all : stream.buffered.length ≤ flushed) :
    filesAfter files (stream.close flushed) stream.path = some written := by
  obtain ⟨content, present, position, together⟩ := holds.disk
  have whole : stream.buffered.take flushed = stream.buffered :=
    List.take_of_length_le all
  rw [OfStream.close, whole, position, ← together]
  exact FileStore.apply_write_end present stream.buffered

/-- A stream does not hold more in its buffer than was written to it. -/
theorem Holds.buffered_le
    {files : Files}
    {stream : OfStream}
    {written : Bytes}
    (holds : stream.Holds files written) :
    stream.buffered.length ≤ written.length := by
  obtain ⟨content, _, _, together⟩ := holds.disk
  rw [← together, List.length_append]
  exact Nat.le_add_left _ _

/-- The file of a stream is all that matters to it. -/
theorem Holds.congr
    {files other : Files}
    {stream : OfStream}
    {written : Bytes}
    (holds : stream.Holds files written)
    (same : other stream.path = files stream.path) :
    stream.Holds other written where
  good := holds.good
  disk := by
    rw [same]
    exact holds.disk

end OfStream

end RadminPro

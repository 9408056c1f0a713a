import RadminPro.SessionFiles

namespace RadminPro

open ByteCodec

namespace OfStream

/-!
# What reaches the file of a stream

A stream may fail at any write and at its close.  Whatever fails, what reaches
its file is a beginning of what was written to it.
-/

/-- What a write hands over to the file. -/
def handed (stream : OfStream) (data : Bytes) (flush : Flush) : Bytes :=
  if stream.good then (stream.buffered ++ data).take flush.handed else []

/-- What reaches the file when blocks are written to a stream that is then closed. -/
def landing (stream : OfStream) : List (Bytes × Flush) → Nat → Bytes
  | [], flushed => stream.buffered.take flushed
  | (data, flush) :: rest, flushed =>
      stream.handed data flush ++
        landing (stream.write data flush).1 rest flushed

/-- What is written to a stream. -/
def streamed (blocks : List (Bytes × Flush)) : Bytes :=
  (blocks.map Prod.fst).flatten

@[simp] theorem streamed_nil : streamed [] = [] :=
  rfl

@[simp] theorem streamed_cons
    (data : Bytes)
    (flush : Flush)
    (rest : List (Bytes × Flush)) :
    streamed ((data, flush) :: rest) = data ++ streamed rest :=
  rfl

variable {stream : OfStream}

@[simp] theorem write_path
    (data : Bytes)
    (flush : Flush) :
    (stream.write data flush).1.path = stream.path := by
  unfold write
  split <;> rfl

/-- A write to a stream that has failed is lost. -/
theorem write_failed
    (failed : stream.good = false)
    (data : Bytes)
    (flush : Flush) :
    stream.write data flush = (stream, []) := by
  simp [write, failed]

/-- What is in the buffer of a stream that has failed may still be closed in. -/
theorem landing_failed
    (failed : stream.good = false)
    (blocks : List (Bytes × Flush))
    (flushed : Nat) :
    stream.landing blocks flushed = stream.buffered.take flushed := by
  induction blocks with
  | nil =>
      rfl
  | cons block rest inductionHypothesis =>
      obtain ⟨data, flush⟩ := block
      rw [landing, write_failed failed, inductionHypothesis]
      simp [handed, failed]

/-- What a good stream writes. -/
theorem write_good
    (good : stream.good = true)
    (data : Bytes)
    (flush : Flush) :
    stream.write data flush =
      ({ stream with
          good := flush.ok
          position := stream.position + (stream.handed data flush).length
          buffered :=
            if flush.ok then
              (stream.buffered ++ data).drop flush.handed
            else
              ((stream.buffered ++ data).drop flush.handed).take flush.kept },
        [.write stream.path stream.position (stream.handed data flush)]) := by
  simp only [write, handed, good, ↓reduceIte, List.length_take,
    ← List.take_eq_take_min, ← List.drop_eq_drop_min]

/-- What is handed over and what stays in the buffer begin what was there. -/
theorem handed_append_buffered_begins
    (good : stream.good = true)
    (data : Bytes)
    (flush : Flush) :
    stream.handed data flush ++ (stream.write data flush).1.buffered <+:
      stream.buffered ++ data := by
  have handedOver :
      stream.handed data flush =
        (stream.buffered ++ data).take flush.handed := by
    simp [handed, good]
  have kept :
      (stream.write data flush).1.buffered <+:
        (stream.buffered ++ data).drop flush.handed := by
    rw [write_good good]
    dsimp only
    split
    · exact List.prefix_rfl
    · exact List.take_prefix _ _
  calc
    stream.handed data flush ++ (stream.write data flush).1.buffered
      <+: (stream.buffered ++ data).take flush.handed ++
            (stream.buffered ++ data).drop flush.handed := by
        rw [handedOver]
        exact (List.prefix_append_right_inj _).mpr kept
    _ = stream.buffered ++ data := List.take_append_drop _ _

/-- A write that does not fail loses nothing. -/
theorem handed_append_buffered
    (good : stream.good = true)
    (data : Bytes)
    {flush : Flush}
    (ok : flush.ok = true) :
    stream.handed data flush ++ (stream.write data flush).1.buffered =
      stream.buffered ++ data := by
  rw [write_good good]
  simp [handed, good, ok]

/-- What reaches the file begins what was written. -/
theorem landing_begins
    (blocks : List (Bytes × Flush))
    (flushed : Nat) :
    stream.landing blocks flushed <+: stream.buffered ++ streamed blocks := by
  induction blocks generalizing stream with
  | nil =>
      rw [streamed_nil, List.append_nil]
      exact List.take_prefix _ _
  | cons block rest inductionHypothesis =>
      obtain ⟨data, flush⟩ := block
      cases good : stream.good with
      | false =>
          rw [landing_failed good]
          exact (List.take_prefix _ _).trans (List.prefix_append _ _)
      | true =>
          rw [landing, streamed_cons, ← List.append_assoc]
          cases ok : flush.ok with
          | true =>
              rw [← handed_append_buffered good data ok, List.append_assoc]
              exact (List.prefix_append_right_inj _).mpr inductionHypothesis
          | false =>
              -- The stream has failed: only its buffer may still be closed in.
              have failed : (stream.write data flush).1.good = false := by
                rw [write_good good, ok]
              have closed :
                  (stream.write data flush).1.landing rest flushed <+:
                    (stream.write data flush).1.buffered := by
                rw [landing_failed failed]
                exact List.take_prefix _ _
              exact
                (((List.prefix_append_right_inj _).mpr closed).trans
                  (handed_append_buffered_begins good data flush)).trans
                  (List.prefix_append _ _)

/-- The file of a stream ends where the stream stands. -/
structure Trails
    (files : Files)
    (stream : OfStream)
    (content : Bytes) : Prop where
  onDisk : files stream.path = some content
  position : stream.position = content.length

/-- A stream that has just been opened stands at the end of its file. -/
theorem trails_opened
    {files : Files}
    {path : Path}
    (empty : files path = some []) :
    Trails files { path } [] :=
  ⟨empty, rfl⟩

/-- What a write hands over is appended to the file. -/
theorem Trails.write
    {files : Files}
    {content : Bytes}
    (trails : stream.Trails files content)
    (data : Bytes)
    (flush : Flush) :
    Trails (filesAfter files (stream.write data flush).2)
      (stream.write data flush).1 (content ++ stream.handed data flush) := by
  cases good : stream.good with
  | false =>
      rw [write_failed good]
      simpa [handed, good] using trails
  | true =>
      rw [write_good good, trails.position]
      refine ⟨?_, (List.length_append ..).symm⟩
      exact FileStore.apply_write_end trails.onDisk _

/-- So is what a close hands over. -/
theorem Trails.close
    {files : Files}
    {content : Bytes}
    (trails : stream.Trails files content)
    (flushed : Nat) :
    filesAfter files (stream.close flushed) stream.path =
      some (content ++ stream.buffered.take flushed) := by
  rw [OfStream.close, trails.position]
  exact FileStore.apply_write_end trails.onDisk _

end OfStream

end RadminPro

import RadminPro.FramebufferMirror
import RadminPro.RowPacking

namespace RadminPro

open ByteCodec
open BufferWindow

/-!
# Screen capture

`ScreenCapture` on a Direct3D device.  What the device answers is an input; what
is asked of it is kept, call by call.  The device wants a frame that it handed
out back before the next, and a texture that is mapped left alone.
-/

/-! ## The device -/

/-- The picture of a texture, within the limits of Direct3D. -/
structure Texture where
  width : Nat
  rows : List Bytes
  widthPositive : 1 ≤ width
  widthLimit : width ≤ 16384
  heightPositive : 1 ≤ rows.length
  heightLimit : rows.length ≤ 16384
  rowLength : ∀ row ∈ rows, row.length = 4 * width

/-- What stands behind the rows of a texture that is mapped. -/
structure RowPadding where
  extra : Nat
  bytes : Nat → Bytes
  limit : extra < 2 ^ 32
  length_bytes : ∀ y, (bytes y).length = extra

/-- A texture that the processor can read, and what has been copied to it. -/
structure StagingTexture where
  width : Nat
  height : Nat
  content : Option Texture := none

/-- What `AcquireNextFrame` returns; a frame may be no texture. -/
inductive NextFrame where
  | waitTimeout
  | accessLost
  | failed
  | frame (presented : Bool) (texture : Option Texture)

/-- What the device answers during `acquire`; `Map` may fail. -/
structure AcquireAnswers where
  next : NextFrame := .waitTimeout
  created : Bool := true
  mapped : Option RowPadding := none

/-- What the device answers during `initialize`. -/
structure InitializeAnswers where
  device : Bool := true
  adapter : Bool := true
  output : Option (Nat × Nat) := none
  output1 : Bool := true
  duplicated : Bool := true

/-- What is asked of the device. -/
inductive DeviceCall where
  | releaseCom
  | acquireNextFrame (ok : Bool)
  | releaseFrame
  | createTexture (width height : Nat) (ok : Bool)
  | copyResource (dstWidth dstHeight srcWidth srcHeight : Nat)
  | map (ok : Bool)
  | unmap
  deriving DecidableEq

/-- A frame is held; a texture is mapped. -/
structure DeviceState where
  held : Bool := false
  mapped : Bool := false
  deriving DecidableEq

/-- A call that the device allows, and what it leaves. -/
def DeviceState.perform (device : DeviceState) :
    DeviceCall → Option DeviceState
  | .releaseCom =>
      if device.held || device.mapped then none else some device
  | .acquireNextFrame ok =>
      if device.held then none else some { device with held := ok }
  | .releaseFrame =>
      if device.held && !device.mapped then
        some { device with held := false }
      else
        none
  | .createTexture .. => some device
  | .copyResource dstWidth dstHeight srcWidth srcHeight =>
      if device.held && !device.mapped && dstWidth = srcWidth &&
          dstHeight = srcHeight then
        some device
      else
        none
  | .map ok => if device.mapped then none else some { device with mapped := ok }
  | .unmap =>
      if device.mapped then some { device with mapped := false } else none

/-! ## The capture -/

/-- The state of the capture. -/
structure ScreenCapture where
  device : Bool := false
  dup : Bool := false
  staging : Option StagingTexture := none
  stagingW : Nat := 0
  stagingH : Nat := 0
  width : Nat := 0
  height : Nat := 0

namespace ScreenCapture

/-- `initialize`; whatever there was is released first. -/
def initializeCapture (answers : InitializeAnswers) : ScreenCapture × Bool :=
  if !answers.device then
    ({}, false)
  else if !answers.adapter then
    ({ device := true }, false)
  else
    match answers.output with
    | none => ({ device := true }, false)
    | some (width, height) =>
        if !answers.output1 || !answers.duplicated then
          ({ device := true, width, height }, false)
        else
          ({ device := true, dup := true, width, height }, true)

/-- The staging texture if it still has the geometry. -/
def currentStaging (capture : ScreenCapture) (tex : Texture) :
    Option StagingTexture :=
  if capture.stagingW ≠ tex.width ∨ capture.stagingH ≠ tex.rows.length then
    none
  else
    capture.staging

/-- The staging texture, created anew if there is none of the geometry. -/
def restage
    (capture : ScreenCapture)
    (answers : AcquireAnswers)
    (tex : Texture) : ScreenCapture × Option StagingTexture × List DeviceCall :=
  match capture.currentStaging tex with
  | some staging => (capture, some staging, [])
  | none =>
      let calls :=
        [DeviceCall.createTexture tex.width tex.rows.length answers.created]
      if answers.created then
        let staging : StagingTexture :=
          { width := tex.width, height := tex.rows.length }
        ({ capture with
            staging := some staging
            stagingW := tex.width
            stagingH := tex.rows.length },
          some staging, calls)
      else
        ({ capture with staging := none }, none, calls)

/-- `CopyResource`; textures of different sizes are not copied. -/
def copyResource (staging : StagingTexture) (tex : Texture) : StagingTexture :=
  if staging.width = tex.width ∧ staging.height = tex.rows.length then
    { staging with content := some tex }
  else
    staging

/-- The memory of a texture that is mapped. -/
def memory (staging : StagingTexture) (padding : RowPadding) : Bytes :=
  match staging.content with
  | some tex => RowPacking.padded tex.rows padding.bytes
  | none => []

/-- The frame that is copied out of the memory, row by row. -/
def readFrame
    (width height : Nat)
    (memory : Bytes)
    (rowPitch : Nat) : Frame :=
  let stride := u32 (width * 4)
  { width
    height
    stride
    pixels :=
      (List.range height).foldl
        (fun pixels y =>
          overlay pixels (sizeT (y * stride))
            (window memory (sizeT (y * rowPitch)) stride))
        (List.replicate (sizeT (stride * height)) 0) }

/-- A texture is copied to the staging texture and read from there. -/
def readTexture
    (capture : ScreenCapture)
    (answers : AcquireAnswers)
    (tex : Texture) : ScreenCapture × CaptureResult × List DeviceCall :=
  match capture.restage answers tex with
  | (capture, none, calls) => (capture, .error, calls ++ [.releaseFrame])
  | (capture, some staging, calls) =>
      let copied := copyResource staging tex
      let capture := { capture with staging := some copied }
      let calls :=
        calls ++
          [.copyResource staging.width staging.height tex.width tex.rows.length,
            .map answers.mapped.isSome]
      match answers.mapped with
      | none => (capture, .error, calls ++ [.releaseFrame])
      | some padding =>
          (capture,
            .ok
              (readFrame tex.width tex.rows.length (memory copied padding)
                (4 * copied.width + padding.extra)),
            calls ++ [.unmap, .releaseFrame])

/-- `acquire`. -/
def acquire
    (capture : ScreenCapture)
    (answers : AcquireAnswers) :
    ScreenCapture × CaptureResult × List DeviceCall :=
  if !capture.dup then
    (capture, .lost, [])
  else
    match answers.next with
    | .waitTimeout => (capture, .timeout, [.acquireNextFrame false])
    | .accessLost => (capture, .lost, [.acquireNextFrame false])
    | .failed => (capture, .error, [.acquireNextFrame false])
    | .frame false _ =>
        (capture, .timeout, [.acquireNextFrame true, .releaseFrame])
    | .frame true none =>
        (capture, .error, [.acquireNextFrame true, .releaseFrame])
    | .frame true (some tex) =>
        let (capture, result, calls) := capture.readTexture answers tex
        (capture, result, .acquireNextFrame true :: calls)

/-- The staging texture has the geometry that is remembered. -/
structure Sound (capture : ScreenCapture) : Prop where
  device : capture.dup = true → capture.device = true
  staging :
    ∀ staging,
      capture.staging = some staging →
      staging.width = capture.stagingW ∧ staging.height = capture.stagingH

section Steps

variable {capture : ScreenCapture}
variable {answers : AcquireAnswers}
variable {tex : Texture}

/-- A capture that has just been initialized is sound. -/
theorem sound_initializeCapture (answers : InitializeAnswers) :
    (initializeCapture answers).1.Sound := by
  unfold initializeCapture
  split
  · exact ⟨by simp, by simp⟩
  · split
    · exact ⟨by simp, by simp⟩
    · split
      · exact ⟨by simp, by simp⟩
      · split <;> exact ⟨by simp, by simp⟩

/-- What `restage` leaves. -/
structure Restaged
    (tex : Texture)
    (before : ScreenCapture)
    (result : ScreenCapture × Option StagingTexture × List DeviceCall) :
    Prop where
  dup : result.1.dup = before.dup
  sound : result.1.Sound
  fits :
    ∀ staging,
      result.2.1 = some staging →
      staging.width = tex.width ∧
        staging.height = tex.rows.length ∧
        result.1.stagingW = tex.width ∧
        result.1.stagingH = tex.rows.length
  calls :
    result.2.2 = [] ∨
      ∃ ok, result.2.2 = [.createTexture tex.width tex.rows.length ok]

/-- A staging texture that is returned has the size of the picture. -/
theorem Sound.restage
    (sound : capture.Sound)
    (answers : AcquireAnswers)
    (tex : Texture) :
    Restaged tex capture (capture.restage answers tex) := by
  unfold ScreenCapture.restage
  cases current : capture.currentStaging tex with
  | some staging =>
      have kept :
          (capture.stagingW = tex.width ∧ capture.stagingH = tex.rows.length) ∧
            capture.staging = some staging := by
        unfold currentStaging at current
        split at current
        · cases current
        · next same =>
            simp only [not_or, not_not] at same
            exact ⟨same, current⟩
      obtain ⟨width, height⟩ := sound.staging staging kept.2
      refine ⟨rfl, sound, ?_, .inl rfl⟩
      intro other same
      obtain rfl := Option.some.inj same
      exact ⟨width.trans kept.1.1, height.trans kept.1.2, kept.1⟩
  | none =>
      cases created : answers.created with
      | true =>
          refine ⟨rfl, ⟨sound.device, ?_⟩, ?_, .inr ⟨true, rfl⟩⟩
          · intro staging same
            obtain rfl := Option.some.inj same
            exact ⟨rfl, rfl⟩
          · intro staging same
            obtain rfl := Option.some.inj same
            exact ⟨rfl, rfl, rfl, rfl⟩
      | false =>
          exact
            ⟨rfl, ⟨sound.device, by simp⟩, by simp, .inr ⟨false, rfl⟩⟩

/-- The frame of a picture, its rows without gaps. -/
def pictureFrame (tex : Texture) : Frame where
  width := tex.width
  height := tex.rows.length
  stride := 4 * tex.width
  pixels := tex.rows.flatten

/-- A frame of a picture is one that the capture can produce. -/
theorem acquired_pictureFrame (tex : Texture) : Acquired (pictureFrame tex) where
  widthPositive := tex.widthPositive
  widthLimit := tex.widthLimit
  heightPositive := tex.heightPositive
  heightLimit := tex.heightLimit
  stride := rfl
  pixels := by
    rw [pictureFrame, List.length_flatten, List.map_congr_left tex.rowLength,
      List.map_const', List.sum_replicate_nat, Nat.mul_comm]

/-- A product of a row and a length within the limits does not wrap. -/
theorem sizeT_mul
    {y length : Nat}
    (rowLimit : y ≤ 16384)
    (lengthLimit : length ≤ 2 ^ 33) :
    sizeT (y * length) = y * length := by
  have bounded : y * length ≤ 16384 * 2 ^ 33 :=
    Nat.mul_le_mul rowLimit lengthLimit
  exact Nat.mod_eq_of_lt (Nat.lt_of_le_of_lt bounded (by norm_num))

/-- What is read of a picture is the picture. -/
theorem readFrame_padded
    (tex : Texture)
    (padding : RowPadding) :
    readFrame tex.width tex.rows.length
        (RowPacking.padded tex.rows padding.bytes)
        (4 * tex.width + padding.extra) =
      pictureFrame tex := by
  have widthLimit := tex.widthLimit
  have heightLimit := tex.heightLimit
  have extraLimit := padding.limit
  have stride : u32 (tex.width * 4) = 4 * tex.width := by
    rw [u32, Nat.mul_comm]
    exact Nat.mod_eq_of_lt (by omega)
  have size :
      sizeT (4 * tex.width * tex.rows.length) =
        4 * tex.width * tex.rows.length := by
    rw [Nat.mul_comm (4 * tex.width)]
    exact sizeT_mul heightLimit (by omega)
  have sameRow :
      ∀ (pixels : Bytes), ∀ y ∈ List.range tex.rows.length,
        overlay pixels (sizeT (y * (4 * tex.width)))
            (window (RowPacking.padded tex.rows padding.bytes)
              (sizeT (y * (4 * tex.width + padding.extra))) (4 * tex.width)) =
          overlay pixels (y * (4 * tex.width))
            (window (RowPacking.padded tex.rows padding.bytes)
              (y * (4 * tex.width + padding.extra)) (4 * tex.width)) := by
    intro pixels y member
    have inside : y < tex.rows.length := List.mem_range.mp member
    rw [sizeT_mul (by omega) (by omega), sizeT_mul (by omega) (by omega)]
  have repacked :
      RowPacking.repack (RowPacking.padded tex.rows padding.bytes)
          (4 * tex.width + padding.extra) (4 * tex.width) tex.rows.length
          (List.replicate (4 * tex.width * tex.rows.length) 0) =
        tex.rows.flatten :=
    RowPacking.repack_padded tex.rowLength padding.length_bytes
      List.length_replicate
  simp only [readFrame, stride, size, pictureFrame, Frame.mk.injEq, true_and]
  rw [List.foldl_ext _ _ _ sameRow]
  exact repacked

/-- What one call of `acquire` comes to. -/
structure Acquires
    (capture : ScreenCapture)
    (answers : AcquireAnswers)
    (result : ScreenCapture × CaptureResult × List DeviceCall) : Prop where
  sound : result.1.Sound
  released : result.2.2.foldlM DeviceState.perform {} = some {}
  picture :
    ∀ frame,
      result.2.1 = .ok frame →
      ∃ tex,
        answers.next = .frame true (some tex) ∧ frame = pictureFrame tex

/-- The calls while a picture is read. -/
theorem perform_reading
    {tex : Texture}
    {created : List DeviceCall}
    (restaged :
      created = [] ∨
        ∃ ok, created = [.createTexture tex.width tex.rows.length ok])
    (calls : List DeviceCall) :
    (created ++ calls).foldlM DeviceState.perform { held := true } =
      calls.foldlM DeviceState.perform { held := true } := by
  rcases restaged with rfl | ⟨ok, rfl⟩ <;> rfl

/-- A picture is read whole, or not at all; the frame is released either way. -/
theorem Sound.readTexture
    (sound : capture.Sound)
    (answers : AcquireAnswers)
    (tex : Texture) :
    let result := capture.readTexture answers tex
    result.1.Sound ∧
      result.2.2.foldlM DeviceState.perform { held := true } = some {} ∧
      (∀ frame, result.2.1 = .ok frame → frame = pictureFrame tex) := by
  intro result
  have restaged := sound.restage answers tex
  cases restage : capture.restage answers tex with
  | mk after rest =>
      obtain ⟨staging?, created⟩ := rest
      rw [restage] at restaged
      obtain ⟨_, stillSound, fits, calls⟩ := restaged
      dsimp only at stillSound fits calls
      cases staging? with
      | none =>
          have failed :
              result = (after, .error, created ++ [.releaseFrame]) := by
            simp only [result, ScreenCapture.readTexture, restage]
          rw [failed]
          exact ⟨stillSound, perform_reading calls _, by simp⟩
      | some staging =>
          obtain ⟨width, height, stagingW, stagingH⟩ := fits staging rfl
          have copied :
              copyResource staging tex = { staging with content := some tex } := by
            rw [copyResource, if_pos ⟨width, height⟩]
          have nowSound :
              ScreenCapture.Sound
                { after with
                  staging := some { staging with content := some tex } } := by
            refine ⟨stillSound.device, ?_⟩
            intro other same
            obtain rfl := Option.some.inj same
            exact ⟨width.trans stagingW.symm, height.trans stagingH.symm⟩
          let copy : DeviceCall :=
            .copyResource staging.width staging.height tex.width tex.rows.length
          have copies :
              ({ held := true } : DeviceState).perform copy =
                some { held := true } := by
            simp [copy, DeviceState.perform, width, height]
          cases mapped : answers.mapped with
          | none =>
              have failed :
                  result =
                    ({ after with
                        staging := some { staging with content := some tex } },
                      .error,
                      created ++ [copy, .map false] ++ [.releaseFrame]) := by
                simp only [result, ScreenCapture.readTexture, restage, copied,
                  mapped]
                rfl
              rw [failed]
              refine ⟨nowSound, ?_, by simp⟩
              dsimp only
              rw [List.append_assoc, perform_reading calls, List.cons_append,
                List.foldlM_cons, copies]
              rfl
          | some padding =>
              have read :
                  readFrame tex.width tex.rows.length
                      (memory { staging with content := some tex } padding)
                      (4 * staging.width + padding.extra) =
                    pictureFrame tex := by
                rw [width]
                exact readFrame_padded tex padding
              have done :
                  result =
                    ({ after with
                        staging := some { staging with content := some tex } },
                      .ok (pictureFrame tex),
                      created ++ [copy, .map true] ++
                        [.unmap, .releaseFrame]) := by
                simp only [result, ScreenCapture.readTexture, restage, copied,
                  mapped, read]
                rfl
              rw [done]
              refine ⟨nowSound, ?_, fun frame same => ?_⟩
              · dsimp only
                rw [List.append_assoc, perform_reading calls, List.cons_append,
                  List.foldlM_cons, copies]
                rfl
              · exact (CaptureResult.ok.inj same).symm

/-- A call of `acquire` gives a whole picture or none, and holds no frame. -/
theorem Sound.acquire
    (sound : capture.Sound)
    (answers : AcquireAnswers) :
    Acquires capture answers (capture.acquire answers) := by
  unfold ScreenCapture.acquire
  split
  · exact ⟨sound, rfl, by simp⟩
  · cases next : answers.next with
    | waitTimeout | accessLost | failed =>
        exact ⟨sound, rfl, by simp⟩
    | frame presented texture =>
        cases presented with
        | false =>
            exact ⟨sound, rfl, by simp⟩
        | true =>
            cases texture with
            | none =>
                exact ⟨sound, rfl, by simp⟩
            | some tex =>
                obtain ⟨stillSound, released, picture⟩ :=
                  sound.readTexture answers tex
                refine ⟨stillSound, ?_, ?_⟩
                · exact released
                · intro frame isOk
                  exact ⟨tex, next, picture frame isOk⟩

end Steps

end ScreenCapture

/-! ## From the desktop to the viewer -/

/-- What the device answers during one pass of the event loop. -/
structure FeedTurn where
  acquire : AcquireAnswers := {}
  again : InitializeAnswers := {}

/-- The capture, the stream and the viewer, with the last picture acquired. -/
structure ScreenFeed where
  capture : ScreenCapture
  captureOk : Bool
  mirror : Mirror := {}
  picture : Option Texture := none
  calls : List DeviceCall := []
  failed : Bool := false

namespace ScreenFeed

/-- The session prepares its capture. -/
def begin (answers : InitializeAnswers) : ScreenFeed :=
  let (capture, captureOk) := ScreenCapture.initializeCapture answers
  { capture, captureOk, calls := [.releaseCom] }

/-- The picture of an acquired frame, as the device handed it out. -/
def pictureAfter (feed : ScreenFeed) (answers : AcquireAnswers) :
    CaptureResult → Option Texture
  | .ok _ =>
      match answers.next with
      | .frame _ texture => texture
      | _ => feed.picture
  | _ => feed.picture

/-- One pass of the event loop; a capture that is lost is prepared again. -/
def step
    (heap : Nat → Bool)
    (feed : ScreenFeed)
    (turn : FeedTurn) : Option ScreenFeed :=
  if !feed.captureOk || feed.failed then
    some feed
  else
    let (capture, result, calls) := feed.capture.acquire turn.acquire
    match feed.mirror.capture heap result with
    | none => none
    | some mirror =>
        let next : ScreenFeed :=
          { feed with
            capture
            mirror
            picture := feed.pictureAfter turn.acquire result
            calls := feed.calls ++ calls }
        match result with
        | .error => some { next with failed := true }
        | .lost =>
            let (capture, captureOk) :=
              ScreenCapture.initializeCapture turn.again
            some
              { next with
                capture
                captureOk
                calls := next.calls ++ [.releaseCom] }
        | .ok _ | .timeout => some next

/-- What every pass keeps. -/
structure Faithful (feed : ScreenFeed) : Prop where
  capture : feed.capture.Sound
  released : feed.calls.foldlM DeviceState.perform {} = some {}
  picture :
    feed.mirror.lastFrame = feed.picture.map ScreenCapture.pictureFrame
  mirror : feed.failed = false → Consistent feed.mirror

section Feeds

variable {heap : Nat → Bool}
variable {feed : ScreenFeed}

/-- A feed that begins is faithful. -/
theorem faithful_begin (answers : InitializeAnswers) :
    (begin answers).Faithful where
  capture := ScreenCapture.sound_initializeCapture answers
  released := rfl
  picture := rfl
  mirror := fun _ =>
    { fits := by simp [begin]
      state := .inl ⟨by simp [begin], rfl, rfl, {}, rfl⟩ }

/-- The last frame of the mirror is the last picture. -/
theorem picture_capture
    {turn : FeedTurn}
    {result : CaptureResult}
    {mirror : Mirror}
    (same : feed.mirror.lastFrame = feed.picture.map ScreenCapture.pictureFrame)
    (isPicture :
      ∀ frame,
        result = .ok frame →
        ∃ tex,
          turn.acquire.next = .frame true (some tex) ∧
            frame = ScreenCapture.pictureFrame tex)
    (captured : feed.mirror.capture heap result = some mirror) :
    mirror.lastFrame =
      (feed.pictureAfter turn.acquire result).map
        ScreenCapture.pictureFrame := by
  simp only [Mirror.capture, Option.bind_eq_bind, Option.bind_eq_some_iff] at captured
  obtain ⟨⟨step, streamer, link⟩, _, done⟩ := captured
  obtain rfl := Option.some.inj done
  cases result with
  | ok frame =>
      obtain ⟨tex, next, rfl⟩ := isPicture frame rfl
      simp only [pictureAfter, next]
      rfl
  | timeout | lost | error =>
      exact same

/-- A pass of the event loop keeps the feed faithful, or ends it. -/
theorem Faithful.step
    (room : ∀ size, size ≤ 2 ^ 30 → heap size = true)
    (faithful : feed.Faithful)
    (turn : FeedTurn) :
    ∃ next, feed.step heap turn = some next ∧ next.Faithful := by
  unfold ScreenFeed.step
  split
  · exact ⟨feed, rfl, faithful⟩
  · next going =>
      have notFailed : feed.failed = false := by
        simp only [Bool.or_eq_true, Bool.not_eq_true', not_or] at going
        simpa using going.2
      have acquires := faithful.capture.acquire turn.acquire
      cases acquired : feed.capture.acquire turn.acquire with
      | mk capture rest =>
          obtain ⟨result, calls⟩ := rest
          rw [acquired] at acquires
          obtain ⟨sound, released, isPicture⟩ := acquires
          dsimp only at sound released isPicture
          have allReleased :
              (feed.calls ++ calls).foldlM DeviceState.perform {} =
                some {} := by
            rw [List.foldlM_append, faithful.released]
            exact released
          have consistent := faithful.mirror notFailed
          cases result with
          | error =>
              have captured :
                  ∃ mirror, feed.mirror.capture heap .error = some mirror :=
                ⟨_, rfl⟩
              obtain ⟨mirror, captured⟩ := captured
              have same := picture_capture faithful.picture isPicture captured
              dsimp only
              rw [captured]
              exact ⟨_, rfl, sound, allReleased, same, by simp⟩
          | lost =>
              have capturable : Capturable .lost :=
                trivial
              obtain ⟨mirror, captured, stillConsistent⟩ :=
                consistent.capture room capturable
              have same := picture_capture faithful.picture isPicture captured
              dsimp only
              rw [captured]
              refine ⟨_, rfl, ScreenCapture.sound_initializeCapture turn.again,
                ?_, same, fun _ => stillConsistent⟩
              dsimp only
              rw [List.foldlM_append, allReleased]
              rfl
          | timeout =>
              have capturable : Capturable .timeout :=
                trivial
              obtain ⟨mirror, captured, stillConsistent⟩ :=
                consistent.capture room capturable
              have same := picture_capture faithful.picture isPicture captured
              dsimp only
              rw [captured]
              exact ⟨_, rfl, sound, allReleased, same, fun _ => stillConsistent⟩
          | ok frame =>
              obtain ⟨tex, next, rfl⟩ := isPicture frame rfl
              have capturable : Capturable (.ok (ScreenCapture.pictureFrame tex)) :=
                ScreenCapture.acquired_pictureFrame tex
              obtain ⟨mirror, captured, stillConsistent⟩ :=
                consistent.capture room capturable
              have same := picture_capture faithful.picture isPicture captured
              dsimp only
              rw [captured]
              exact ⟨_, rfl, sound, allReleased, same, fun _ => stillConsistent⟩

/-- So does a run of the event loop. -/
theorem Faithful.run
    (room : ∀ size, size ≤ 2 ^ 30 → heap size = true)
    (faithful : feed.Faithful)
    (turns : List FeedTurn) :
    ∃ final,
      turns.foldlM (ScreenFeed.step heap) feed = some final ∧
        final.Faithful := by
  induction turns generalizing feed with
  | nil =>
      exact ⟨feed, rfl, faithful⟩
  | cons turn rest inductionHypothesis =>
      obtain ⟨next, stepped, nextFaithful⟩ := faithful.step room turn
      obtain ⟨final, ran, finalFaithful⟩ := inductionHypothesis nextFaithful
      refine ⟨final, ?_, finalFaithful⟩
      rw [List.foldlM_cons, stepped]
      exact ran

end Feeds

end ScreenFeed

/--
Whatever the device answers, every frame that it hands out is given back before
the next and only pictures of one size are copied; and whenever a frame has been
sent, or nothing has changed since, the viewer shows the last picture of the
desktop, byte for byte.
-/
theorem desktop_reaches_viewer
    (heap : Nat → Bool)
    (room : ∀ size, size ≤ 2 ^ 30 → heap size = true)
    (start : InitializeAnswers)
    (turns : List FeedTurn) :
    ∃ feed,
      turns.foldlM (ScreenFeed.step heap) (.begin start) = some feed ∧
        feed.calls.foldlM DeviceState.perform {} = some {} ∧
        (feed.failed = false →
          feed.mirror.lastStep = some .sent ∨
              (feed.mirror.lastStep = some .skipped ∧
                ∃ m ∈ feed.mirror.link.sent, m.op = .known .frameInfo) →
          ∃ tex st,
            feed.picture = some tex ∧
              feed.mirror.link.reader = .running st ∧
              st.front = tex.rows.flatten ∧
              st.w = tex.width ∧ st.h = tex.rows.length) := by
  obtain ⟨feed, ran, faithful⟩ :=
    (ScreenFeed.faithful_begin start).run room turns
  refine ⟨feed, ran, faithful.released, fun notFailed due => ?_⟩
  obtain ⟨frame, last, st, running, front, width, height⟩ :=
    (faithful.mirror notFailed).mirrors.shows due
  rw [faithful.picture, Option.map_eq_some_iff] at last
  obtain ⟨tex, isPicture, rfl⟩ := last
  exact ⟨tex, st, isPicture, running, front, width, height⟩

/-- A picture of one row and two pixels. -/
def tinyTexture : Texture where
  width := 2
  rows := [[1, 2, 3, 4, 5, 6, 7, 8]]
  widthPositive := by decide
  widthLimit := by decide
  heightPositive := by decide
  heightLimit := by decide
  rowLength := by decide

/-- The device hands out the picture, in memory with four bytes behind the row. -/
def tinyAnswers : AcquireAnswers where
  next := .frame true (some tinyTexture)
  mapped := some
    { extra := 4
      bytes := fun _ => List.replicate 4 0
      limit := by decide
      length_bytes := fun _ => List.length_replicate }

/-- The picture, nothing new, an access that is lost and the picture again. -/
def tinyTurns : List FeedTurn :=
  [{ acquire := tinyAnswers }, {},
    { acquire := { next := .accessLost }
      again := { output := some (2, 1) } },
    { acquire := tinyAnswers }]

/-- The picture arrives, an access that is lost in between notwithstanding. -/
theorem desktop_reaches_viewer_tiny :
    ∃ feed tex st,
      tinyTurns.foldlM (ScreenFeed.step fun _ => true)
          (.begin { output := some (2, 1) }) =
        some feed ∧
        feed.calls.foldlM DeviceState.perform {} = some {} ∧
        feed.mirror.lastStep = some .sent ∧
        feed.picture = some tex ∧
        tex.rows = [[1, 2, 3, 4, 5, 6, 7, 8]] ∧
        feed.mirror.link.reader = .running st ∧
        st.front = [1, 2, 3, 4, 5, 6, 7, 8] ∧ st.w = 2 ∧ st.h = 1 := by
  obtain ⟨feed, ran, released, shows⟩ :=
    desktop_reaches_viewer (fun _ => true) (fun _ _ => rfl)
      { output := some (2, 1) } tinyTurns
  have arrived :
      (tinyTurns.foldlM (ScreenFeed.step fun _ => true)
            (.begin { output := some (2, 1) })).map
          (fun feed => (feed.failed, feed.mirror.lastStep)) =
        some (false, some .sent) := by
    decide +kernel
  have picture :
      (tinyTurns.foldlM (ScreenFeed.step fun _ => true)
            (.begin { output := some (2, 1) })).map
          (fun feed => feed.picture.map fun tex => (tex.rows, tex.width)) =
        some (some ([[1, 2, 3, 4, 5, 6, 7, 8]], 2)) := by
    decide +kernel
  rw [ran, Option.map_some, Option.some.injEq] at arrived picture
  obtain ⟨going, isSent⟩ := Prod.mk.inj arrived
  obtain ⟨tex, st, isPicture, running, front, width, height⟩ :=
    shows going (.inl isSent)
  rw [isPicture, Option.map_some, Option.some.injEq, Prod.mk.injEq] at picture
  obtain ⟨rows, isWidth⟩ := picture
  rw [rows] at front height
  rw [isWidth] at width
  exact ⟨feed, tex, st, ran, released, isSent, isPicture, rows, running, front,
    width, height⟩

end RadminPro

import RadminPro.WireProtocol

namespace RadminPro

open ByteCodec

/-!
# Exactness of the message codecs

Every `decode` accepts exactly the encodings of its message type followed by an
arbitrary tail, and returns the message that was encoded.  The only freedom is
the keyframe flag, where any non-zero byte reads as set.
-/

/-- What an exact parse accepts of a whole payload. -/
theorem parseAll_ok_iff
    {α : Type}
    {parse : Parse α}
    {format : α → Bytes → Prop}
    (reads : Reads parse format)
    {payload : Bytes}
    {value : α} :
    parseAll parse payload = .ok value ↔
      ∃ bytes, format value bytes ∧ ∃ tail, payload = bytes ++ tail := by
  rw [parseAll, reads.decode_ok_iff]
  constructor
  · rintro ⟨bytes, tail, written, shape⟩
    exact ⟨bytes, written, tail, shape⟩
  · rintro ⟨bytes, written, tail, shape⟩
    exact ⟨bytes, tail, written, shape⟩

/-- A flag byte is set when it is not zero. -/
theorem flag_reads :
    Reads ((fun byte => byte != 0) <$> ByteReader.u8)
      (fun value written =>
        ∃ byte : UInt8, written = putU8 byte ∧ value = (byte != 0)) :=
  ByteReader.u8_reads.map _

/-- A payload decodes to a message exactly when it starts with its encoding. -/
theorem HelloMsg.decode_ok_iff
    {payload : Bytes}
    {m : HelloMsg} :
    HelloMsg.decode payload = .ok m ↔
      m.clientName.length < 2 ^ 32 ∧
        ∃ tail, payload = m.encode ++ tail := by
  obtain ⟨version, clientName⟩ := m
  rw [HelloMsg.decode, parseAll_ok_iff
    (ByteReader.u16_reads.bind fun version =>
      ByteReader.str_reads.bind fun clientName =>
      Reads.pure _)]
  simp [HelloMsg.encode, and_assoc]

/-- A payload decodes to a message exactly when it starts with its encoding. -/
theorem ServerHelloMsg.decode_ok_iff
    {payload : Bytes}
    {m : ServerHelloMsg} :
    ServerHelloMsg.decode payload = .ok m ↔
      m.serverName.length < 2 ^ 32 ∧
        ∃ tail, payload = m.encode ++ tail := by
  obtain ⟨version, serverName⟩ := m
  rw [ServerHelloMsg.decode, parseAll_ok_iff
    (ByteReader.u16_reads.bind fun version =>
      ByteReader.str_reads.bind fun serverName =>
      Reads.pure _)]
  simp [ServerHelloMsg.encode, and_assoc]

/-- A payload decodes to a message exactly when it starts with its encoding. -/
theorem AuthRequestMsg.decode_ok_iff
    {payload : Bytes}
    {m : AuthRequestMsg} :
    AuthRequestMsg.decode payload = .ok m ↔
      m.username.length < 2 ^ 32 ∧
        m.password.length < 2 ^ 32 ∧
        ∃ tail, payload = m.encode ++ tail := by
  obtain ⟨username, password⟩ := m
  rw [AuthRequestMsg.decode, parseAll_ok_iff
    (ByteReader.str_reads.bind fun username =>
      ByteReader.str_reads.bind fun password =>
      Reads.pure _)]
  simp [AuthRequestMsg.encode, and_assoc]

/-- A payload decodes to a message exactly when it starts with its encoding. -/
theorem AuthResultMsg.decode_ok_iff
    {payload : Bytes}
    {m : AuthResultMsg} :
    AuthResultMsg.decode payload = .ok m ↔
      ∃ tail, payload = m.encode ++ tail := by
  obtain ⟨status, grantedRights, sessionId⟩ := m
  rw [AuthResultMsg.decode, parseAll_ok_iff
    ((readEnum_reads AuthStatusName).bind fun status =>
      ByteReader.u32_reads.bind fun grantedRights =>
      ByteReader.u64_reads.bind fun sessionId =>
      Reads.pure _)]
  simp [AuthResultMsg.encode, and_assoc]

/-- A payload decodes to a message exactly when it starts with its encoding. -/
theorem SessionStartMsg.decode_ok_iff
    {payload : Bytes}
    {m : SessionStartMsg} :
    SessionStartMsg.decode payload = .ok m ↔
      ∃ tail, payload = m.encode ++ tail := by
  obtain ⟨mode⟩ := m
  rw [SessionStartMsg.decode, parseAll_ok_iff
    ((readEnum_reads ConnectionModeName).bind fun mode =>
      Reads.pure _)]
  simp [SessionStartMsg.encode]

/-- A payload decodes to a message exactly when it starts with its encoding. -/
theorem FrameInfoMsg.decode_ok_iff
    {payload : Bytes}
    {m : FrameInfoMsg} :
    FrameInfoMsg.decode payload = .ok m ↔
      ∃ flag tail,
        m.keyframe = (flag != 0) ∧
          payload =
            putU32 m.sequence ++ putU16 m.width ++ putU16 m.height ++
              putU32 m.stride ++ putU8 m.format.toByte ++ putU8 flag ++ tail := by
  obtain ⟨sequence, width, height, stride, format, keyframe⟩ := m
  rw [FrameInfoMsg.decode, parseAll_ok_iff
    (ByteReader.u32_reads.bind fun sequence =>
      ByteReader.u16_reads.bind fun width =>
      ByteReader.u16_reads.bind fun height =>
      ByteReader.u32_reads.bind fun stride =>
      (readEnum_reads PixelFormatName).bind fun format =>
      flag_reads.bind fun keyframe =>
      Reads.pure _)]
  simp [and_assoc]

/-- A payload decodes to a message exactly when it starts with its encoding. -/
theorem FrameDataMsg.decode_ok_iff
    {payload : Bytes}
    {m : FrameDataMsg} :
    FrameDataMsg.decode payload = .ok m ↔
      m.data.length < 2 ^ 32 ∧
        ∃ tail, payload = m.encode ++ tail := by
  obtain ⟨sequence, offset, data⟩ := m
  rw [FrameDataMsg.decode, parseAll_ok_iff
    (ByteReader.u32_reads.bind fun sequence =>
      ByteReader.u32_reads.bind fun offset =>
      ByteReader.blob_reads.bind fun data =>
      Reads.pure _)]
  simp [FrameDataMsg.encode, and_assoc]

/-- A payload decodes to a message exactly when it starts with its encoding. -/
theorem FrameRectMsg.decode_ok_iff
    {payload : Bytes}
    {m : FrameRectMsg} :
    FrameRectMsg.decode payload = .ok m ↔
      m.pixels.length < 2 ^ 32 ∧
        ∃ tail, payload = m.encode ++ tail := by
  obtain ⟨sequence, x, y, w, h, pixels⟩ := m
  rw [FrameRectMsg.decode, parseAll_ok_iff
    (ByteReader.u32_reads.bind fun sequence =>
      ByteReader.u16_reads.bind fun x =>
      ByteReader.u16_reads.bind fun y =>
      ByteReader.u16_reads.bind fun w =>
      ByteReader.u16_reads.bind fun h =>
      ByteReader.blob_reads.bind fun pixels =>
      Reads.pure _)]
  simp [FrameRectMsg.encode, and_assoc]

/-- A payload decodes to a message exactly when it starts with its encoding. -/
theorem FileUploadReqMsg.decode_ok_iff
    {payload : Bytes}
    {m : FileUploadReqMsg} :
    FileUploadReqMsg.decode payload = .ok m ↔
      m.remotePath.length < 2 ^ 32 ∧
        ∃ tail, payload = m.encode ++ tail := by
  obtain ⟨remotePath, size, sha256⟩ := m
  rw [FileUploadReqMsg.decode, parseAll_ok_iff
    (ByteReader.str_reads.bind fun remotePath =>
      ByteReader.u64_reads.bind fun size =>
      getHash_reads.bind fun sha256 =>
      Reads.pure _)]
  simp [FileUploadReqMsg.encode, and_assoc]

/-- A payload decodes to a message exactly when it starts with its encoding. -/
theorem FileAcceptMsg.decode_ok_iff
    {payload : Bytes}
    {m : FileAcceptMsg} :
    FileAcceptMsg.decode payload = .ok m ↔
      ∃ tail, payload = m.encode ++ tail := by
  obtain ⟨transferId, size, sha256⟩ := m
  rw [FileAcceptMsg.decode, parseAll_ok_iff
    (ByteReader.u32_reads.bind fun transferId =>
      ByteReader.u64_reads.bind fun size =>
      getHash_reads.bind fun sha256 =>
      Reads.pure _)]
  simp [FileAcceptMsg.encode, and_assoc]

/-- A payload decodes to a message exactly when it starts with its encoding. -/
theorem FileBlockMsg.decode_ok_iff
    {payload : Bytes}
    {m : FileBlockMsg} :
    FileBlockMsg.decode payload = .ok m ↔
      m.data.length < 2 ^ 32 ∧
        ∃ tail, payload = m.encode ++ tail := by
  obtain ⟨transferId, sequence, data⟩ := m
  rw [FileBlockMsg.decode, parseAll_ok_iff
    (ByteReader.u32_reads.bind fun transferId =>
      ByteReader.u32_reads.bind fun sequence =>
      ByteReader.blob_reads.bind fun data =>
      Reads.pure _)]
  simp [FileBlockMsg.encode, and_assoc]

/-- A payload decodes to a message exactly when it starts with its encoding. -/
theorem FileVerifyMsg.decode_ok_iff
    {payload : Bytes}
    {m : FileVerifyMsg} :
    FileVerifyMsg.decode payload = .ok m ↔
      ∃ tail, payload = m.encode ++ tail := by
  obtain ⟨transferId, status⟩ := m
  rw [FileVerifyMsg.decode, parseAll_ok_iff
    (ByteReader.u32_reads.bind fun transferId =>
      (readEnum_reads FileOpStatusName).bind fun status =>
      Reads.pure _)]
  simp [FileVerifyMsg.encode, and_assoc]

/-- A payload decodes to a message exactly when it starts with its encoding. -/
theorem FileMoveMsg.decode_ok_iff
    {payload : Bytes}
    {m : FileMoveMsg} :
    FileMoveMsg.decode payload = .ok m ↔
      m.srcPath.length < 2 ^ 32 ∧
        m.dstPath.length < 2 ^ 32 ∧
        ∃ tail, payload = m.encode ++ tail := by
  obtain ⟨srcPath, dstPath⟩ := m
  rw [FileMoveMsg.decode, parseAll_ok_iff
    (ByteReader.str_reads.bind fun srcPath =>
      ByteReader.str_reads.bind fun dstPath =>
      Reads.pure _)]
  simp [FileMoveMsg.encode, and_assoc]

/-- A payload decodes to a message exactly when it starts with its encoding. -/
theorem FileDeleteMsg.decode_ok_iff
    {payload : Bytes}
    {m : FileDeleteMsg} :
    FileDeleteMsg.decode payload = .ok m ↔
      m.path.length < 2 ^ 32 ∧
        ∃ tail, payload = m.encode ++ tail := by
  obtain ⟨path⟩ := m
  rw [FileDeleteMsg.decode, parseAll_ok_iff
    (ByteReader.str_reads.bind fun path =>
      Reads.pure _)]
  simp [FileDeleteMsg.encode]

/-- A payload decodes to a message exactly when it starts with its encoding. -/
theorem FileOpResultMsg.decode_ok_iff
    {payload : Bytes}
    {m : FileOpResultMsg} :
    FileOpResultMsg.decode payload = .ok m ↔
      m.message.length < 2 ^ 32 ∧
        ∃ tail, payload = m.encode ++ tail := by
  obtain ⟨status, message⟩ := m
  rw [FileOpResultMsg.decode, parseAll_ok_iff
    ((readEnum_reads FileOpStatusName).bind fun status =>
      ByteReader.str_reads.bind fun message =>
      Reads.pure _)]
  simp [FileOpResultMsg.encode, and_assoc]

/-- A payload decodes to a message exactly when it starts with its encoding. -/
theorem ErrorMsg.decode_ok_iff
    {payload : Bytes}
    {m : ErrorMsg} :
    ErrorMsg.decode payload = .ok m ↔
      m.message.length < 2 ^ 32 ∧
        ∃ tail, payload = m.encode ++ tail := by
  obtain ⟨code, message⟩ := m
  rw [ErrorMsg.decode, parseAll_ok_iff
    (ByteReader.u32_reads.bind fun code =>
      ByteReader.str_reads.bind fun message =>
      Reads.pure _)]
  simp [ErrorMsg.encode, and_assoc]

end RadminPro

import RadminPro.WireUtil

namespace RadminPro

open ByteCodec

/-!
# The client's TLS context

`makeClient` decides what the handshake verifies, `checkPeerPin` compares the
fingerprint of the server's certificate afterwards.  OpenSSL answers the calls;
what it knows about certificates is a parameter.
-/

/-- What the TLS client is configured with. -/
structure TlsClientConfig where
  caPath : Bytes := []
  pinnedSha256Hex : Bytes := []
  requireVerification : Bool := true

/-- The argument of `SSL_CTX_set_verify`, with the CA bundle for `SSL_VERIFY_PEER`. -/
inductive VerifyMode where
  | none
  | peer (caPath : Bytes)
  deriving DecidableEq

/-- Why no context is made. -/
inductive TlsError where
  | noContext
  | notHardened
  | badCa (caPath : Bytes)
  | misconfigured
  deriving DecidableEq

/-- What OpenSSL answers while a context is made. -/
structure TlsSetup where
  contextCreated : Bool := true
  hardened : Bool := true
  caLoaded : Bool := true

/-- What OpenSSL knows about certificates. -/
structure OpenSsl (Certificate : Type) where
  der : Certificate → Bytes
  chainVerifies : Bytes → Certificate → Bool
  issuedFor : Certificate → Bytes → Bool

/-- A context of the client. -/
structure TlsContext where
  pinnedFp : Bytes
  verify : VerifyMode
  deriving DecidableEq

namespace TlsContext

/-- What `normalizeFp` leaves out. -/
def isFpSeparator (c : UInt8) : Bool :=
  c == 58 || c == 32 || c == 45

/-- `tolower`, in the C locale. -/
def tolower (c : UInt8) : UInt8 :=
  if 65 ≤ c ∧ c ≤ 90 then c + 32 else c

/-- A fingerprint without separators, in lower case. -/
def normalizeFp (s : Bytes) : Bytes :=
  (s.filter fun c => !isFpSeparator c).map tolower

/-- `CRYPTO_memcmp` finds no difference. -/
def constantTimeEquals (a b : Bytes) : Bool :=
  a == b

/-- Decide what the handshake verifies. -/
def makeClient (setup : TlsSetup) (cfg : TlsClientConfig) :
    Except TlsError TlsContext :=
  if !setup.contextCreated then
    .error .noContext
  else if !setup.hardened then
    .error .notHardened
  else
    let pin := normalizeFp cfg.pinnedSha256Hex
    if !cfg.caPath.isEmpty then
      if !setup.caLoaded then
        .error (.badCa cfg.caPath)
      else
        .ok { pinnedFp := pin, verify := .peer cfg.caPath }
    else if !pin.isEmpty then
      .ok { pinnedFp := pin, verify := .none }
    else if cfg.requireVerification then
      .error .misconfigured
    else
      .ok { pinnedFp := pin, verify := .none }

/-- Compare the fingerprint of the server's certificate, if there is a pin. -/
def checkPeerPin
    (sha256 : Bytes → Hash256)
    (ctx : TlsContext)
    (der : Option Bytes) : Bool :=
  if ctx.pinnedFp.isEmpty then
    true
  else
    match der with
    | none => false
    | some der =>
        let got := toHex (sha256 der).bytes
        got.length == ctx.pinnedFp.length &&
          constantTimeEquals got ctx.pinnedFp

/-! ## Fingerprints -/

/--
A text writes lower-case digits: in either case, with separators anywhere.
-/
inductive Writes : Bytes → Bytes → Prop where
  | nil : Writes [] []
  | separator
      {text digits : Bytes} {c : UInt8}
      (isSeparator : isFpSeparator c = true)
      (rest : Writes text digits) :
      Writes (c :: text) digits
  | digit
      {text digits : Bytes} {c : UInt8}
      (noSeparator : isFpSeparator c = false)
      (rest : Writes text digits) :
      Writes (c :: text) (tolower c :: digits)

/-- Normalising a text finds the digits that it writes. -/
theorem normalizeFp_eq_iff
    {text digits : Bytes} :
    normalizeFp text = digits ↔ Writes text digits := by
  constructor
  · rintro rfl
    induction text with
    | nil => exact .nil
    | cons c rest inductionHypothesis =>
        cases separates : isFpSeparator c with
        | true => simpa [normalizeFp, separates] using .separator separates inductionHypothesis
        | false => simpa [normalizeFp, separates] using .digit separates inductionHypothesis
  · intro writes
    induction writes with
    | nil => rfl
    | separator isSeparator rest inductionHypothesis =>
        simpa [normalizeFp, isSeparator] using inductionHypothesis
    | digit noSeparator rest inductionHypothesis =>
        simpa [normalizeFp, noSeparator] using inductionHypothesis

end TlsContext

end RadminPro

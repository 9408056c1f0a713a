import RadminPro.ClientLogin

namespace RadminPro

open ByteCodec
open TlsContext

/-!
# The server's identity before the credentials

A pin is compared with the certificate, and under a CA bundle OpenSSL verifies
the chain.  Nobody asks whose name the certificate bears: under a CA bundle any
certificate of that authority will do, unless a pin excludes it.
-/

/-- A pin takes effect: it is not only separators. -/
def EffectivePin (pin : Bytes) : Prop :=
  ∃ c ∈ pin, isFpSeparator c = false

section Identity

variable {Certificate : Type}

/-- What a certificate has to satisfy before the credentials are sent. -/
structure Identifies
    (sha256 : Bytes → Hash256)
    (ssl : OpenSsl Certificate)
    (cfg : ClientConfig)
    (c : Certificate) : Prop where
  pin :
    EffectivePin cfg.pinSha256Hex →
    Writes cfg.pinSha256Hex (toHex (sha256 (ssl.der c)).bytes)
  chain :
    cfg.caPath ≠ [] →
    ssl.chainVerifies cfg.caPath c = true ∧ ssl.issuedFor c cfg.host = true
  configured : EffectivePin cfg.pinSha256Hex ∨ cfg.caPath ≠ []

/-- The credentials are handed to the transport. -/
def SendsCredentials (run : LoginRun) : Prop :=
  ∃ m ∈ run.wrote, m.op = .known .authRequest

/-- The credentials go to an identified server only, else the login fails. -/
structure IdentityFirst
    (sha256 : Bytes → Hash256)
    (ssl : OpenSsl Certificate)
    (certificate : Option Certificate)
    (cfg : ClientConfig)
    (run : LoginRun) : Prop where
  identified :
    SendsCredentials run →
    ∃ c, certificate = some c ∧ Identifies sha256 ssl cfg c
  refused :
    (¬∃ c, certificate = some c ∧ Identifies sha256 ssl cfg c) →
    ¬SendsCredentials run ∧ run.ended = .returned false

variable {sha256 : Bytes → Hash256}
variable {ssl : OpenSsl Certificate}
variable {certificate : Option Certificate}
variable {cfg : ClientConfig}
variable {answers : LoginAnswers ssl certificate}

/-! ## The pin -/

/-- A pin that says nothing is normalised away. -/
theorem normalizeFp_eq_nil_iff
    {pin : Bytes} :
    normalizeFp pin = [] ↔ ¬EffectivePin pin := by
  simp [normalizeFp, EffectivePin, List.filter_eq_nil_iff]

/-- The pin is compared with a certificate that is there, if it says something. -/
theorem checkPeerPin_iff
    {pin : Bytes}
    {verify : VerifyMode}
    {der : Option Bytes} :
    TlsContext.checkPeerPin sha256 { pinnedFp := normalizeFp pin, verify } der =
        true ↔
      (EffectivePin pin →
        ∃ bytes, der = some bytes ∧ Writes pin (toHex (sha256 bytes).bytes)) := by
  by_cases pinned : EffectivePin pin
  · have present : (normalizeFp pin).isEmpty = false := by
      rw [List.isEmpty_eq_false_iff]
      exact fun isNil => normalizeFp_eq_nil_iff.mp isNil pinned
    cases der with
    | none =>
        simp [TlsContext.checkPeerPin, present, pinned]
    | some bytes =>
        have compared :
            TlsContext.checkPeerPin sha256
                { pinnedFp := normalizeFp pin, verify } (some bytes) = true ↔
              normalizeFp pin = toHex (sha256 bytes).bytes := by
          simp only [TlsContext.checkPeerPin, present, Bool.false_eq_true,
            ↓reduceIte, constantTimeEquals, Bool.and_eq_true, beq_iff_eq]
          constructor
          · exact fun same => same.2.symm
          · exact fun same => ⟨congrArg List.length same.symm, same.symm⟩
        rw [compared, normalizeFp_eq_iff]
        simp [pinned]
  · have absent : (normalizeFp pin).isEmpty = true :=
      List.isEmpty_iff.mpr (normalizeFp_eq_nil_iff.mpr pinned)
    simp [TlsContext.checkPeerPin, absent, pinned]

/-! ## The login, step by step -/

/-- The loop of the handshake ends as its last call does. -/
@[simp] theorem shakeHands_eq
    (wants : List SslWant)
    (shaken : Bool) :
    ClientApp.shakeHands wants shaken = shaken := by
  induction wants with
  | nil => rfl
  | cons want rest inductionHypothesis =>
      cases want with
      | read => exact inductionHypothesis
      | write => exact inductionHypothesis

/-- What is decided before the handshake. -/
theorem makeClient_ok_iff
    {setup : TlsSetup}
    {ctx : TlsContext} :
    TlsContext.makeClient setup
        { caPath := cfg.caPath, pinnedSha256Hex := cfg.pinSha256Hex } = .ok ctx ↔
      setup.contextCreated = true ∧ setup.hardened = true ∧
        ctx.pinnedFp = normalizeFp cfg.pinSha256Hex ∧
        ((cfg.caPath ≠ [] ∧ setup.caLoaded = true ∧
            ctx.verify = .peer cfg.caPath) ∨
          (cfg.caPath = [] ∧ EffectivePin cfg.pinSha256Hex ∧ ctx.verify = .none)) := by
  obtain ⟨pinnedFp, verify⟩ := ctx
  cases created : setup.contextCreated with
  | false => simp [TlsContext.makeClient, created]
  | true =>
      cases hardened : setup.hardened with
      | false => simp [TlsContext.makeClient, created, hardened]
      | true =>
          by_cases noCa : cfg.caPath = []
          · by_cases pinned : EffectivePin cfg.pinSha256Hex
            · have present : (normalizeFp cfg.pinSha256Hex).isEmpty = false := by
                rw [List.isEmpty_eq_false_iff]
                exact fun isNil => normalizeFp_eq_nil_iff.mp isNil pinned
              simp only [TlsContext.makeClient, created, hardened, noCa,
                present, List.isEmpty_nil, ne_eq, Bool.not_true, Bool.not_false,
                Bool.false_eq_true, ↓reduceIte, Except.ok.injEq, mk.injEq,
                not_true_eq_false, false_and, pinned, true_and, false_or]
              exact and_congr eq_comm eq_comm
            · have absent : normalizeFp cfg.pinSha256Hex = [] :=
                normalizeFp_eq_nil_iff.mpr pinned
              simp [TlsContext.makeClient, created, hardened, noCa, absent,
                pinned]
          · cases loaded : setup.caLoaded with
            | false =>
                simp [TlsContext.makeClient, created, hardened, noCa, loaded]
            | true =>
                have hasCa : cfg.caPath.isEmpty = false :=
                  List.isEmpty_eq_false_iff.mpr noCa
                simp only [TlsContext.makeClient, created, hardened, hasCa,
                  loaded, Bool.not_true, Bool.not_false, Bool.false_eq_true,
                  ↓reduceIte, Except.ok.injEq, mk.injEq, noCa, ne_eq,
                  not_false_eq_true, true_and, false_and, or_false]
                exact and_congr eq_comm eq_comm

/-- A login that does not send the credentials fails, and sends at most a greeting. -/
theorem failed_or_logged_in
    (sha256 : Bytes → Hash256)
    (cfg : ClientConfig)
    (answers : LoginAnswers ssl certificate) :
    (¬SendsCredentials (ClientApp.connectAndAuth sha256 cfg answers) ∧
        (ClientApp.connectAndAuth sha256 cfg answers).ended =
          .returned false) ∨
      ∃ ctx,
        TlsContext.makeClient answers.setup
            { caPath := cfg.caPath, pinnedSha256Hex := cfg.pinSha256Hex } =
          .ok ctx ∧
          ClientApp.handshake sha256 ctx answers = true := by
  unfold ClientApp.connectAndAuth
  split
  · exact .inl ⟨by simp [SendsCredentials], rfl⟩
  · next ctx made =>
      split
      · exact .inl ⟨by simp [SendsCredentials], rfl⟩
      · split
        · exact .inl ⟨by simp [SendsCredentials], rfl⟩
        · next shaken =>
            have through : ClientApp.handshake sha256 ctx answers = true := by
              simp only [Bool.not_eq_true', Bool.not_eq_false, Bool.and_eq_true]
                at shaken
              exact shaken.2
            exact .inr ⟨ctx, made, through⟩

/-- What the handshake has established, whatever name the certificate bears. -/
theorem handshake_identifies
    {ctx : TlsContext}
    (made :
      TlsContext.makeClient answers.setup
          { caPath := cfg.caPath, pinnedSha256Hex := cfg.pinSha256Hex } =
        .ok ctx)
    (through : ClientApp.handshake sha256 ctx answers = true) :
    ∃ c, certificate = some c ∧
      (EffectivePin cfg.pinSha256Hex →
        Writes cfg.pinSha256Hex (toHex (sha256 (ssl.der c)).bytes)) ∧
      (cfg.caPath ≠ [] → ssl.chainVerifies cfg.caPath c = true) ∧
      (EffectivePin cfg.pinSha256Hex ∨ cfg.caPath ≠ []) := by
  obtain ⟨pinnedFp, verify⟩ := ctx
  obtain ⟨-, -, rfl, mode⟩ := makeClient_ok_iff.mp made
  simp only [ClientApp.handshake, shakeHands_eq, Bool.and_eq_true] at through
  obtain ⟨shaken, pinChecked⟩ := through
  rw [checkPeerPin_iff] at pinChecked
  have presented :
      ∀ bytes,
        (if answers.encoded then certificate.map ssl.der else none) =
          some bytes →
        ∃ c, certificate = some c ∧ ssl.der c = bytes := by
    intro bytes isDer
    split at isDer
    · exact Option.map_eq_some_iff.mp isDer
    · cases isDer
  rcases mode with ⟨hasCa, -, rfl⟩ | ⟨noCa, pinned, -⟩
  · obtain ⟨c, isCertificate, verifies⟩ := answers.failsOnBadChain _ shaken
    refine ⟨c, isCertificate, fun pinned => ?_, fun _ => verifies, .inr hasCa⟩
    obtain ⟨bytes, isDer, writes⟩ := pinChecked pinned
    obtain ⟨other, isOther, rfl⟩ := presented bytes isDer
    rw [isCertificate, Option.some.injEq] at isOther
    rwa [isOther]
  · obtain ⟨bytes, isDer, writes⟩ := pinChecked pinned
    obtain ⟨c, isCertificate, rfl⟩ := presented bytes isDer
    exact ⟨c, isCertificate, fun _ => writes,
      fun hasCa => (hasCa noCa).elim, .inl pinned⟩

/-- What the client has written stays written. -/
theorem authAnswered_wrote
    (run : LoginRun)
    (reply : Option Message) :
    ∃ more, (ClientApp.authAnswered run reply).wrote = run.wrote ++ more := by
  have same : ∃ more, run.wrote = run.wrote ++ more :=
    ⟨[], (List.append_nil _).symm⟩
  cases reply with
  | none => exact same
  | some m =>
      simp only [ClientApp.authAnswered]
      split
      · split
        · split
          · exact same
          · exact same
        · exact same
      · split
        · exact same
        · split
          · exact same
          · exact ⟨_, rfl⟩

/-- A login through a handshake that stood hands out the credentials. -/
theorem logIn_sends
    {greeting : Message}
    (greets : answers.greeting = some greeting)
    (isHello : greeting.op = .known .serverHello) :
    SendsCredentials (ClientApp.logIn cfg answers) := by
  refine ⟨ClientApp.authMessage cfg, ?_, rfl⟩
  simp only [ClientApp.logIn, greets, isHello, ne_eq, not_true_eq_false,
    ↓reduceIte]
  obtain ⟨more, shape⟩ :=
    authAnswered_wrote
      { cfg := { cfg with password := [] }
        wrote := [ClientApp.helloMessage] ++ [ClientApp.authMessage cfg]
        ended := .returned false }
      answers.verdict
  rw [shape]
  simp

/-! ## Who gets the credentials -/

/-- A certificate that the checks let through under another name. -/
structure Impostor
    (sha256 : Bytes → Hash256)
    (ssl : OpenSsl Certificate)
    (cfg : ClientConfig)
    (c : Certificate) : Prop where
  hasCa : cfg.caPath ≠ []
  verifies : ssl.chainVerifies cfg.caPath c = true
  otherName : ssl.issuedFor c cfg.host = false
  pin :
    EffectivePin cfg.pinSha256Hex →
    Writes cfg.pinSha256Hex (toHex (sha256 (ssl.der c)).bytes)

/-- The surroundings in which everything else goes well. -/
def smoothAnswers
    (ssl : OpenSsl Certificate)
    (c : Certificate) : LoginAnswers ssl (some c) where
  shaken := fun verify =>
    match verify with
    | .none => true
    | .peer caPath => ssl.chainVerifies caPath c
  failsOnBadChain := fun _ verifies => ⟨c, rfl, verifies⟩
  greeting :=
    some ⟨.known .serverHello,
      ServerHelloMsg.encode { serverName := ascii "radminpro" }⟩

/-- An impostor that greets gets the credentials. -/
theorem Impostor.sends
    {c : Certificate}
    (impostor : Impostor sha256 ssl cfg c) :
    SendsCredentials
      (ClientApp.connectAndAuth sha256 cfg (smoothAnswers ssl c)) := by
  have made :
      TlsContext.makeClient (smoothAnswers ssl c).setup
          { caPath := cfg.caPath, pinnedSha256Hex := cfg.pinSha256Hex } =
        .ok { pinnedFp := normalizeFp cfg.pinSha256Hex
              verify := .peer cfg.caPath } :=
    makeClient_ok_iff.mpr
      ⟨rfl, rfl, rfl, .inl ⟨impostor.hasCa, rfl, rfl⟩⟩
  have through :
      ClientApp.handshake sha256
          { pinnedFp := normalizeFp cfg.pinSha256Hex
            verify := .peer cfg.caPath }
          (smoothAnswers ssl c) = true := by
    simp only [ClientApp.handshake, shakeHands_eq, Bool.and_eq_true,
      checkPeerPin_iff]
    exact ⟨impostor.verifies, fun pinned => ⟨_, rfl, impostor.pin pinned⟩⟩
  have loggedIn :
      ClientApp.connectAndAuth sha256 cfg (smoothAnswers ssl c) =
        ClientApp.logIn cfg (smoothAnswers ssl c) := by
    simp only [ClientApp.connectAndAuth, made, through]
    rfl
  rw [loggedIn]
  exact logIn_sends rfl rfl

/--
A client sends its credentials to identified servers only exactly when the
certificate that is presented is no impostor: under a CA bundle, one of that
authority and as pinned, but issued for another host.
-/
theorem identity_before_credentials
    (sha256 : Bytes → Hash256)
    (ssl : OpenSsl Certificate)
    (cfg : ClientConfig)
    (certificate : Option Certificate) :
    (∀ answers : LoginAnswers ssl certificate,
        IdentityFirst sha256 ssl certificate cfg
          (ClientApp.connectAndAuth sha256 cfg answers)) ↔
      ∀ c, certificate = some c → ¬Impostor sha256 ssl cfg c := by
  constructor
  · rintro identityFirst c rfl impostor
    obtain ⟨other, isOther, identifies⟩ :=
      (identityFirst (smoothAnswers ssl c)).identified impostor.sends
    rw [Option.some.injEq] at isOther
    have named := (identifies.chain impostor.hasCa).2
    rw [← isOther, impostor.otherName] at named
    cases named
  · intro noImpostor answers
    have checked :
        (¬SendsCredentials (ClientApp.connectAndAuth sha256 cfg answers) ∧
            (ClientApp.connectAndAuth sha256 cfg answers).ended =
              .returned false) ∨
          ∃ c, certificate = some c ∧ Identifies sha256 ssl cfg c := by
      rcases failed_or_logged_in sha256 cfg answers with
        failed | ⟨ctx, made, through⟩
      · exact .inl failed
      · obtain ⟨c, isCertificate, pin, chain, configured⟩ :=
          handshake_identifies made through
        refine .inr ⟨c, isCertificate, pin, fun hasCa => ⟨chain hasCa, ?_⟩,
          configured⟩
        refine Bool.eq_true_of_not_eq_false fun otherName => ?_
        exact noImpostor c isCertificate
          ⟨hasCa, chain hasCa, otherName, pin⟩
    exact
      { identified := fun sends =>
          checked.resolve_left fun failed => failed.1 sends
        refused := fun unidentified => checked.resolve_right unidentified }

end Identity

/-- An authority that has issued one certificate, for another host. -/
def otherHostSsl : OpenSsl Unit where
  der := fun _ => ascii "certificate"
  chainVerifies := fun caPath _ => caPath == ascii "ca.pem"
  issuedFor := fun _ host => host == ascii "other.example"

/-- A client that relies on that authority. -/
def caConfig : ClientConfig where
  host := ascii "server.example"
  username := ascii "admin"
  password := ascii "secret"
  caPath := ascii "ca.pem"

/-- The password goes to a server whose certificate names another host. -/
theorem credentials_to_impostor :
    ¬IdentityFirst evpSha256 otherHostSsl (some ()) caConfig
      (ClientApp.connectAndAuth evpSha256 caConfig
        (smoothAnswers otherHostSsl ())) := by
  intro identityFirst
  have sends :
      SendsCredentials
        (ClientApp.connectAndAuth evpSha256 caConfig
          (smoothAnswers otherHostSsl ())) :=
    ⟨ClientApp.authMessage caConfig, by decide +kernel, rfl⟩
  obtain ⟨c, -, identifies⟩ := identityFirst.identified sends
  have named :
      otherHostSsl.issuedFor c caConfig.host = true :=
    (identifies.chain (by decide)).2
  cases named

end RadminPro

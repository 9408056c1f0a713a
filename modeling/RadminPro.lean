import RadminPro.ByteCodec
import RadminPro.Sha256Digest
import RadminPro.WireUtil
import RadminPro.WireProtocol
import RadminPro.WireCodecExact
import RadminPro.HashChain
import RadminPro.CsvRecords
import RadminPro.AuditLog
import RadminPro.AuditChain
import RadminPro.AuditLifetimes
import RadminPro.StepRuns
import RadminPro.SecurityManager
import RadminPro.LockoutInterleaving
import RadminPro.LockoutBound
import RadminPro.LockoutRuns
import RadminPro.BufferWindow
import RadminPro.VideoStream
import RadminPro.ViewerReader
import RadminPro.TileCover
import RadminPro.FramebufferMirror
import RadminPro.PathText
import RadminPro.SessionEffects
import RadminPro.ServerSession
import RadminPro.SessionSteps
import RadminPro.SessionContainment
import RadminPro.TracePolicy
import RadminPro.SessionMediation
import RadminPro.SandboxConfinement
import RadminPro.UploadLedger
import RadminPro.SessionExchange
import RadminPro.UploadVerdicts
import RadminPro.ReaderBounds
import RadminPro.WireContract
import RadminPro.AnchoredWindow
import RadminPro.LoginHistory
import RadminPro.TwoRuns
import RadminPro.LoginSecrecy
import RadminPro.BitPrefix
import RadminPro.TokenList
import RadminPro.SubnetFilter
import RadminPro.AllowList
import RadminPro.AuditVerifier
import RadminPro.AuditDeletion
import RadminPro.BlockStream
import RadminPro.SocketTransport
import RadminPro.SharedWriters
import RadminPro.Transducer
import RadminPro.AuditTruth
import RadminPro.FifoLink
import RadminPro.FileStore
import RadminPro.SessionFiles
import RadminPro.ClientTransfer
import RadminPro.TransferRuns
import RadminPro.AuditRecords
import RadminPro.AuditRecovery
import RadminPro.TrimmedText
import RadminPro.ServerConfig
import RadminPro.ConfigRoundTrip
import RadminPro.SlotCounter
import RadminPro.AcceptLoop
import RadminPro.SessionCap
import RadminPro.TrayApp
import RadminPro.TrayLifecycle
import RadminPro.SessionOverlay
import RadminPro.SessionIndicator
import RadminPro.MandatoryIndicator
import RadminPro.TlsContext
import RadminPro.ClientLogin
import RadminPro.ServerIdentity
import RadminPro.ClientCalls
import RadminPro.ReaderThread
import RadminPro.ClientRobustness
import RadminPro.StreamLanding
import RadminPro.DownloadAtomicity
import RadminPro.CallSequence
import RadminPro.ServedRequests
import RadminPro.RequestPairing
import RadminPro.PairedCalls
import RadminPro.PairedRuns
import RadminPro.FrameDiffExact
import RadminPro.ConfigNormalForm
import RadminPro.RightsText
import RadminPro.NormalPath
import RadminPro.ContainmentTest
import RadminPro.ReaderAccess
import RadminPro.ViewerPaint
import RadminPro.OverlayTeardown
import RadminPro.ConfigSave
import RadminPro.NearestDivision
import RadminPro.PointerFidelity
import RadminPro.FalseAlarm
import RadminPro.UploadDisk
import RadminPro.UploadTurns
import RadminPro.SharedUploads
import RadminPro.UploadIsolation
import RadminPro.UploadIntegrity
import RadminPro.UploadContest
import RadminPro.UploadFrame
import RadminPro.ConfiguredAccounts
import RadminPro.SessionCredentials
import RadminPro.ServerAuthority
import RadminPro.ClientCommand
import RadminPro.ClientProcess
import RadminPro.LoginExchange
import RadminPro.CommandRuns
import RadminPro.FileCommands
import RadminPro.RowPacking
import RadminPro.ScreenCapture
import RadminPro.RemoteControl
import RadminPro.StepRefinement
import RadminPro.AtomicStore
import RadminPro.StoreOperations
import RadminPro.StoreRefinement
import RadminPro.UsersDialog
import RadminPro.AccountAdministration
import RadminPro.OptionsDialog

import NexusCone.HexBytes
import NexusCone.CodePoints
import NexusCone.Sha256
import NexusCone.JsonText
import NexusCone.JsonRoundTrip
import NexusCone.JsonKeyOrder
import NexusCone.IsoTime
import NexusCone.KeyedTable
import NexusCone.ExceptResults
import NexusCone.SharedFile
import NexusCone.AsyncProgram
import NexusCone.AsyncSystem
import NexusCone.Connections
import NexusCone.SoloRun
import NexusCone.RelyGuarantee
import NexusCone.GrowingVersions
import NexusCone.PromptCommits
import NexusCone.ExclusiveLock
import NexusCone.HashChain
import NexusCone.PyValue
import NexusCone.Canonical
import NexusCone.Sha256Words
import NexusCone.LedgerSchema
import NexusCone.EntryChain
import NexusCone.WitnessChain
import NexusCone.HashedTexts
import NexusCone.TimestampAuthority
import NexusCone.Ledger
import NexusCone.LedgerOperations
import NexusCone.LedgerRuns
import NexusCone.LedgerGrowth
import NexusCone.ChainSafety
import NexusCone.ChainTamperEvidence
import NexusCone.FailedWrites
import NexusCone.VerifierCli
import NexusCone.AnchorChecks
import NexusCone.TokenAgreement
import NexusCone.AnchorTracks
import NexusCone.HeadBinding
import NexusCone.WitnessStore
import NexusCone.WitnessForks
import NexusCone.WitnessLedger
import NexusCone.SignedHistory
import NexusCone.WitnessHistories
import NexusCone.CanonicalForms
import NexusCone.PayloadRoundTrip
import NexusCone.EntryAuthenticity
import NexusCone.EditedTables
import NexusCone.Migration
import NexusCone.MigratedSessions
import NexusCone.OpTrees
import NexusCone.EmbeddedPrograms
import NexusCone.Poller
import NexusCone.ConfirmedProofs
import NexusCone.PollerRuns
import NexusCone.TaskRuns
import NexusCone.WitnessAlarms
import NexusCone.TimeOrder
import NexusCone.ClockedRuns
import NexusCone.BoundTips
import NexusCone.RetirementDates
import NexusCone.WitnessSigners
import NexusCone.ProofUnions
import NexusCone.UpgradeDecisions
import NexusCone.CivilInstants
import NexusCone.ConfirmRuns
import NexusCone.PollSweeps
import NexusCone.PollAccounts
import NexusCone.EntryReads
import NexusCone.TamperReports
import NexusCone.IsoBounds
import NexusCone.TimeRangeQueries
import NexusCone.StoredTimes
import NexusCone.DistinctWitnesses
import NexusCone.FairRuns
import NexusCone.Service
import NexusCone.CallCompletion
import NexusCone.SerialJournal
import NexusCone.SerialWrites
import NexusCone.AppendOnlyArchive
import NexusCone.CombinedGrowths
import NexusCone.FiledRecords
import NexusCone.ArchiveRefinement
import NexusCone.ListedAnchors

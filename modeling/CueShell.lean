import CueShell.Model.ChainRun
import CueShell.Model.Parser.Resolver
import CueShell.Soundness.ChainStart
import CueShell.Soundness.ChainProgress
import CueShell.Soundness.ChainRace
import CueShell.Soundness.ChainOutcome
import CueShell.Soundness.ChainText
import CueShell.Soundness.LedgerOnce
import CueShell.Soundness.LedgerDelivery
import CueShell.Proofs.SchedulerTurns
import CueShell.Soundness.GpuReservations
import CueShell.Soundness.ResourceRegistry
import CueShell.Soundness.SessionCounts
import CueShell.Soundness.SessionIsolation
import CueShell.Soundness.EventDelivery
import CueShell.Soundness.RestartFence
import CueShell.Soundness.RestartAdmission
import CueShell.Soundness.ScheduleText
import CueShell.Soundness.ScheduleCommand
import CueShell.Soundness.MigrationLoad
import CueShell.Soundness.ScopeCollection
import CueShell.Soundness.ScopeDurability
import CueShell.Soundness.ScopeSecrets
import CueShell.Soundness.MessageFraming
import CueShell.Soundness.GuardrailRules
import CueShell.Soundness.CompletionSafety
import CueShell.Soundness.InputLineSafety
import CueShell.Soundness.RunnerOrder
import CueShell.Soundness.ClientCalls
import CueShell.Soundness.RestartAtomicity
import CueShell.Soundness.GuardrailExpansion
import CueShell.Soundness.ForegroundLease
import CueShell.Soundness.ForegroundStream
import CueShell.Soundness.EventFence
import CueShell.Soundness.DrainSafety
import CueShell.Soundness.WaitAnswers
import CueShell.Soundness.LaunchGuardrails
import CueShell.Soundness.ArchivedSessions
import CueShell.Soundness.ChainSentences
import CueShell.Soundness.WordSegmentation
import CueShell.Soundness.LineEnds
import CueShell.Soundness.ScriptComments
import CueShell.Soundness.TriggerRange
import CueShell.Soundness.QuotedWords
import CueShell.Soundness.JobEvaluation
import CueShell.Soundness.ScopeTransforms
import CueShell.Soundness.ScopeLeaves
import CueShell.Soundness.ResourceNeeds
import CueShell.Soundness.ScopeAddresses
import CueShell.Soundness.CrontabMeaning
import CueShell.Soundness.NextOccurrence
import CueShell.Soundness.ModeInjection
import CueShell.Soundness.FrontEndTotality
import CueShell.Soundness.OutputRing
import CueShell.Soundness.QuantityText
import CueShell.Soundness.SinglePassExpansion
import CueShell.Soundness.SnapshotLedger
import CueShell.Soundness.AliasRewriting
import CueShell.Soundness.StatementSplitting
import CueShell.Soundness.SendVerbatim
import CueShell.Soundness.EndpointHosts
import CueShell.Soundness.EnvWords
import CueShell.Soundness.TextLimits
import CueShell.Soundness.ChainRefinement
import CueShell.Soundness.JobLifecycle
import CueShell.Soundness.ScriptWords

import OmkVerified.CodingAgent.Proofs.OutputAccumulatorProofs
import OmkVerified.CodingAgent.Session.Proofs.InvariantProofs
import OmkVerified.CodingAgent.Compaction.Hysteresis
import OmkVerified.CodingAgent.Compaction.Proofs.BranchSummarizationProofs
import OmkVerified.CodingAgent.PromptTemplates
import OmkVerified.CodingAgent.RunJournal.Proofs.ClassifierProofs
import OmkVerified.CodingAgent.Guardrails.Proofs.ReplayLedgerRunProofs
import OmkVerified.CodingAgent.Guardrails.StaticShell
import OmkVerified.Tui.Proofs.CursorRowProofs
import OmkVerified.Tui.Proofs.OverlayFocusProofs
import OmkVerified.AdaptorchWpl.Loop
import OmkVerified.AdaptorchWpl.UnifiedDiff
import OmkVerified.CodingAgent.ContextBudget.Proofs.CacheInvalidationProofs
import OmkVerified.CodingAgent.Sandbox.Proofs.PolicyV2Proofs
import OmkVerified.Ai.Proofs.ReplayableProofs
import OmkVerified.CodingAgent.LoopGates.Proofs.GatesProofs
import OmkVerified.Tui.Proofs.ChunksProofs
import OmkVerified.Ai.Proofs.EventStreamProofs
import OmkVerified.Ai.Proofs.CoercionProofs
import OmkVerified.CodingAgent.Tools.MutationKeys
import OmkVerified.CodingAgent.Sandbox.Proofs.LoadoutAccessProofs
import OmkVerified.Tui.Proofs.JumpProofs
import OmkVerified.Tui.Proofs.KillProofs
import OmkVerified.Tui.Proofs.PasteProofs
import OmkVerified.Tui.Proofs.WordWrapProofs
import OmkVerified.CodingAgent.Session.Proofs.RecoveryCheckpointProofs
import OmkVerified.CodingAgent.Tools.ReadAnchors
import OmkVerified.CodingAgent.Subagents.Proofs.ReceiptCycleProofs
import OmkVerified.Tui.Truncate
import OmkVerified.Agent.SessionStorage
import OmkVerified.CodingAgent.Session.Proofs.BranchLabelProofs
import OmkVerified.CodingAgent.Session.Proofs.CycleProofs
import OmkVerified.CodingAgent.Session.Proofs.MigrationProofs
import OmkVerified.CodingAgent.Compaction.Compact
import OmkVerified.CodingAgent.Proofs.TruncateLimitsProofs
import OmkVerified.CodingAgent.Tools.PathUtils
import OmkVerified.CodingAgent.Session.Proofs.PathAccessProofs
import OmkVerified.CodingAgent.Proofs.TempFileProofs
import OmkVerified.CodingAgent.RunJournal.Proofs.AppendProofs
import OmkVerified.CodingAgent.RunJournal.Proofs.CommitsProofs
import OmkVerified.CodingAgent.Compaction.Proofs.BarrierProofs
import OmkVerified.Agent.Proofs.AgentLoopProofs
import OmkVerified.CodingAgent.Tools.Proofs.NormalizedMapProofs

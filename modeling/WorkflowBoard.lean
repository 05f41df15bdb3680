import WorkflowBoard.Spec.SpendApproval
import WorkflowBoard.Spec.SpendReturns
import WorkflowBoard.Spec.SpendBudget
import WorkflowBoard.Spec.AllocationCap
import WorkflowBoard.Spec.QueueTurns
import WorkflowBoard.Spec.PaymentOnce
import WorkflowBoard.Spec.ScheduleOnce
import WorkflowBoard.Spec.ScheduleCommitted
import WorkflowBoard.Spec.OutboxDelivery
import WorkflowBoard.Spec.DeferNoLoss
import WorkflowBoard.Spec.StatusKept
import WorkflowBoard.Spec.DuplicateChains
import WorkflowBoard.Spec.SupervisorParks
import WorkflowBoard.Spec.LiveAcks
import WorkflowBoard.Spec.PendingFlag
import WorkflowBoard.Spec.RetrySingleFlight
import WorkflowBoard.Spec.ProvisionExclusion
import WorkflowBoard.Spec.BreakerThrottle
import WorkflowBoard.Spec.DeliveryOrder
import WorkflowBoard.Spec.FolderFifo
import WorkflowBoard.Spec.CallPathShortest
import WorkflowBoard.Spec.GraphBuildFence
import WorkflowBoard.Spec.PostActionOnce
import WorkflowBoard.Spec.PlanMerge
import WorkflowBoard.Spec.LeaseFencing
import WorkflowBoard.Spec.DispatchLimits
import WorkflowBoard.Spec.ApprovalSelf
import WorkflowBoard.Spec.RefusedCalls
import WorkflowBoard.Spec.StallGiveUp
import WorkflowBoard.Spec.FoldersExclusive
import WorkflowBoard.Spec.MissionUpdates
import WorkflowBoard.Spec.QaEvidence
import WorkflowBoard.Spec.NoticesOnce
import WorkflowBoard.Spec.QaBatchWalk
import WorkflowBoard.Spec.ReopenRests
import WorkflowBoard.Spec.FailureTicketOnce
import WorkflowBoard.Spec.RerunBound
import WorkflowBoard.Spec.RunBudgetKept
import WorkflowBoard.Spec.MailOnce
import WorkflowBoard.Spec.MailGated
import WorkflowBoard.Spec.RenewAll
import WorkflowBoard.Spec.ReplayNotes
import WorkflowBoard.Spec.ListHeld
import WorkflowBoard.Spec.RecipientsKept
import WorkflowBoard.Spec.CyclesOnce
import WorkflowBoard.Spec.EngagementCounted
import WorkflowBoard.Spec.PlanLayers
import WorkflowBoard.Spec.CronNext
import WorkflowBoard.Spec.CeilingPlans
import WorkflowBoard.Spec.EventFrames
import WorkflowBoard.Spec.SecretsScrubbed
import WorkflowBoard.Spec.DecimalSpend
import WorkflowBoard.Spec.SpawnEpisodes
import WorkflowBoard.Spec.PrerequisiteBatch
import WorkflowBoard.Spec.CanonicalHash
import WorkflowBoard.Spec.BudgetPeriods
import WorkflowBoard.Spec.ChildPolicy
import WorkflowBoard.Spec.PumpOrder
import WorkflowBoard.Spec.ResetInstant
import WorkflowBoard.Spec.DefNesting
import WorkflowBoard.Spec.HistoryPages
import WorkflowBoard.Spec.ReexportTargets

import HookRelay.AttemptHistory
import HookRelay.Backoff
import HookRelay.CommitPoint
import HookRelay.CurrentEndpoints
import HookRelay.DeadLetterKept
import HookRelay.DeadLetterRequests
import HookRelay.DeadLetterRetries
import HookRelay.Deliverability
import HookRelay.DlqGauge
import HookRelay.Drainage
import HookRelay.EndpointDeletion
import HookRelay.EndpointUpdates
import HookRelay.FailedRequests
import HookRelay.Ingestion
import HookRelay.LagReporter
import HookRelay.OutboxRelay
import HookRelay.PartitionProgress
import HookRelay.PostContents
import HookRelay.PostsUnderWay
import HookRelay.RetryBudget
import HookRelay.RetryChain
import HookRelay.RetryStore
import HookRelay.RetryWindow
import HookRelay.ScheduledRetry
import HookRelay.SiblingDeadLetters
import HookRelay.Standstill
import HookRelay.Starvation
import HookRelay.StatusSpecification
import HookRelay.StoredStatus
import HookRelay.SubscribedRouting
import HookRelay.SuccessKept
import HookRelay.Wire

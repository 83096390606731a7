import Creditra.CreditLineService
import Creditra.PostgresRepositories
import Creditra.TransactionAtomicity
import Creditra.DrawRepaySerial
import Creditra.LedgerBalances
import Creditra.InsertionMaps
import Creditra.JsStrings
import Creditra.JsonValues
import Creditra.IdempotencyMiddleware
import Creditra.JsNumbers
import Creditra.InboundWebhookSignature
import Creditra.InboundReplay
import Creditra.Separators
import Creditra.SigningInput
import Creditra.HorizonListener
import Creditra.EventIdentity
import Creditra.DrawWebhooks
import Creditra.DrawWebhookDelivery
import Creditra.DrawWebhookSuppression
import Creditra.JobQueue
import Creditra.JobLives
import Creditra.JobWakeups
import Creditra.OutboundWebhookStore
import Creditra.OutboundWebhooks
import Creditra.OutboundCoupling
import Creditra.OutboundDeliveries
import Creditra.DecimalStrings
import Creditra.OutboundOnce
import Creditra.Reconciliation
import Creditra.ReconciliationReports
import Creditra.SortedListings
import Creditra.ReconciliationSnapshot
import Creditra.Base64
import Creditra.NumberText
import Creditra.JsonText
import Creditra.CursorPagination
import Creditra.CursorTraversal
import Creditra.PostgresCursor
import Creditra.RateLimits
import Creditra.FloatNumbers
import Creditra.MemoryCreditLines
import Creditra.EnforceableLimits
import Creditra.AvailableCredit
import Creditra.PostgresCreditLines
import Creditra.OptimisticLocking
import Creditra.OpenLines
import Creditra.DomainEventLog
import Creditra.IdempotencyAgreement
import Creditra.OutboundStoreAgreement
import Creditra.FailedMutations
import Creditra.SuspendedDraws
import Creditra.DashboardCache
import Creditra.RedisRateLimits
import Creditra.DataRetention
import Creditra.Migrations
import Creditra.ApiKeys
import Creditra.JsonRoundTrip
import Creditra.JsonKeyOrder
import Creditra.AdminAudit
import Creditra.ServiceTokens
import Creditra.AnomalyRules
import Creditra.RepayMasking
import Creditra.SignalCooldown
import Creditra.SorobanAmounts
import Creditra.SorobanEnumeration
import Creditra.IdempotencyGenerations
import Creditra.IdempotencyFingerprints
import Creditra.GreedyPairing
import Creditra.WashCycles
import Creditra.DashboardTotals
import Creditra.Simulations
import Creditra.ComplianceExports
import Creditra.LedgerAttribution
import Creditra.BorrowerRace
import Creditra.RateLimitAnswers
import Creditra.EventDeduplication
import Creditra.CursorCodec
import Creditra.JobDrains
import Creditra.FloatOrder
import Creditra.HorizonCursor
import Creditra.HorizonBackoff
import Creditra.WebhookSubscriptions
import Creditra.CsvText
import Creditra.CsvExports
import Creditra.FetchRetries
import Creditra.ServiceTokenErrors
import Creditra.AuditRedaction
import Creditra.AuditPages
import Creditra.WordPatterns
import Creditra.LogRedaction
import Creditra.LogValues
import Creditra.LineHistories
import Creditra.RetryTimes
import Creditra.RiskCreation
import Creditra.BodyLimits
import Creditra.PolicyEngine
import Creditra.MoneyFormatting
import Creditra.DomainEventBus
import Creditra.AuditTrail
import Creditra.EventLogs
import Creditra.HorizonLifecycle
import Creditra.RedisConnections
import Creditra.RedisAdmissions
import Creditra.RequestMetrics
import Creditra.ConditionalGets
import Creditra.JsonExports
import Creditra.SqlOrderings
import Creditra.RiskEvaluationStores
import Creditra.DomainEventStores
import Creditra.CursorReaders
import Creditra.ApiKeyListings
import Creditra.DeliveryListings
import Creditra.PartySlices
import Creditra.LineSignals
import Creditra.SignalAccounts

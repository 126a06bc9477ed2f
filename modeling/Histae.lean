import Histae.Relational.Table
import Histae.Systems.Run
import Histae.Shared.Time
import Histae.Matches.Domain
import Histae.Matches.Store
import Histae.Matches.Access
import Histae.Matches.Credits
import Histae.Matches.Continuation
import Histae.Matches.Requests
import Histae.Matches.Messages
import Histae.Matches.Maintenance
import Histae.Matches.Lifecycle
import Histae.Matches.Charges
import Histae.Matches.Ledger
import Histae.Matches.System
import Histae.Matches.CreditCaps
import Histae.Matches.Debits
import Histae.Matches.Consent
import Histae.Matches.Window
import Histae.Text.Numeral
import Histae.Text.Calendar
import Histae.Paging.Keyset
import Histae.Text.Base64
import Histae.Matches.Cursor
import Histae.Matches.Listing
import Histae.Matches.Ageing
import Histae.Matches.Pagination
import Histae.Matches.Idempotency
import Histae.Advertising.Rewards
import Histae.Advertising.Settlement
import Histae.Advertising.ExactlyOnce
import Histae.Outbox.Events
import Histae.Outbox.Workers
import Histae.Outbox.Ownership
import Histae.Outbox.NoLoss
import Histae.Outbox.Attempts
import Histae.Identity.Tokens
import Histae.Identity.Sessions
import Histae.Identity.Rotation
import Histae.Identity.Families
import Histae.Identity.Recovery
import Histae.Mobile.Otp
import Histae.Mobile.OtpUsable
import Histae.Mobile.OtpOnce
import Histae.Mobile.SmsBudget
import Histae.Billing.Store
import Histae.Systems.Latest
import Histae.Billing.Webhook
import Histae.Billing.Ordering
import Histae.Billing.Deletion
import Histae.Billing.Reconciliation
import Histae.Billing.Convergence
import Histae.Billing.Checkouts
import Histae.Billing.CheckoutRuns
import Histae.Billing.CheckoutFinality
import Histae.Billing.CheckoutExclusive
import Histae.Billing.Stores
import Histae.Billing.StoreRuns
import Histae.Relational.Distinct
import Histae.Billing.Entitlements
import Histae.Billing.Supersession
import Histae.Systems.Locks
import Histae.Premium.LockOrder
import Histae.Privacy.Erasure
import Histae.Privacy.ErasureRuns
import Histae.Privacy.ErasureProgress
import Histae.Privacy.Anonymization
import Histae.Privacy.Retention
import Histae.Billing.FollowUp
import Histae.Outbox.DeadLetters
import Histae.Discovery.Cursor
import Histae.Discovery.Feed
import Histae.Discovery.Eligibility
import Histae.Advertising.Stock
import Histae.Discovery.Radius
import Histae.Profiles.Ages
import Histae.Profiles.Consents
import Histae.Profiles.SensitiveData
import Histae.Profiles.Positions
import Histae.Advertising.Ssv
import Histae.Matches.Endings
import Histae.Matches.Steady
import Histae.Matches.Choices
import Histae.Matches.HalfWay
import Histae.Matches.Conversations
import Histae.Matches.RevealRuns
import Histae.Identity.AccountTraffic
import Histae.Identity.AccountEffects
import Histae.Identity.Bans
import Histae.Http.ForwardedFor
import Histae.Advertising.KeyRuns
import Histae.Shared.Text
import Histae.Billing.Finance
import Histae.Mobile.BlocklistRuns
import Histae.Billing.WebChallenges
import Histae.Billing.WebEffects
import Histae.Billing.WebRuns
import Histae.Media.UploadHash
import Histae.Media.Uploads
import Histae.Media.UploadRuns
import Histae.Media.UploadOnce
import Histae.Privacy.ExportWriter
import Histae.Http.RateLimit
import Histae.Http.RateLimitRuns
import Histae.Privacy.ExportDocument
import Histae.Paging.Loop
import Histae.Privacy.ExportPages
import Histae.Privacy.Export
import Histae.Privacy.ExportComplete
import Histae.Identity.Tombstones
import Histae.Notifications.EventStreams
import Histae.Notifications.StreamRuns
import Histae.Infra.ActivityLocks
import Histae.Infra.ActivityRuns
import Histae.Systems.RowTransactions
import Histae.Identity.AdminAccess
import Histae.Identity.AdminEffects
import Histae.Identity.AdminStanding
import Histae.Identity.AdminSteps
import Histae.Identity.AdminRuns
import Histae.Identity.AdminSafety
import Histae.Identity.AdminInFlight
import Histae.Identity.AdminCredentials

import ForexAi.Proofs.GateCausality
import ForexAi.Proofs.EquityCurve
import ForexAi.Proofs.NoLookAhead
import ForexAi.Proofs.Breaker
import ForexAi.Proofs.IngestGaps
import ForexAi.Workers.AgentWorker
import ForexAi.Proofs.OrderFates
import ForexAi.Proofs.RestartCycle
import ForexAi.Proofs.Parity
import ForexAi.Proofs.AlertDelivery
import ForexAi.Proofs.Rotation
import ForexAi.Proofs.Exposure
import ForexAi.Proofs.Fusion
import ForexAi.Proofs.Promotion
import ForexAi.Proofs.GateParity
import ForexAi.Proofs.AtrHandOff
import ForexAi.Backtest.Bars
import ForexAi.Proofs.Catchup
import ForexAi.Proofs.Cash
import ForexAi.Proofs.Snapshots
import ForexAi.Proofs.AlertIdentity
import ForexAi.Proofs.Sessions
import ForexAi.Proofs.Admins
import ForexAi.Proofs.Bootstrap
import ForexAi.Proofs.Releases
import ForexAi.Proofs.SingleActive
import ForexAi.Proofs.BookStore
import ForexAi.Proofs.Arbitration
import ForexAi.Workers.ProcessPair
import ForexAi.Broker.Terms
import ForexAi.Proofs.Sponsorship
import ForexAi.Proofs.Mirror
import ForexAi.Proofs.SizedRisk
import ForexAi.Proofs.StopHonesty
import ForexAi.Proofs.DrawdownGate
import ForexAi.Proofs.EventWindow
import ForexAi.Lib.Reflection
import ForexAi.Lib.Memory
import ForexAi.Proofs.NoBias
import ForexAi.Agents.Regime
import ForexAi.Proofs.Lookback
import ForexAi.Data.RiskConfig
import ForexAi.Decisions.ResolvedRisk
import ForexAi.Proofs.UsableBracket
import ForexAi.Lib.Newest
import ForexAi.Proofs.Cooldown
import ForexAi.Proofs.FreshBucket
import ForexAi.Data.IngestCycle
import ForexAi.Proofs.CycleOutcome
import ForexAi.Proofs.QuoteOrder
import ForexAi.Proofs.NewBars
import ForexAi.Monitor.Staleness
import ForexAi.Proofs.WeekendAlarm
import ForexAi.Proofs.Admission
import ForexAi.Data.SyntheticContent
import ForexAi.Proofs.CalendarWindows
import ForexAi.Data.Synthetic
import ForexAi.Proofs.WholeBuckets
import ForexAi.Proofs.PreviousDay
import ForexAi.Realtime.Frames
import ForexAi.Agents.Sentiment
import ForexAi.Proofs.ListedPairs
import ForexAi.Proofs.LowEvents
import ForexAi.Core.RateLimit
import ForexAi.Proofs.Spread
import ForexAi.Lib.FixedWidth
import ForexAi.Bus.Chronology
import ForexAi.Workers.AgentPoll
import ForexAi.Proofs.AgentBatch
import ForexAi.Data.HostZone
import ForexAi.Data.News
import ForexAi.Proofs.ContentKeys
import ForexAi.Realtime.Hub
import ForexAi.Proofs.LiveFeed
import ForexAi.Backtest.Report
import ForexAi.Proofs.ListingOrder
import ForexAi.Llm.Client
import ForexAi.Proofs.BudgetCeiling
import ForexAi.Proofs.MarketWeek
import ForexAi.Data.MarketHours
import ForexAi.Lib.Averages
import ForexAi.Proofs.IndicatorRanges
import ForexAi.Bus.Envelope
import ForexAi.Decisions.Hashing
import ForexAi.Proofs.Tickets
import ForexAi.Proofs.Heartbeats
import ForexAi.Proofs.AlertDesk
import ForexAi.Proofs.BacktestRecords
import ForexAi.Proofs.Portfolio
import ForexAi.Proofs.ClientIp
import ForexAi.Proofs.Triggers
import ForexAi.Proofs.Backfills
import ForexAi.Proofs.AuditTrail
import ForexAi.Proofs.Inversion
import ForexAi.Core.Redaction
import ForexAi.Data.Oanda
import ForexAi.Frontend.StreamSocket
import ForexAi.Frontend.LiveFrames
import ForexAi.Frontend.LiveLists
import ForexAi.Lib.Recency
import ForexAi.Lib.Scaling
import ForexAi.Proofs.PracticeFeed
import ForexAi.Proofs.Redaction
import ForexAi.Proofs.Scaled
import ForexAi.Proofs.StreamPages
import ForexAi.Proofs.StreamTickets
import ForexAi.Proofs.LiveFrames
import ForexAi.Proofs.LiveLists

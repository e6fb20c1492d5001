import OptionChainBackend.Foundation.Table
import OptionChainBackend.Foundation.Runs
import OptionChainBackend.Upstream.Changes
import OptionChainBackend.Upstream.Reference
import OptionChainBackend.MarketMaker.KillSwitch
import OptionChainBackend.MarketMaker.Race
import OptionChainBackend.MarketMaker.Shutdown
import OptionChainBackend.Api.Expiration
import OptionChainBackend.Api.Ohlc
import OptionChainBackend.Api.State
import OptionChainBackend.Api.Bulk
import OptionChainBackend.Api.Admin
import OptionChainBackend.Upstream.Ages
import OptionChainBackend.Api.Effects
import OptionChainBackend.MarketMaker.Calls
import OptionChainBackend.Api.Grounded
import OptionChainBackend.Api.Batch
import OptionChainBackend.Api.Rollback
import OptionChainBackend.Api.AtomicBatch
import OptionChainBackend.Api.Honesty
import OptionChainBackend.Api.Truthful
import OptionChainBackend.Api.CancelOrder
import OptionChainBackend.Api.CancelAll
import OptionChainBackend.Api.Addressed
import OptionChainBackend.Api.FillKeys
import OptionChainBackend.Api.Marks
import OptionChainBackend.Api.PathAgreement
import OptionChainBackend.Api.SnapshotIdentity
import OptionChainBackend.Feed.Cut
import OptionChainBackend.MarketMaker.SymbolSwitch
import OptionChainBackend.MarketMaker.Traffic
import OptionChainBackend.Api.Accuracy
import OptionChainBackend.Api.EngineBooks
import OptionChainBackend.Api.Ledger
import OptionChainBackend.Api.ProfitLoss
import OptionChainBackend.MarketMaker.QuoteSafety
import OptionChainBackend.Api.Controls
import OptionChainBackend.Auth.Access
import OptionChainBackend.Auth.TrackedKeys
import OptionChainBackend.Feed.Delivery
import OptionChainBackend.MarketMaker.StalePrices
import OptionChainBackend.Api.Bars
import OptionChainBackend.Api.Standing
import OptionChainBackend.Api.Stores
import OptionChainBackend.Api.Prices
import OptionChainBackend.Feed.Deltas
import OptionChainBackend.MarketMaker.Fills
import OptionChainBackend.MarketMaker.Skew
import OptionChainBackend.Api.BarQuery
import OptionChainBackend.Api.BulkCancel
import OptionChainBackend.Api.Executions
import OptionChainBackend.Api.ModifyOrder
import OptionChainBackend.Auth.ResetTime
import OptionChainBackend.Auth.SlidingWindow
import OptionChainBackend.Auth.Alone
import OptionChainBackend.Api.FillEdge
import OptionChainBackend.Api.MidPrice
import OptionChainBackend.Api.Retention
import OptionChainBackend.Feed.Counters
import OptionChainBackend.Feed.SameExpiration
import OptionChainBackend.Feed.Subscribed
import OptionChainBackend.Feed.SubscriptionLaws
import OptionChainBackend.Feed.Wildcards
import OptionChainBackend.Foundation.Ascending
import OptionChainBackend.Simulation.Config
import OptionChainBackend.Simulation.Seeding
import OptionChainBackend.Simulation.Strikes
import OptionChainBackend.Simulation.Walk
import OptionChainBackend.Api.Recording
import OptionChainBackend.Api.Floor
import OptionChainBackend.Feed.Lag
import OptionChainBackend.MarketMaker.Announcements
import OptionChainBackend.Auth.Guesses
import OptionChainBackend.Api.Portfolio
import OptionChainBackend.Api.OrderPages
import OptionChainBackend.Client.Served
import OptionChainBackend.Client.Session

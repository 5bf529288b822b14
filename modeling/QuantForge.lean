import QuantForge.Rounding
import QuantForge.AssocMap
import QuantForge.BinaryHeap
import QuantForge.HeapOrder
import QuantForge.ServiceOrder
import QuantForge.Loop
import QuantForge.RunningPeak
import QuantForge.Fifo
import QuantForge.Interleaving
import QuantForge.JsonSchema
import QuantForge.Strings
import QuantForge.Decimal
import QuantForge.Money
import QuantForge.Models
import QuantForge.State
import QuantForge.Executor
import QuantForge.Books
import QuantForge.Engine
import QuantForge.Execution
import QuantForge.Steps
import QuantForge.Runs
import QuantForge.OrderFlow
import QuantForge.BookOps
import QuantForge.PriorityQueues
import QuantForge.IssueOrder
import QuantForge.Lots
import QuantForge.FifoWalks
import QuantForge.Trades
import QuantForge.Updates
import QuantForge.WalksAgree
import QuantForge.Registry
import QuantForge.OrderLedger
import QuantForge.PluginView
import QuantForge.Strategies
import QuantForge.LotStore
import QuantForge.Drift
import QuantForge.MarginBook
import QuantForge.LotValue
import QuantForge.Cash
import QuantForge.Equity
import QuantForge.Lookahead
import QuantForge.OpeningMargin
import QuantForge.EquityCurve
import QuantForge.FillPrice
import QuantForge.VolumeCap
import QuantForge.PartialFills
import QuantForge.ExitClose
import QuantForge.ExitReduction
import QuantForge.ExitHeaps
import QuantForge.ExitPasses
import QuantForge.SymbolFrame
import QuantForge.ExitTrigger
import QuantForge.ExitPassEnd
import QuantForge.ShortBan
import QuantForge.ExitInvariant
import QuantForge.ExitMirror
import QuantForge.Stalled
import QuantForge.Termination
import QuantForge.BookPasses
import QuantForge.Divisors
import QuantForge.TracedDivision
import QuantForge.MarginDrift
import QuantForge.UnknownAction
import QuantForge.ThreadPool
import QuantForge.WakeUp
import QuantForge.PoolProgress
import QuantForge.Manifest
import QuantForge.ManifestSchema
import QuantForge.Microdollars
import QuantForge.DataStore
import QuantForge.FetchData
import QuantForge.ReplayData
import QuantForge.NetworkCache
import QuantForge.CacheControl
import QuantForge.HttpClient
import QuantForge.CurlHeaders
import QuantForge.Retries
import QuantForge.RetryAnswers
import QuantForge.RetryAfter
import QuantForge.CacheFiles
import QuantForge.MetaFiles
import QuantForge.DiskClient
import QuantForge.Staleness
import QuantForge.PythonResults
import QuantForge.PluginOptions
import QuantForge.MarketHours
import QuantForge.AveragePrice
import QuantForge.PluginLoaders
import QuantForge.PluginManager
import QuantForge.StockApi
import QuantForge.ReplayFetched
import QuantForge.HeapVectors
import QuantForge.NativeView

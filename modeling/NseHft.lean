import NseHft.Lib.Execution
import NseHft.Lib.FixedWidth
import NseHft.Lib.LinearProbing
import NseHft.Lib.BackwardShift
import NseHft.Lib.Bisect
import NseHft.Lib.Machine
import NseHft.Lib.CText
import NseHft.Lib.BoundedFifo
import NseHft.Lib.TokenBucket
import NseHft.Lib.Leading
import NseHft.Lib.LittleEndian
import NseHft.Lib.RecordLayout
import NseHft.Lib.Framing
import NseHft.Lib.HeaderFraming
import NseHft.Lib.LinkedPath
import NseHft.Common.Types
import NseHft.Common.TimeUtils
import NseHft.Common.RingBuffer
import NseHft.Common.DroppingChannel
import NseHft.Common.Logger
import NseHft.Common.MemoryPool
import NseHft.OrderBook.PriceLevels
import NseHft.OrderBook.OrderTable
import NseHft.OrderBook.OrderBook
import NseHft.OrderBook.FailedEvents
import NseHft.OrderBook.TrackedOrders
import NseHft.OrderBook.LevelTotals
import NseHft.OrderBook.Consistency
import NseHft.OrderBook.Depth
import NseHft.OrderBook.DuplicateAdd
import NseHft.OrderBook.Recovery
import NseHft.OrderBook.BookManager
import NseHft.FeedHandler.MtbtParser
import NseHft.FeedHandler.PacketBounds
import NseHft.FeedHandler.DecodePaths
import NseHft.FeedHandler.FeedHandler
import NseHft.FeedHandler.Redundancy
import NseHft.FeedHandler.Sequencing
import NseHft.FeedHandler.Retransmission
import NseHft.FeedHandler.BookFeed
import NseHft.Gateway.MarketDataGateway
import NseHft.Session.SymbolMaster
import NseHft.Session.SymbolCsv
import NseHft.Risk.RiskManager
import NseHft.Risk.DailyPnl
import NseHft.Risk.PositionLimit
import NseHft.Risk.RateLimit
import NseHft.Risk.PriceChecks
import NseHft.Risk.TableBounds
import NseHft.Strategy.QuotingMath
import NseHft.Strategy.MarketMaking
import NseHft.Strategy.QuoteLifecycle
import NseHft.Strategy.InventoryCap
import NseHft.OrderManager.NnfEncoder
import NseHft.Common.WireFields
import NseHft.OrderManager.NnfMessages
import NseHft.OrderManager.NnfStream
import NseHft.Gateway.OrderGateway
import NseHft.OrderManager.OrderManager
import NseHft.OrderManager.Lifecycle
import NseHft.Session.NnfSession
import NseHft.Pipeline.GateAgreement
import NseHft.Pipeline.Pipeline
import NseHft.Pipeline.Accounting
import NseHft.Pipeline.StaleBook
import NseHft.Pipeline.LastSent
import NseHft.Pipeline.LiveQuotes
import NseHft.Pipeline.PhantomQuotes
import NseHft.Pipeline.BookIsolation
import NseHft.Pipeline.ExchangeView
import NseHft.Pipeline.LossLimit
import NseHft.Pipeline.SyntheticSession
import NseHft.Sim.FeeModel
import NseHft.Sim.FillSimulator
import NseHft.Sim.QueuePosition
import NseHft.Sim.Reproducible
import NseHft.Sim.TradeVolume
import NseHft.Sim.Capture
import NseHft.Sim.MtbtGenerator
import NseHft.Sim.CrossedMarket
import NseHft.Sim.BacktestEngine
import NseHft.Sim.BacktestLedger
import NseHft.Sim.CaptureReplay
import NseHft.Irage.ConnectImpl
import NseHft.Irage.Strat1
import NseHft.Irage.SelfCross
import NseHft.Irage.KillSwitch
import NseHft.Irage.PriceRange
import NseHft.Irage.OpsHeadroom
import NseHft.Irage.Blotter
import NseHft.Irage.QuoteGates

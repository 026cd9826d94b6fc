import BinanceTh.Lib.Transition
import BinanceTh.Lib.Interaction
import BinanceTh.Backoff
import BinanceTh.Pagination.Completeness
import BinanceTh.Pagination.Moving
import BinanceTh.RateLimit.ServerWindows
import BinanceTh.OrderBook.Safety
import BinanceTh.OrderBook.Coverage
import BinanceTh.OrderBook.TopOfBook
import BinanceTh.OrderBook.GapFree
import BinanceTh.Transport.Freshness
import BinanceTh.Transport.RetryAfter
import BinanceTh.Transport.Logging
import BinanceTh.Transport.SignedQuery
import BinanceTh.Transport.HardStop
import BinanceTh.Orders.InFlight
import BinanceTh.UserStream.Convergence
import BinanceTh.Stream.Subscriptions
import BinanceTh.Stream.Shutdown
import BinanceTh.UserStream.Orphans
import BinanceTh.UserStream.Reseeding
import BinanceTh.UserStream.Shutdown
import BinanceTh.UserStream.KeptAlive
import BinanceTh.ListenKey.Callers
import BinanceTh.ListenKey.Shutdown
import BinanceTh.Managed.Draining
import BinanceTh.Validation.Filters
import BinanceTh.OrderTracker.Confluence
import BinanceTh.Managed
import BinanceTh.Validation.Idempotence
import BinanceTh.RateLimit.Undisturbed
import BinanceTh.Pagination.Deposits
import BinanceTh.Validation.Context
import BinanceTh.Idempotency.Unique
import BinanceTh.Stream.Ring
import BinanceTh.RateLimit.FloatClock
import BinanceTh.ExchangeInfo
import BinanceTh.ExchangeInfo.Requests
import BinanceTh.Redaction.Query
import BinanceTh.Stream.Malformed
import BinanceTh.RateLimit.Contention
import BinanceTh.OrderBook.CatchUp
import BinanceTh.Orders.Wire
import BinanceTh.Transport.Metering
import BinanceTh.Transport.ClockSkew
import BinanceTh.Orders.Conforming
import BinanceTh.Transport.Patience
import BinanceTh.ListenKey.Expiry
import BinanceTh.RateLimit.AnyInterval

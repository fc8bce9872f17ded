import CexEngine.Foundation.Allocation
import CexEngine.Foundation.DigitText
import CexEngine.Foundation.Fairness
import CexEngine.Foundation.Fallible
import CexEngine.Foundation.FiniteMap
import CexEngine.Foundation.Footprint
import CexEngine.Foundation.Literal
import CexEngine.Foundation.Resend
import CexEngine.Foundation.SortedMap
import CexEngine.Amount.Decimal
import CexEngine.Amount.Units
import CexEngine.Amount.Exact
import CexEngine.Engine.Types
import CexEngine.Engine.BalanceCache
import CexEngine.Engine.OrderBook
import CexEngine.Engine.Matcher
import CexEngine.Engine.Resting
import CexEngine.Engine.Matching
import CexEngine.Engine.BookCommit
import CexEngine.Engine.Ledger
import CexEngine.Engine.PlainCommit
import CexEngine.Engine.Priority
import CexEngine.Engine.SettleTrade
import CexEngine.Runtime.Submission
import CexEngine.Runtime.Journal
import CexEngine.Runtime.Atomicity
import CexEngine.Runtime.Settlement
import CexEngine.Runtime.SubmissionSpec
import CexEngine.Runtime.CommandSpec
import CexEngine.Runtime.Staging
import CexEngine.Runtime.Accounting
import CexEngine.Runtime.Transition
import CexEngine.Runtime.Reachable
import CexEngine.Runtime.Store
import CexEngine.Runtime.Recovery
import CexEngine.Runtime.Output
import CexEngine.Runtime.Audit
import CexEngine.Runtime.Books
import CexEngine.Runtime.Conservation
import CexEngine.Runtime.Coverage
import CexEngine.Runtime.Market
import CexEngine.Runtime.Delivery
import CexEngine.Runtime.Pipeline
import CexEngine.Runtime.Durability
import CexEngine.Runtime.ExactlyOnce
import CexEngine.Runtime.Failure
import CexEngine.Runtime.Fees
import CexEngine.Runtime.Isolation
import CexEngine.Runtime.MarketIndex
import CexEngine.Runtime.MarketView
import CexEngine.Runtime.Sufficient
import CexEngine.Runtime.WithdrawalLifecycle
import CexEngine.Runtime.Reserves
import CexEngine.Runtime.Fillable
import CexEngine.Runtime.Redemption
import CexEngine.Runtime.OrderHistory
import CexEngine.Runtime.AccountHistory
import CexEngine.Runtime.Handle
import CexEngine.Runtime.Linearizable
import CexEngine.Runtime.Shutdown
import CexEngine.Runtime.Process
import CexEngine.Runtime.Ownership
import CexEngine.Runtime.Progress
import CexEngine.Services.OrderReceipt
import CexEngine.Services.Acceptance
import CexEngine.Services.OrderService
import CexEngine.Models.ExactDecimal
import CexEngine.Handlers.FinancialInput
import CexEngine.Handlers.FinancialReply
import CexEngine.Handlers.OrderCancel

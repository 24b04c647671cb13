import CexEngine.Lib.Loop
import CexEngine.Spec.Threads
import CexEngine.Proof.Conservation
import CexEngine.Proof.Refusals
import CexEngine.Proof.BookInvariant
import CexEngine.Proof.PriceTime
import CexEngine.Proof.Settlement
import CexEngine.Proof.Stranded
import CexEngine.Proof.Spending
import CexEngine.Proof.Agreement
import CexEngine.Proof.TimePriority
import CexEngine.Proof.Published
import CexEngine.Proof.Commuting
import CexEngine.Proof.DbWrites
import CexEngine.Proof.DepositsFirst
import CexEngine.Proof.EventOrder
import CexEngine.Proof.Restart
import CexEngine.Proof.RequestOrder
import CexEngine.Proof.Promises
import CexEngine.Proof.Cancelled
import CexEngine.Proof.Survival
import CexEngine.Proof.Ledger
import CexEngine.Proof.Requests
import CexEngine.Proof.Depth
import CexEngine.Proof.Bystanders
import CexEngine.Proof.BenchEngine
import CexEngine.Proof.Wal
import CexEngine.Proof.LetGo
import CexEngine.Proof.UdpFeed
import CexEngine.Proof.Termination
import CexEngine.Proof.OrderCount
import CexEngine.Proof.Serial
import CexEngine.Proof.Lifetime
import CexEngine.Proof.Interleavings
import CexEngine.Proof.Progress
import CexEngine.Proof.Delivered
import CexEngine.Proof.TradeLog
import CexEngine.Proof.WalThread
import CexEngine.Proof.Stopping
import CexEngine.Proof.Refinement
import CexEngine.Proof.Linearizable
import CexEngine.Proof.Rows
import CexEngine.Proof.AllOrNothing

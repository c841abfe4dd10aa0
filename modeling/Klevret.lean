import Klevret.Base.ByteOrder
import Klevret.Base.Chunks
import Klevret.Base.Continuations
import Klevret.Base.Cpp
import Klevret.Base.Descent
import Klevret.Base.Fairness
import Klevret.Base.Fifo
import Klevret.Base.Ledger
import Klevret.Base.Machine
import Klevret.Base.Numerals
import Klevret.Base.OrderedMap
import Klevret.Base.Outline
import Klevret.Base.RoseTree
import Klevret.Base.Separated
import Klevret.Base.Simulation
import Klevret.Base.Trie
import Klevret.Cli.Overflow
import Klevret.Common.TcpListener
import Klevret.Core.Relay
import Klevret.Dhcp.AddressPool
import Klevret.Dhcp.DhcpMessage
import Klevret.Dhcp.Server
import Klevret.Verified.Address.Masks
import Klevret.Verified.Address.Order
import Klevret.Verified.Cli.Dispatch
import Klevret.Verified.Cli.LineEditor
import Klevret.Verified.Cli.Patterns
import Klevret.Verified.Cli.Readers
import Klevret.Verified.Cli.Registered
import Klevret.Verified.Cli.Typing
import Klevret.Verified.Cli.Screen
import Klevret.Verified.Cli.Shipped
import Klevret.Verified.Cli.Tokens
import Klevret.Verified.Message.Reencoding
import Klevret.Verified.Options.Acceptance
import Klevret.Verified.Pool.LastWriter
import Klevret.Verified.Pool.Priority
import Klevret.Verified.Pool.Reservations
import Klevret.Verified.Relay.Program
import Klevret.Verified.Relay.Queue
import Klevret.Verified.Relay.Segmentation
import Klevret.Verified.Relay.Worker
import Klevret.Verified.Server.Acknowledgements
import Klevret.Verified.Server.Descriptors
import Klevret.Verified.Server.Interleaving
import Klevret.Verified.Server.Runs
import Klevret.Verified.Server.Startup
import Klevret.Verified.Server.Survival
import Klevret.Verified.Server.Wire

import Ellipticoind.Verified.Overlay
import Ellipticoind.Verified.LittleEndian
import Ellipticoind.Ports.Redis
import Ellipticoind.Ports.Memory
import Ellipticoind.Ports.VM
import Ellipticoind.Ports.VMRun
import Ellipticoind.Ports.Journal
import Ellipticoind.Ports.Transaction
import Ellipticoind.Ports.NestedCall
import Ellipticoind.Ports.VMSimulation
import Ellipticoind.Ports.Processor
import Ellipticoind.Ports.Budget
import Ellipticoind.Ports.Isolation
import Ellipticoind.Ports.TransactionProcessor
import Ellipticoind.Ports.BlockIndex
import Ellipticoind.Ports.Reorganisation
import Ellipticoind.Ports.ReadBack
import Ellipticoind.Ports.Terms
import Ellipticoind.Ports.QueueEntries
import Ellipticoind.Ports.Node
import Ellipticoind.Ports.NodeMoves
import Ellipticoind.Ports.Rounds
import Ellipticoind.Ports.NoneLost
import Ellipticoind.Ports.Copies
import Ellipticoind.Ports.Authorised
import Ellipticoind.Ports.Serialisable
import Ellipticoind.Ports.Script
import Ellipticoind.Verified.Frames
import Ellipticoind.Ports.Libp2p
import Ellipticoind.Ports.Records
import Ellipticoind.Ports.BlockApply
import Ellipticoind.Ports.Preimage
import Ellipticoind.Ports.MinedBlocks
import Ellipticoind.Ports.Chain
import Ellipticoind.Ports.Splitting
import Ellipticoind.Verified.Account
import Ellipticoind.Ports.Account
import Ellipticoind.Ports.AccountRun
import Ellipticoind.Ports.Metering
import Ellipticoind.Ports.Demands
import Ellipticoind.Ports.Broadcast
import Ellipticoind.Verified.Base64
import Ellipticoind.Ports.PortData
import Ellipticoind.Ports.RocksDBPort
import Ellipticoind.Ports.NativeOutput
import Ellipticoind.Ports.OwnResults
import Ellipticoind.Ports.BytePrice
import Ellipticoind.Ports.Charges
import Ellipticoind.Ports.OutOfGas
import Ellipticoind.Ports.GasLimit
import Ellipticoind.Ports.Processing
import Ellipticoind.Ports.Creation
import Ellipticoind.Ports.Authority
import Ellipticoind.Ports.ValueCodec
import Ellipticoind.Ports.CallResults
import Ellipticoind.Ports.GuestMemory
import Ellipticoind.Ports.Hashfactor
import Ellipticoind.Ports.ResultValidations
import Ellipticoind.Ports.Signing
import Ellipticoind.Ports.PostedHash
import Ellipticoind.Ports.StateMap
import Ellipticoind.Ports.Replicas
import Ellipticoind.Ports.QueueOrder
import Ellipticoind.Verified.Varint
import Ellipticoind.Ports.Protobuf
import Ellipticoind.Ports.WireFields
import Ellipticoind.Ports.Marshal
import Ellipticoind.Verified.Lines
import Ellipticoind.Ports.Noise
import Ellipticoind.Ports.Relay
import Ellipticoind.Ports.Progress
import Ellipticoind.Ports.Footprint
import Ellipticoind.Verified.Gossip
import Ellipticoind.Ports.Network
import Ellipticoind.Ports.SingleMiner
import Ellipticoind.Ports.Subscribers
import Ellipticoind.Ports.Router
import Ellipticoind.Ports.Imports

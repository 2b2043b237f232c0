import Arqma.ShallowReorg
import Arqma.DeepReorg
import Arqma.Restart
import Arqma.PulseAgreement
import Arqma.PulseEquivocation
import Arqma.QuorumRelay
import Arqma.CheckpointVotes
import Arqma.ForkChoice
import Arqma.Difficulty
import Arqma.HardFork
import Arqma.BlockchainDb
import Arqma.TxPoolRuns
import Arqma.SocketStack
import Arqma.X25519Directory
import Arqma.StorageRestart
import Arqma.OnionRouter
import Arqma.SwarmLoss
import Arqma.SwarmTermination
import Arqma.ArchiveRestart
import Arqma.CheckpointFile
import Arqma.CheckpointParticipation
import Arqma.WorkerWalk
import Arqma.PulseMembership
import Arqma.SplicedCertificate
import Arqma.MinerTxReads
import Arqma.TxSelection
import Arqma.TransactionWeight
import Arqma.RejectedBlocks
import Arqma.ChainSync
import Arqma.CheckpointCulling
import Arqma.DifficultyV16
import Arqma.CheckHash
import Arqma.BlockQueue
import Arqma.RegistrationArgs
import Arqma.BtIntegers
import Arqma.KvRequests
import Arqma.VoteCodec

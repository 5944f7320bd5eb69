import CpuServer.Map
import CpuServer.Types
import CpuServer.MetaCache
import CpuServer.Checkpoint
import CpuServer.Resync
import CpuServer.ListAndWatch
import CpuServer.Block
import CpuServer.PoolEntries
import CpuServer.PodEntries
import CpuServer.Response
import CpuServer.Containers
import CpuServer.ReclaimClaims
import CpuServer.Determinism
import CpuServer.BlockIds
import CpuServer.Advice

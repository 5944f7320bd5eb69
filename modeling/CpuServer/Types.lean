import CpuServer.Map
import Mathlib.Data.Finset.Sort
import Mathlib.Data.String.Basic

/-!
# The data model

The records `cpu_server.go` reads and writes: the metadata cache's `types.ContainerInfo`
and `types.PoolInfo`, the QRM plugin's checkpoint (`cpuadvisor.GetCheckpointResponse`),
and the advisor's `types.InternalCPUCalculationResult`.  Each record keeps the fields a
modelled function reads or writes; the others are left out (MODEL_MAP.json lists them).

The types of these records are declared in packages that are not under src/, as are the
constants of `commonstate` and the katalyst-api `consts`; the constants are parameters
here (`Consts`), so no result depends on their values.
-/

set_option autoImplicit false

namespace CpuServer

/-- The names the server reads from packages outside src/: the pool and sentinel names of
`commonstate`, the QoS levels of the katalyst-api `consts`, and the headroom key of
`cpuadvisor`. -/
structure Consts where
  poolNameReclaim : String
  poolNameReserve : String
  fakedContainerName : String
  podAnnotationQoSLevelSharedCores : String
  podAnnotationQoSLevelReclaimedCores : String
  podAnnotationQoSLevelDedicatedCores : String
  controlKnobKeyCPUNUMAHeadroom : String
  deriving DecidableEq, Repr

/-- `machine.CPUSet`. -/
abbrev CPUSet := Finset Nat

/-- A topology-aware assignment, `map[int]machine.CPUSet`: the CPUs held on each NUMA node. -/
abbrev Assignments := AList fun _ : Int => CPUSet

/-- The checkpoint's form of an assignment, `map[uint64]string`: cpuset text per NUMA node. -/
abbrev RawAssignments := AList fun _ : Nat => String

/-- Katalyst's values of the constants, for concrete runs. -/
def katalystConsts : Consts :=
  ⟨"reclaim", "reserve", "", "shared_cores", "reclaimed_cores", "dedicated_cores",
    "cpu_numa_headroom"⟩

/-! ## The metadata cache's records -/

/-- `types.ContainerInfo`.  `numaBinding` is what `IsDedicatedNumaBinding` reads from the
container's annotations; `updateTime` is the timestamp the cache compares with the safe
time of `RangeAndDeleteContainer`. -/
structure ContainerInfo where
  podUID : String
  containerName : String
  qoSLevel : String
  rampUp : Bool
  ownerPoolName : String
  originOwnerPoolName : String
  topologyAwareAssignments : Assignments
  originalTopologyAwareAssignments : Assignments
  isolated : Bool
  regionNames : Finset String
  numaBinding : Bool
  updateTime : Int
  deriving DecidableEq

/-- Modelled from the spec: `ContainerInfo.IsDedicatedNumaBinding`, whose body is not under
src/; the spec calls these containers "NUMA-bound dedicated containers". -/
def ContainerInfo.isDedicatedNumaBinding (K : Consts) (ci : ContainerInfo) : Bool :=
  ci.qoSLevel == K.podAnnotationQoSLevelDedicatedCores && ci.numaBinding

/-- `types.PoolInfo`. -/
structure PoolInfo where
  poolName : String
  topologyAwareAssignments : Assignments
  originalTopologyAwareAssignments : Assignments
  deriving DecidableEq

/-! ## The checkpoint -/

/-- `cpuadvisor.AllocationInfo`: one row of the checkpoint. -/
structure AllocationInfo where
  rampUp : Bool
  ownerPoolName : String
  topologyAwareAssignments : RawAssignments
  originalTopologyAwareAssignments : RawAssignments
  deriving DecidableEq

/-- `cpuadvisor.AllocationEntries`: the rows of one pool or pod, keyed by container name;
a pool's row is filed under `Consts.fakedContainerName`. -/
structure AllocationEntries where
  entries : AList fun _ : String => AllocationInfo

/-- `cpuadvisor.GetCheckpointResponse`, keyed by pool name or pod UID. -/
structure GetCheckpointResponse where
  entries : AList fun _ : String => AllocationEntries

/-! ## The advisor's result -/

/-- An element of `advisorResp.ExtraEntries`: an adjustment for a cgroup that is not a
container's. -/
structure ExtraEntry where
  cgroupPath : String
  values : AList fun _ : String => String

/-- `types.InternalCPUCalculationResult`: CPU size per pool and NUMA node, and for a pool
the sizes it shares with other pools on each NUMA node. -/
structure InternalCPUCalculationResult where
  poolEntries : AList fun _ : String => AList fun _ : Int => Int
  poolOverlapInfo : AList fun _ : String => AList fun _ : Int => AList fun _ : String => Int
  extraEntries : List ExtraEntry
  allowSharedCoresOverlapReclaimedCores : Bool

/-- Modelled from the spec: `InternalCPUCalculationResult.GetPoolOverlapInfo`, whose body
is not under src/.  The overlap sizing of `poolName` on `numaID`, keyed by the pool it
overlaps; empty when none is given. -/
def InternalCPUCalculationResult.getPoolOverlapInfo (r : InternalCPUCalculationResult)
    (poolName : String) (numaID : Int) : AList fun _ : String => Int :=
  match r.poolOverlapInfo.lookup poolName with
  | some byNuma => (byNuma.lookup numaID).getD ∅
  | none => ∅

/-! ## Collaborators -/

/-- The functions the reconciler calls on collaborators outside src/: pod lookup
(`metaServer.GetPod`), QoS classification (`qosConf.GetQoSLevelForPod`) and
`machine.TransformCPUAssignmentFormat`.  Each is a fixed function of its argument. -/
structure Collaborators (Pod : Type) where
  getPod : String → Except String Pod
  getQoSLevelForPod : Pod → Except String String
  transformCPUAssignmentFormat : RawAssignments → Assignments

end CpuServer

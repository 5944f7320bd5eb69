import CpuServer.Types

/-!
# The metadata cache

Modelled from the spec: the metadata cache (`metacache.MetaCache`), whose implementation
is not under src/.  The spec asks of it "a cache with get/set/range/range-and-delete/GC
operations keyed by pod UID + container name (containers) and by pool name (pools)", and
of its range-and-delete a safe time that works as a fence: "a container added
concurrently with safe-time < its creation must survive".

A container is filed under its own pod UID and name (`filed`); `setContainerInfo`
refuses a record whose identity is not the key it is stored under, so no operation can
break that.  Reads return copies: a record read and changed is in the cache only once it
is set back (the source's "Need to set back because of deep copy").
-/

set_option autoImplicit false

namespace CpuServer

/-- The cache's pools, keyed by name, and containers, keyed by pod UID and name. -/
structure MetaCache where
  poolEntries : AList fun _ : String => PoolInfo
  podEntries : AList fun _ : String × String => ContainerInfo
  filed : ∀ {k : String × String} {ci : ContainerInfo},
    podEntries.lookup k = some ci → (ci.podUID, ci.containerName) = k

namespace MetaCache

variable (mc : MetaCache)

/-- An empty cache. -/
def empty : MetaCache := ⟨∅, ∅, by simp [AList.lookup_empty]⟩

/-- `GetPoolInfo`. -/
def getPoolInfo (poolName : String) : Option PoolInfo := mc.poolEntries.lookup poolName

/-- `SetPoolInfo`. -/
def setPoolInfo (poolName : String) (pi : PoolInfo) : MetaCache :=
  { mc with poolEntries := mc.poolEntries.insert poolName pi }

/-- `GetContainerInfo`. -/
def getContainerInfo (podUID containerName : String) : Option ContainerInfo :=
  mc.podEntries.lookup (podUID, containerName)

/-- Files `ci` under its own identity. -/
def insertContainer (ci : ContainerInfo) : MetaCache where
  poolEntries := mc.poolEntries
  podEntries := mc.podEntries.insert (ci.podUID, ci.containerName) ci
  filed := by
    intro k ci' h
    by_cases hk : k = (ci.podUID, ci.containerName)
    · subst hk
      rw [AList.lookup_insert, Option.some_inj] at h
      rw [h]
    · rw [AList.lookup_insert_ne hk] at h
      exact mc.filed h

/-- `SetContainerInfo`. -/
def setContainerInfo (podUID containerName : String) (ci : ContainerInfo) :
    Except String MetaCache :=
  if ci.podUID = podUID ∧ ci.containerName = containerName then .ok (mc.insertContainer ci)
  else .error s!"container {podUID}/{containerName} filed under another key"

/-- `RangeAndDeleteContainer`: deletes every container that `f` selects and that the cache
stored before `safeTime`. -/
def rangeAndDeleteContainer (f : ContainerInfo → Bool) (safeTime : Int) : MetaCache where
  poolEntries := mc.poolEntries
  podEntries := mc.podEntries.filter fun _ ci => !(f ci && decide (ci.updateTime < safeTime))
  filed := fun h => mc.filed (AList.lookup_filter_eq_some.1 h).1

/-- `GCPoolEntries`: deletes every pool whose name is not living. -/
def gcPoolEntries (livingPoolNameSet : Finset String) : MetaCache :=
  { mc with poolEntries := mc.poolEntries.filter fun poolName _ =>
      decide (poolName ∈ livingPoolNameSet) }

/-! ## What each operation does to a read -/

variable {mc}

/-- Every container of the cache is filed under its own pod UID and name. -/
theorem filed_of_mem {x : Σ _ : String × String, ContainerInfo} (hx : x ∈ mc.podEntries.entries) :
    x.2.podUID = x.1.1 ∧ x.2.containerName = x.1.2 :=
  Prod.mk.inj_iff.1 (mc.filed (AList.mem_lookup_iff.2 hx))

@[simp] theorem getPoolInfo_setPoolInfo (p q : String) (pi : PoolInfo) :
    (mc.setPoolInfo p pi).getPoolInfo q = if q = p then some pi else mc.getPoolInfo q := by
  by_cases h : q = p
  · subst h; simp [getPoolInfo, setPoolInfo, AList.lookup_insert]
  · simp [getPoolInfo, setPoolInfo, AList.lookup_insert_ne h, h]

@[simp] theorem podEntries_setPoolInfo (p : String) (pi : PoolInfo) :
    (mc.setPoolInfo p pi).podEntries = mc.podEntries := rfl

@[simp] theorem poolEntries_insertContainer (ci : ContainerInfo) :
    (mc.insertContainer ci).poolEntries = mc.poolEntries := rfl

@[simp] theorem getPoolInfo_insertContainer (ci : ContainerInfo) (p : String) :
    (mc.insertContainer ci).getPoolInfo p = mc.getPoolInfo p := rfl

theorem getContainerInfo_insertContainer (ci : ContainerInfo) (u c : String) :
    (mc.insertContainer ci).getContainerInfo u c =
      if (u, c) = (ci.podUID, ci.containerName) then some ci else mc.getContainerInfo u c := by
  by_cases h : (u, c) = (ci.podUID, ci.containerName)
  · rw [if_pos h, getContainerInfo, h]
    exact AList.lookup_insert _
  · simp only [getContainerInfo, insertContainer, AList.lookup_insert_ne h, if_neg h]

theorem mem_podEntries_insertContainer (ci : ContainerInfo) (k : String × String) :
    k ∈ (mc.insertContainer ci).podEntries ↔
      k = (ci.podUID, ci.containerName) ∨ k ∈ mc.podEntries :=
  AList.mem_insert _

theorem getContainerInfo_rangeAndDeleteContainer {f : ContainerInfo → Bool} {safeTime : Int}
    {u c : String} {ci : ContainerInfo} :
    (mc.rangeAndDeleteContainer f safeTime).getContainerInfo u c = some ci ↔
      mc.getContainerInfo u c = some ci ∧ ¬ (f ci = true ∧ ci.updateTime < safeTime) := by
  simp only [getContainerInfo, rangeAndDeleteContainer, AList.lookup_filter_eq_some,
    Bool.not_eq_true', Bool.and_eq_false_iff, decide_eq_false_iff_not, Bool.not_eq_true]
  constructor <;> rintro ⟨h, h'⟩ <;> refine ⟨h, ?_⟩ <;> cases hf : f ci <;> simp_all

@[simp] theorem getPoolInfo_rangeAndDeleteContainer (f : ContainerInfo → Bool) (safeTime : Int)
    (p : String) : (mc.rangeAndDeleteContainer f safeTime).getPoolInfo p = mc.getPoolInfo p :=
  rfl

@[simp] theorem podEntries_gcPoolEntries (living : Finset String) :
    (mc.gcPoolEntries living).podEntries = mc.podEntries := rfl

theorem mem_poolEntries_gcPoolEntries {living : Finset String} {p : String} :
    p ∈ (mc.gcPoolEntries living).poolEntries ↔ p ∈ mc.poolEntries ∧ p ∈ living := by
  show p ∈ mc.poolEntries.filter _ ↔ _
  rw [AList.mem_filter, ← AList.lookup_isSome, Option.isSome_iff_exists]
  simp only [decide_eq_true_eq, exists_and_right]

end MetaCache

end CpuServer

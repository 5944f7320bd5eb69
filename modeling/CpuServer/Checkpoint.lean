import CpuServer.MetaCache

/-!
# Checkpoint reconciliation (`syncCheckpoint`)

`cpuServer.syncCheckpoint`, `updatePoolInfo` and `updateContainerInfo`
(`cpu_server.go` lines 302-410).  The reconciler merges the QRM plugin's checkpoint into
the metadata cache in four phases, each a definition of its own:

1. `ingestPoolRows`: every pool row (an entry holding the faked container's sub-entry) is
   applied with `updatePoolInfo`, and its name recorded as living;
2. `ingestContainerRows`: every other entry is a pod: its pod is looked up and each of its
   rows applied with `updateContainerInfo`; a failure is logged and skipped;
3. `RangeAndDeleteContainer` deletes the containers the checkpoint does not list;
4. the origin owner pools of the surviving containers join the living names, and
   `GCPoolEntries` deletes every other pool.

Logging and metrics are left out: they change no state.
-/

set_option autoImplicit false

namespace CpuServer

variable {Pod : Type} (K : Consts) (env : Collaborators Pod) (σ : Schedule)

/-- `cpuServer.updatePoolInfo`. -/
def updatePoolInfo (poolName : String) (info : AllocationInfo) (mc : MetaCache) : MetaCache :=
  let pi := (mc.getPoolInfo poolName).getD
    { poolName := info.ownerPoolName, topologyAwareAssignments := ∅,
      originalTopologyAwareAssignments := ∅ }
  mc.setPoolInfo poolName { pi with
    topologyAwareAssignments := env.transformCPUAssignmentFormat info.topologyAwareAssignments
    originalTopologyAwareAssignments :=
      env.transformCPUAssignmentFormat info.originalTopologyAwareAssignments }

/-- The record `updateContainerInfo` sets back for container `ci`, given the row `info`, the
pod's QoS level and the cache it reads the owner pool from.  (The source logs a QoS
change before assigning it; the assignment is the same either way.) -/
def updatedContainerInfo (mc : MetaCache) (ci : ContainerInfo) (info : AllocationInfo)
    (qosLevel : String) : ContainerInfo :=
  let ci := { ci with
    rampUp := info.rampUp
    topologyAwareAssignments := env.transformCPUAssignmentFormat info.topologyAwareAssignments
    originalTopologyAwareAssignments :=
      env.transformCPUAssignmentFormat info.originalTopologyAwareAssignments
    ownerPoolName := info.ownerPoolName
    qoSLevel := qosLevel }
  let ci := if ci.originOwnerPoolName = "" then { ci with originOwnerPoolName := ci.ownerPoolName }
    else ci
  if ci.qoSLevel ≠ K.podAnnotationQoSLevelDedicatedCores ∧ ci.ownerPoolName.length > 0 then
    match mc.getPoolInfo ci.ownerPoolName with
    | some poolInfo => { ci with topologyAwareAssignments := poolInfo.topologyAwareAssignments }
    | none => ci
  else ci

/-- `cpuServer.updateContainerInfo`. -/
def updateContainerInfo (podUID containerName : String) (pod : Pod) (info : AllocationInfo)
    (mc : MetaCache) : Except String MetaCache :=
  match mc.getContainerInfo podUID containerName with
  | none => .error s!"container {podUID}/{containerName} not exist"
  | some ci =>
    match env.getQoSLevelForPod pod with
    | .error _ => .error s!"container {podUID}/{containerName} get qos level failed"
    | .ok qosLevel =>
      mc.setContainerInfo podUID containerName (updatedContainerInfo K env mc ci info qosLevel)

/-- The first loop of `syncCheckpoint`: pool rows are applied and their names recorded. -/
def ingestPoolRows :
    List (Σ _ : String, AllocationEntries) → Finset String × MetaCache → Finset String × MetaCache
  | [], acc => acc
  | ⟨entryName, entry⟩ :: rows, (living, mc) =>
    ingestPoolRows rows <|
      match entry.entries.lookup K.fakedContainerName with
      | some poolInfo => (insert entryName living, updatePoolInfo env entryName poolInfo mc)
      | none => (living, mc)

/-- The inner loop of the second one: each row of pod `podUID`; a failed update is logged
and leaves the cache as it was. -/
def ingestContainers (podUID : String) (pod : Pod) :
    List (Σ _ : String, AllocationInfo) → MetaCache → MetaCache
  | [], mc => mc
  | ⟨containerName, info⟩ :: rows, mc =>
    ingestContainers podUID pod rows <|
      match updateContainerInfo K env podUID containerName pod info mc with
      | .ok mc' => mc'
      | .error _ => mc

/-- The body of the second loop of `syncCheckpoint`: an entry without the faked container
is a pod; one whose pod lookup fails is logged and skipped. -/
def ingestPodRow (entryName : String) (entry : AllocationEntries) (mc : MetaCache) : MetaCache :=
  if K.fakedContainerName ∉ entry.entries then
    match env.getPod entryName with
    | .ok pod => ingestContainers K env entryName pod
        (σ.range (.containerEntries entryName) entry.entries) mc
    | .error _ => mc
  else mc

/-- The second loop of `syncCheckpoint`. -/
def ingestContainerRows : List (Σ _ : String, AllocationEntries) → MetaCache → MetaCache
  | [], mc => mc
  | ⟨entryName, entry⟩ :: rows, mc =>
    ingestContainerRows rows (ingestPodRow K env σ entryName entry mc)

/-- The predicate `syncCheckpoint` hands to `RangeAndDeleteContainer`: the checkpoint has
no row for the container. -/
def notInCheckpoint (resp : GetCheckpointResponse) (ci : ContainerInfo) : Bool :=
  match resp.entries.lookup ci.podUID with
  | none => true
  | some info => ci.containerName ∉ info.entries

/-- The `RangeContainer` of `syncCheckpoint`: each container's origin owner pool is living. -/
def collectOriginOwnerPools :
    List (Σ _ : String × String, ContainerInfo) → Finset String → Finset String
  | [], living => living
  | ⟨_, ci⟩ :: rest, living => collectOriginOwnerPools rest (insert ci.originOwnerPoolName living)

/-- `cpuServer.syncCheckpoint`. -/
def syncCheckpoint (resp : GetCheckpointResponse) (safeTime : Int) (mc : MetaCache) :
    MetaCache :=
  let pools := ingestPoolRows K env (σ.range .poolRows resp.entries) (∅, mc)
  let mc := ingestContainerRows K env σ (σ.range .containerRows resp.entries) pools.2
  let mc := mc.rangeAndDeleteContainer (notInCheckpoint resp) safeTime
  mc.gcPoolEntries (collectOriginOwnerPools (σ.range .livingPools mc.podEntries) pools.1)

/-! ## What each function does -/

theorem length_pos_iff_ne_empty (s : String) : s.length > 0 ↔ s ≠ "" := by
  cases s with
  | mk d => cases d <;> simp [String.length, String.ext_iff]

/-- The record `updatePoolInfo` files for a pool that was `old` in the cache. -/
def updatedPoolInfo (old : Option PoolInfo) (info : AllocationInfo) : PoolInfo :=
  let pi := old.getD
    { poolName := info.ownerPoolName, topologyAwareAssignments := ∅,
      originalTopologyAwareAssignments := ∅ }
  { pi with
    topologyAwareAssignments := env.transformCPUAssignmentFormat info.topologyAwareAssignments
    originalTopologyAwareAssignments :=
      env.transformCPUAssignmentFormat info.originalTopologyAwareAssignments }

theorem getPoolInfo_updatePoolInfo (mc : MetaCache) (p q : String) (info : AllocationInfo) :
    (updatePoolInfo env p info mc).getPoolInfo q =
      if q = p then some (updatedPoolInfo env (mc.getPoolInfo p) info) else mc.getPoolInfo q := by
  simp only [updatePoolInfo, updatedPoolInfo, MetaCache.getPoolInfo_setPoolInfo]

@[simp] theorem podEntries_updatePoolInfo (mc : MetaCache) (p : String) (info : AllocationInfo) :
    (updatePoolInfo env p info mc).podEntries = mc.podEntries := rfl

/-- `updatedContainerInfo` in closed form. -/
theorem updatedContainerInfo_eq (mc : MetaCache) (ci : ContainerInfo) (info : AllocationInfo)
    (q : String) :
    updatedContainerInfo K env mc ci info q =
      { ci with
        rampUp := info.rampUp
        ownerPoolName := info.ownerPoolName
        originalTopologyAwareAssignments :=
          env.transformCPUAssignmentFormat info.originalTopologyAwareAssignments
        qoSLevel := q
        originOwnerPoolName :=
          if ci.originOwnerPoolName = "" then info.ownerPoolName else ci.originOwnerPoolName
        topologyAwareAssignments :=
          if q ≠ K.podAnnotationQoSLevelDedicatedCores ∧ info.ownerPoolName ≠ "" then
            ((mc.getPoolInfo info.ownerPoolName).map (·.topologyAwareAssignments)).getD
              (env.transformCPUAssignmentFormat info.topologyAwareAssignments)
          else env.transformCPUAssignmentFormat info.topologyAwareAssignments } := by
  have hlen := length_pos_iff_ne_empty info.ownerPoolName
  unfold updatedContainerInfo
  by_cases ho : ci.originOwnerPoolName = "" <;>
  by_cases hq : q ≠ K.podAnnotationQoSLevelDedicatedCores ∧ info.ownerPoolName ≠ "" <;>
  simp only [ho, hq, hlen, if_true, if_false] <;>
  cases mc.getPoolInfo info.ownerPoolName <;> simp_all

/-- A row changes neither the identity of the container nor the time the cache stored it. -/
@[simp] theorem podUID_updatedContainerInfo (mc : MetaCache) (ci : ContainerInfo)
    (info : AllocationInfo) (q : String) :
    (updatedContainerInfo K env mc ci info q).podUID = ci.podUID := by
  rw [updatedContainerInfo_eq]

@[simp] theorem containerName_updatedContainerInfo (mc : MetaCache) (ci : ContainerInfo)
    (info : AllocationInfo) (q : String) :
    (updatedContainerInfo K env mc ci info q).containerName = ci.containerName := by
  rw [updatedContainerInfo_eq]

@[simp] theorem updateTime_updatedContainerInfo (mc : MetaCache) (ci : ContainerInfo)
    (info : AllocationInfo) (q : String) :
    (updatedContainerInfo K env mc ci info q).updateTime = ci.updateTime := by
  rw [updatedContainerInfo_eq]

@[simp] theorem notInCheckpoint_updatedContainerInfo (resp : GetCheckpointResponse)
    (mc : MetaCache) (ci : ContainerInfo) (info : AllocationInfo) (q : String) :
    notInCheckpoint resp (updatedContainerInfo K env mc ci info q) = notInCheckpoint resp ci := by
  rw [updatedContainerInfo_eq]
  rfl

/-! ## The first loop -/

theorem ingestPoolRows_podEntries (rows : List (Σ _ : String, AllocationEntries))
    (acc : Finset String × MetaCache) :
    (ingestPoolRows K env rows acc).2.podEntries = acc.2.podEntries := by
  induction rows generalizing acc with
  | nil => rfl
  | cons e rows ih =>
    obtain ⟨living, mc⟩ := acc
    simp only [ingestPoolRows, ih]
    split <;> rfl

/-- After the first loop a pool holds what `updatePoolInfo` makes of its row, whatever the
order of the rows; a pool without a row is untouched. -/
theorem ingestPoolRows_getPoolInfo (rows : List (Σ _ : String, AllocationEntries))
    (hrows : rows.NodupKeys) (acc : Finset String × MetaCache) (p : String) :
    (ingestPoolRows K env rows acc).2.getPoolInfo p =
      match (rows.dlookup p).bind fun e => e.entries.lookup K.fakedContainerName with
      | some info => some (updatedPoolInfo env (acc.2.getPoolInfo p) info)
      | none => acc.2.getPoolInfo p := by
  induction rows generalizing acc with
  | nil => rfl
  | cons e rows ih =>
    obtain ⟨living, mc⟩ := acc
    obtain ⟨q, entry⟩ := e
    rw [List.nodupKeys_cons] at hrows
    simp only [ingestPoolRows, ih hrows.2]
    by_cases hq : p = q
    · subst hq
      rw [List.dlookup_cons_eq, List.dlookup_eq_none.2 hrows.1]
      cases h : entry.entries.lookup K.fakedContainerName <;>
        simp [h, getPoolInfo_updatePoolInfo]
    · rw [List.dlookup_cons_ne _ _ hq]
      cases h : entry.entries.lookup K.fakedContainerName <;>
        simp [h, getPoolInfo_updatePoolInfo, hq]

/-- The first loop records exactly the names of the pool rows as living. -/
theorem mem_ingestPoolRows_living (rows : List (Σ _ : String, AllocationEntries))
    (hrows : rows.NodupKeys) (acc : Finset String × MetaCache) (p : String) :
    p ∈ (ingestPoolRows K env rows acc).1 ↔
      p ∈ acc.1 ∨
        ((rows.dlookup p).bind fun e => e.entries.lookup K.fakedContainerName).isSome := by
  induction rows generalizing acc with
  | nil => simp [ingestPoolRows]
  | cons e rows ih =>
    obtain ⟨living, mc⟩ := acc
    obtain ⟨q, entry⟩ := e
    rw [List.nodupKeys_cons] at hrows
    simp only [ingestPoolRows, ih hrows.2]
    by_cases hq : p = q
    · subst hq
      rw [List.dlookup_cons_eq, List.dlookup_eq_none.2 hrows.1]
      cases h : entry.entries.lookup K.fakedContainerName <;> simp [h]
    · rw [List.dlookup_cons_ne _ _ hq]
      cases h : entry.entries.lookup K.fakedContainerName <;> simp [h, hq]

/-! ## The second loop -/

/-- What one row leaves in the cache for its container: the updated record, the record as
it was when the QoS classification fails, nothing when the container is not cached. -/
def containerAfterUpdate (mc : MetaCache) (u c : String) (pod : Pod) (info : AllocationInfo) :
    Option ContainerInfo :=
  (mc.getContainerInfo u c).map fun ci =>
    match env.getQoSLevelForPod pod with
    | .ok q => updatedContainerInfo K env mc ci info q
    | .error _ => ci

/-- The pod and row the second loop applies to container `(u, c)`, given the entry filed
under `u`: none for a pool row, a failed pod lookup or a container without a row. -/
def podRow (entry? : Option AllocationEntries) (u c : String) : Option (Pod × AllocationInfo) :=
  match entry? with
  | some entry =>
    if K.fakedContainerName ∉ entry.entries then
      match env.getPod u, entry.entries.lookup c with
      | .ok pod, some info => some (pod, info)
      | _, _ => none
    else none
  | none => none

theorem containerAfterUpdate_congr {mc mc' : MetaCache} {u c : String} (pod : Pod)
    (info : AllocationInfo) (hp : mc'.poolEntries = mc.poolEntries)
    (hc : mc'.getContainerInfo u c = mc.getContainerInfo u c) :
    containerAfterUpdate K env mc' u c pod info = containerAfterUpdate K env mc u c pod info := by
  have hpool : mc'.getPoolInfo = mc.getPoolInfo := funext fun p => by
    simp only [MetaCache.getPoolInfo, hp]
  simp only [containerAfterUpdate, updatedContainerInfo_eq, hc, hpool]

/-- One row of the second loop, failure included: the cache either files the updated
record or stays as it was. -/
theorem updateContainerInfo_or_keep_eq (u c : String) (pod : Pod) (info : AllocationInfo)
    (mc : MetaCache) :
    (match updateContainerInfo K env u c pod info mc with
      | .ok mc' => mc' | .error _ => mc) =
      match mc.getContainerInfo u c, env.getQoSLevelForPod pod with
      | some ci, .ok q => mc.insertContainer (updatedContainerInfo K env mc ci info q)
      | _, _ => mc := by
  unfold updateContainerInfo
  cases hget : mc.getContainerInfo u c with
  | none => rfl
  | some ci =>
    cases hq : env.getQoSLevelForPod pod with
    | error e => rfl
    | ok q =>
      have hid := mc.filed hget
      simp only [Prod.mk.injEq] at hid
      simp [MetaCache.setContainerInfo, updatedContainerInfo_eq, hid]

/-- One row of the second loop changes only its own container. -/
theorem getContainerInfo_updateContainerInfo_or_keep (u c : String) (pod : Pod)
    (info : AllocationInfo) (mc : MetaCache) (u' c' : String) :
    (match updateContainerInfo K env u c pod info mc with
      | .ok mc' => mc' | .error _ => mc).getContainerInfo u' c' =
      if (u', c') = (u, c) then containerAfterUpdate K env mc u c pod info
      else mc.getContainerInfo u' c' := by
  rw [updateContainerInfo_or_keep_eq, containerAfterUpdate]
  cases hget : mc.getContainerInfo u c with
  | none => split_ifs with h <;> simp_all
  | some ci =>
    have hid := mc.filed hget
    simp only [Prod.mk.injEq] at hid
    cases env.getQoSLevelForPod pod <;> split_ifs with h <;>
      simp_all [MetaCache.getContainerInfo_insertContainer, updatedContainerInfo_eq]

theorem poolEntries_updateContainerInfo_or_keep (u c : String) (pod : Pod)
    (info : AllocationInfo) (mc : MetaCache) :
    (match updateContainerInfo K env u c pod info mc with
      | .ok mc' => mc' | .error _ => mc).poolEntries = mc.poolEntries := by
  rw [updateContainerInfo_or_keep_eq]
  cases mc.getContainerInfo u c <;> cases env.getQoSLevelForPod pod <;> rfl

theorem ingestContainers_poolEntries (u : String) (pod : Pod)
    (rows : List (Σ _ : String, AllocationInfo)) (mc : MetaCache) :
    (ingestContainers K env u pod rows mc).poolEntries = mc.poolEntries := by
  induction rows generalizing mc with
  | nil => rfl
  | cons e rows ih =>
    simp only [ingestContainers, ih, poolEntries_updateContainerInfo_or_keep]

theorem ingestContainers_getContainerInfo (u : String) (pod : Pod)
    (rows : List (Σ _ : String, AllocationInfo)) (hrows : rows.NodupKeys) (mc : MetaCache)
    (u' c : String) :
    (ingestContainers K env u pod rows mc).getContainerInfo u' c =
      if u' = u then
        match rows.dlookup c with
        | some info => containerAfterUpdate K env mc u c pod info
        | none => mc.getContainerInfo u c
      else mc.getContainerInfo u' c := by
  induction rows generalizing mc with
  | nil => split_ifs with h <;> simp_all [ingestContainers]
  | cons e rows ih =>
    obtain ⟨c₀, info₀⟩ := e
    rw [List.nodupKeys_cons] at hrows
    simp only [ingestContainers, ih hrows.2, getContainerInfo_updateContainerInfo_or_keep]
    by_cases hu : u' = u
    · subst hu
      by_cases hc : c = c₀
      · subst hc
        rw [List.dlookup_cons_eq, List.dlookup_eq_none.2 hrows.1]
        simp
      · rw [List.dlookup_cons_ne _ _ hc]
        have hne : (u', c) ≠ (u', c₀) := by simp [hc]
        cases rows.dlookup c with
        | none => simp [hne]
        | some info =>
          simp only [if_true]
          exact containerAfterUpdate_congr K env pod info
            (poolEntries_updateContainerInfo_or_keep K env _ _ _ _ _)
            (by rw [getContainerInfo_updateContainerInfo_or_keep, if_neg hne])
    · simp [hu]

theorem ingestPodRow_poolEntries (u : String) (entry : AllocationEntries) (mc : MetaCache) :
    (ingestPodRow K env σ u entry mc).poolEntries = mc.poolEntries := by
  unfold ingestPodRow
  by_cases hf : K.fakedContainerName ∈ entry.entries
  · simp [hf]
  · simp only [hf, not_false_eq_true, if_true]
    cases env.getPod u with
    | error e => rfl
    | ok pod => exact ingestContainers_poolEntries K env _ _ _ _

theorem getContainerInfo_ingestPodRow (u₀ : String) (entry : AllocationEntries) (mc : MetaCache)
    (u c : String) :
    (ingestPodRow K env σ u₀ entry mc).getContainerInfo u c =
      if u = u₀ then
        match podRow K env (some entry) u c with
        | some (pod, info) => containerAfterUpdate K env mc u c pod info
        | none => mc.getContainerInfo u c
      else mc.getContainerInfo u c := by
  unfold ingestPodRow podRow
  by_cases hf : K.fakedContainerName ∈ entry.entries
  · simp [hf]
  simp only [hf, not_false_eq_true, if_true]
  split_ifs with hu
  · subst hu
    cases env.getPod u with
    | error e => rfl
    | ok pod =>
      rw [ingestContainers_getContainerInfo K env u pod _ (σ.nodupKeys_range _ _),
        σ.dlookup_range, if_pos rfl]
      cases entry.entries.lookup c <;> rfl
  · cases env.getPod u₀ with
    | error e => rfl
    | ok pod =>
      rw [ingestContainers_getContainerInfo K env u₀ pod _ (σ.nodupKeys_range _ _), if_neg hu]

theorem ingestContainerRows_poolEntries (rows : List (Σ _ : String, AllocationEntries))
    (mc : MetaCache) : (ingestContainerRows K env σ rows mc).poolEntries = mc.poolEntries := by
  induction rows generalizing mc with
  | nil => rfl
  | cons e rows ih => simp only [ingestContainerRows, ih, ingestPodRow_poolEntries]

/-- After the second loop a container holds what its row made of it, whatever the order of
the rows; every other container is untouched. -/
theorem ingestContainerRows_getContainerInfo (rows : List (Σ _ : String, AllocationEntries))
    (hrows : rows.NodupKeys) (mc : MetaCache) (u c : String) :
    (ingestContainerRows K env σ rows mc).getContainerInfo u c =
      match podRow K env (rows.dlookup u) u c with
      | some (pod, info) => containerAfterUpdate K env mc u c pod info
      | none => mc.getContainerInfo u c := by
  induction rows generalizing mc with
  | nil => rfl
  | cons e rows ih =>
    obtain ⟨u₀, entry⟩ := e
    rw [List.nodupKeys_cons] at hrows
    simp only [ingestContainerRows, ih hrows.2]
    by_cases hu : u = u₀
    · subst hu
      rw [List.dlookup_cons_eq, List.dlookup_eq_none.2 hrows.1]
      simp [podRow, getContainerInfo_ingestPodRow]
    · rw [List.dlookup_cons_ne _ _ hu]
      have hget := getContainerInfo_ingestPodRow K env σ u₀ entry mc u c
      rw [if_neg hu] at hget
      cases podRow K env (rows.dlookup u) u c with
      | none => exact hget
      | some r =>
        exact containerAfterUpdate_congr K env _ _ (ingestPodRow_poolEntries K env σ _ _ _) hget

theorem collectOriginOwnerPools_mem (l : List (Σ _ : String × String, ContainerInfo))
    (living : Finset String) (p : String) :
    p ∈ collectOriginOwnerPools l living ↔ p ∈ living ∨ ∃ e ∈ l, e.2.originOwnerPoolName = p := by
  induction l generalizing living with
  | nil => simp [collectOriginOwnerPools]
  | cons e l ih =>
    simp only [collectOriginOwnerPools, ih, Finset.mem_insert, List.mem_cons]
    constructor
    · rintro ((h | h) | ⟨e', he', h'⟩)
      · exact .inr ⟨e, .inl rfl, h.symm⟩
      · exact .inl h
      · exact .inr ⟨e', .inr he', h'⟩
    · rintro (h | ⟨e', rfl | he', h'⟩)
      · exact .inl (.inr h)
      · exact .inl (.inl h'.symm)
      · exact .inr ⟨e', he', h'⟩

/-! ## `syncCheckpoint` as a whole -/

/-- The pool row of `poolName`: the faked container's sub-entry of the entry filed under
that name. -/
def poolRow (resp : GetCheckpointResponse) (poolName : String) : Option AllocationInfo :=
  (resp.entries.lookup poolName).bind fun entry => entry.entries.lookup K.fakedContainerName

/-- The assignments pool `poolName` holds once every pool row of `resp` is applied to `mc`. -/
def poolAssignmentsAfterRows (resp : GetCheckpointResponse) (mc : MetaCache)
    (poolName : String) : Option Assignments :=
  match poolRow K resp poolName with
  | some row => some (env.transformCPUAssignmentFormat row.topologyAwareAssignments)
  | none => (mc.getPoolInfo poolName).map (·.topologyAwareAssignments)

variable (resp : GetCheckpointResponse) (safeTime : Int) (mc : MetaCache)

/-- The cache once the first loop has run. -/
theorem getPoolInfo_ingestPoolRows (p : String) :
    (ingestPoolRows K env (σ.range .poolRows resp.entries) (∅, mc)).2.getPoolInfo p =
      match poolRow K resp p with
      | some info => some (updatedPoolInfo env (mc.getPoolInfo p) info)
      | none => mc.getPoolInfo p := by
  rw [ingestPoolRows_getPoolInfo K env _ (σ.nodupKeys_range _ _), σ.dlookup_range]
  rfl

theorem getContainerInfo_ingestPoolRows (u c : String) :
    (ingestPoolRows K env (σ.range .poolRows resp.entries) (∅, mc)).2.getContainerInfo u c =
      mc.getContainerInfo u c := by
  simp only [MetaCache.getContainerInfo, ingestPoolRows_podEntries]

/-- Every read of a container after `syncCheckpoint`: what the second loop made of it, kept
unless the checkpoint does not list it and the cache stored it before the safe time. -/
theorem getContainerInfo_syncCheckpoint (u c : String) :
    (syncCheckpoint K env σ resp safeTime mc).getContainerInfo u c =
      (match podRow K env (resp.entries.lookup u) u c with
        | some (pod, info) => containerAfterUpdate K env
            (ingestPoolRows K env (σ.range .poolRows resp.entries) (∅, mc)).2 u c pod info
        | none => mc.getContainerInfo u c).filter
        fun ci => !(notInCheckpoint resp ci && decide (ci.updateTime < safeTime)) := by
  have h₂ := ingestContainerRows_getContainerInfo K env σ (σ.range .containerRows resp.entries)
    (σ.nodupKeys_range _ _) (ingestPoolRows K env (σ.range .poolRows resp.entries) (∅, mc)).2 u c
  rw [σ.dlookup_range, getContainerInfo_ingestPoolRows] at h₂
  show (AList.filter _ _).lookup (u, c) = _
  rw [AList.lookup_filter]
  exact congrArg (Option.filter _) h₂

theorem poolAssignments_ingestPoolRows (p : String) :
    ((ingestPoolRows K env (σ.range .poolRows resp.entries) (∅, mc)).2.getPoolInfo p).map
      (·.topologyAwareAssignments) = poolAssignmentsAfterRows K env resp mc p := by
  rw [getPoolInfo_ingestPoolRows, poolAssignmentsAfterRows]
  cases poolRow K resp p <;> rfl

theorem notInCheckpoint_eq_false {ci : ContainerInfo} {entry : AllocationEntries}
    (hu : resp.entries.lookup ci.podUID = some entry) (hc : ci.containerName ∈ entry.entries) :
    notInCheckpoint resp ci = false := by
  simp [notInCheckpoint, hu, hc]

/-- A container the checkpoint lists, read after `syncCheckpoint`: its pod lookup and QoS
classification decide what it holds, and it is never deleted.  For a pod that is found
and classified, every field the row carries is taken from the row, the origin owner pool
is set only if it was empty, and the assignments are the owner pool's as they stand after
all pool rows of the checkpoint (in whatever order the rows were visited) when the
container is not dedicated and names a cached pool. -/
theorem syncCheckpoint_applies_container_row {u c : String} {ci : ContainerInfo}
    {entry : AllocationEntries} {info : AllocationInfo}
    (hci : mc.getContainerInfo u c = some ci) (hu : resp.entries.lookup u = some entry)
    (hpod : K.fakedContainerName ∉ entry.entries) (hc : entry.entries.lookup c = some info) :
    (∀ pod q, env.getPod u = .ok pod → env.getQoSLevelForPod pod = .ok q →
      ∃ ci', (syncCheckpoint K env σ resp safeTime mc).getContainerInfo u c = some ci' ∧
        ci'.rampUp = info.rampUp ∧
        ci'.ownerPoolName = info.ownerPoolName ∧
        ci'.originalTopologyAwareAssignments =
          env.transformCPUAssignmentFormat info.originalTopologyAwareAssignments ∧
        ci'.qoSLevel = q ∧
        ci'.originOwnerPoolName =
          (if ci.originOwnerPoolName = "" then info.ownerPoolName else ci.originOwnerPoolName) ∧
        ci'.topologyAwareAssignments =
          if q ≠ K.podAnnotationQoSLevelDedicatedCores ∧ info.ownerPoolName ≠ "" then
            (poolAssignmentsAfterRows K env resp mc info.ownerPoolName).getD
              (env.transformCPUAssignmentFormat info.topologyAwareAssignments)
          else env.transformCPUAssignmentFormat info.topologyAwareAssignments) ∧
    (∀ e, env.getPod u = .error e →
      (syncCheckpoint K env σ resp safeTime mc).getContainerInfo u c = some ci) ∧
    (∀ pod e, env.getPod u = .ok pod → env.getQoSLevelForPod pod = .error e →
      (syncCheckpoint K env σ resp safeTime mc).getContainerInfo u c = some ci) := by
  have hid := mc.filed hci
  simp only [Prod.mk.injEq] at hid
  have hkeep : ∀ ci' : ContainerInfo, ci'.podUID = u → ci'.containerName = c →
      notInCheckpoint resp ci' = false := fun ci' h₁ h₂ =>
    notInCheckpoint_eq_false resp (h₁ ▸ hu) (h₂ ▸ AList.lookup_isSome.1 (by simp [hc]))
  have hci₁ := getContainerInfo_ingestPoolRows K env σ resp mc u c
  set mc₁ := (ingestPoolRows K env (σ.range .poolRows resp.entries) (∅, mc)).2
  refine ⟨fun pod q hp hq => ⟨updatedContainerInfo K env mc₁ ci info q, ?_, ?_⟩,
    fun e hp => ?_, fun pod e hp hq => ?_⟩
  · have hk := hkeep (updatedContainerInfo K env mc₁ ci info q)
      (by rw [updatedContainerInfo_eq]; exact hid.1) (by rw [updatedContainerInfo_eq]; exact hid.2)
    rw [getContainerInfo_syncCheckpoint, hu]
    simp [podRow, hpod, hp, hc, containerAfterUpdate, hci₁, hci, hq, Option.filter, hk]
  · simp only [updatedContainerInfo_eq, ne_eq, true_and,
      ← poolAssignments_ingestPoolRows K env σ resp mc]
  · rw [getContainerInfo_syncCheckpoint, hu]
    simp [podRow, hpod, hp, hci, Option.filter, hkeep ci hid.1 hid.2]
  · rw [getContainerInfo_syncCheckpoint, hu]
    simp [podRow, hpod, hp, hc, containerAfterUpdate, hci₁, hci, hq, Option.filter,
      hkeep ci hid.1 hid.2]


/-- A shared-cores container `pod/main` in pool `share` whose origin pool is not yet set. -/
def sharedMain : ContainerInfo :=
  ⟨"pod", "main", "shared_cores", false, "share", "", ∅, ∅, false, ∅, false, 0⟩

/-- The checkpoint row of `pod/main`: ramping up, owned by `share`. -/
def sharedMainRow : AllocationEntries := ⟨AList.insert "main" ⟨true, "share", ∅, ∅⟩ ∅⟩

/-- A checkpoint holding only the row of `pod`. -/
def sharedMainCheckpoint : GetCheckpointResponse := ⟨AList.insert "pod" sharedMainRow ∅⟩

/-- Collaborators that find every pod and classify it as shared cores. -/
def findsSharedPods : Collaborators Unit :=
  ⟨fun _ => .ok (), fun _ => .ok "shared_cores", fun _ => ∅⟩

theorem syncCheckpoint_applies_container_row_to_sharedMain :
    ∃ ci', (syncCheckpoint katalystConsts findsSharedPods Schedule.listOrder
        sharedMainCheckpoint 0 (MetaCache.empty.insertContainer sharedMain)
        ).getContainerInfo "pod" "main" = some ci' ∧
      ci'.rampUp = true ∧ ci'.originOwnerPoolName = "share" := by
  have hci : (MetaCache.empty.insertContainer sharedMain).getContainerInfo "pod" "main" =
    some sharedMain := rfl
  have hu : sharedMainCheckpoint.entries.lookup "pod" = some sharedMainRow := rfl
  have hc : sharedMainRow.entries.lookup "main" = some ⟨true, "share", ∅, ∅⟩ := rfl
  obtain ⟨ci', h, hr, -, -, -, ho, -⟩ := (syncCheckpoint_applies_container_row katalystConsts
    findsSharedPods Schedule.listOrder sharedMainCheckpoint 0 _ hci hu
    (by decide) hc).1 () "shared_cores" rfl rfl
  exact ⟨ci', h, hr, ho⟩

/-- The second loop changes a container's record but never its identity or timestamp, and
creates none. -/
theorem secondLoop_map (u c : String) :
    ∃ f : ContainerInfo → ContainerInfo,
      (match podRow K env (resp.entries.lookup u) u c with
        | some (pod, info) => containerAfterUpdate K env
            (ingestPoolRows K env (σ.range .poolRows resp.entries) (∅, mc)).2 u c pod info
        | none => mc.getContainerInfo u c) = (mc.getContainerInfo u c).map f ∧
      ∀ ci, (f ci).podUID = ci.podUID ∧ (f ci).containerName = ci.containerName ∧
        (f ci).updateTime = ci.updateTime := by
  cases podRow K env (resp.entries.lookup u) u c with
  | none => exact ⟨id, by simp, fun _ => ⟨rfl, rfl, rfl⟩⟩
  | some r =>
    refine ⟨fun ci => match env.getQoSLevelForPod r.1 with
      | .ok q => updatedContainerInfo K env
          (ingestPoolRows K env (σ.range .poolRows resp.entries) (∅, mc)).2 ci r.2 q
      | .error _ => ci, ?_, fun ci => ?_⟩
    · simp only [containerAfterUpdate, getContainerInfo_ingestPoolRows]
    · cases env.getQoSLevelForPod r.1 <;> simp [updatedContainerInfo_eq]

theorem notInCheckpoint_iff (ci : ContainerInfo) :
    notInCheckpoint resp ci = true ↔
      ∀ entry, resp.entries.lookup ci.podUID = some entry → ci.containerName ∉ entry.entries := by
  unfold notInCheckpoint
  cases resp.entries.lookup ci.podUID <;> simp

/-- Garbage collection by `syncCheckpoint`: it creates no container; it deletes a cached
container exactly when the checkpoint does not list it and the cache's safe-time fence
lets it go (a listed container survives even if its pod lookup or update failed); and the
pools left are those cached before or given by a pool row, restricted to the living
names, the pool rows together with the origin owner pool of every container that
survived. -/
theorem syncCheckpoint_collects_garbage :
    (∀ u c, (syncCheckpoint K env σ resp safeTime mc).getContainerInfo u c ≠ none →
      mc.getContainerInfo u c ≠ none) ∧
    (∀ u c ci, mc.getContainerInfo u c = some ci →
      ((syncCheckpoint K env σ resp safeTime mc).getContainerInfo u c = none ↔
        (∀ entry, resp.entries.lookup u = some entry → c ∉ entry.entries) ∧
          ci.updateTime < safeTime)) ∧
    (∀ p, p ∈ (syncCheckpoint K env σ resp safeTime mc).poolEntries ↔
      (p ∈ mc.poolEntries ∨ (poolRow K resp p).isSome) ∧
      ((poolRow K resp p).isSome ∨
        ∃ u c ci, (syncCheckpoint K env σ resp safeTime mc).getContainerInfo u c = some ci ∧
          ci.originOwnerPoolName = p)) := by
  refine ⟨fun u c h => ?_, fun u c ci hci => ?_, fun p => ?_⟩
  · obtain ⟨f, hf, -⟩ := secondLoop_map K env σ resp mc u c
    rw [getContainerInfo_syncCheckpoint, hf] at h
    intro hnone
    simp [hnone] at h
  · obtain ⟨f, hf, hfid⟩ := secondLoop_map K env σ resp mc u c
    obtain ⟨hu, hc⟩ := Prod.mk.inj (mc.filed hci)
    have hnot := notInCheckpoint_iff resp (f ci)
    rw [(hfid ci).1, (hfid ci).2.1, hu, hc] at hnot
    rw [getContainerInfo_syncCheckpoint, hf, hci, Option.map_some', ← hnot]
    simp only [Option.filter, (hfid ci).2.2]
    cases notInCheckpoint resp (f ci) <;> simp
  · set pools := ingestPoolRows K env (σ.range .poolRows resp.entries) (∅, mc)
    set mc₃ := (ingestContainerRows K env σ (σ.range .containerRows resp.entries)
      pools.2).rangeAndDeleteContainer (notInCheckpoint resp) safeTime
    have hsync : syncCheckpoint K env σ resp safeTime mc =
        mc₃.gcPoolEntries (collectOriginOwnerPools (σ.range .livingPools mc₃.podEntries) pools.1) :=
      rfl
    have hmem₁ : p ∈ mc₃.poolEntries ↔ p ∈ mc.poolEntries ∨ (poolRow K resp p).isSome := by
      show p ∈ (ingestContainerRows K env σ _ pools.2).poolEntries ↔ _
      rw [ingestContainerRows_poolEntries, ← AList.lookup_isSome, ← AList.lookup_isSome]
      change (pools.2.getPoolInfo p).isSome ↔ (mc.getPoolInfo p).isSome ∨ _
      rw [getPoolInfo_ingestPoolRows]
      cases poolRow K resp p <;> simp
    have hliving : p ∈ pools.1 ↔ (poolRow K resp p).isSome := by
      rw [mem_ingestPoolRows_living K env _ (σ.nodupKeys_range _ _), σ.dlookup_range]
      simp [poolRow]
    have hex : (∃ e ∈ σ.range .livingPools mc₃.podEntries, e.2.originOwnerPoolName = p) ↔
        ∃ u c ci, (syncCheckpoint K env σ resp safeTime mc).getContainerInfo u c = some ci ∧
          ci.originOwnerPoolName = p := by
      simp only [Schedule.mem_range, hsync, MetaCache.getContainerInfo,
        MetaCache.podEntries_gcPoolEntries]
      constructor
      · rintro ⟨⟨⟨u, c⟩, ci⟩, he, rfl⟩
        exact ⟨u, c, ci, AList.mem_lookup_iff.2 he, rfl⟩
      · rintro ⟨u, c, ci, h, rfl⟩
        exact ⟨⟨(u, c), ci⟩, AList.mem_lookup_iff.1 h, rfl⟩
    rw [hsync] at hex ⊢
    rw [MetaCache.mem_poolEntries_gcPoolEntries, collectOriginOwnerPools_mem, hmem₁, hliving, hex]

end CpuServer

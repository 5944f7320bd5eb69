import CpuServer.Checkpoint

/-!
# Re-syncing an unchanged checkpoint

`syncCheckpoint` (`cpu_server.go` lines 302-358) runs on every tick of the `ListAndWatch`
loop, so as long as the QRM plugin's checkpoint does not change, the cache is synced with the
same checkpoint again and again.  What a re-sync with the same safe time does, for every
cache, checkpoint and order of every map the syncs range over:

* the pools one sync leaves are a fixed point: a re-sync keeps every pool with its record
  and deletes none;
* a re-sync creates no container and deletes none, and changes no field of a container but
  its `TopologyAwareAssignments`;
* those may change once.  A container that is not dedicated and whose row names an owner
  pool without a pool row of its own takes the assignments that pool has in the cache (lines
  398-403); the same sync deletes that pool (line 357) when no container it keeps has the
  pool as origin owner pool, and the next sync no longer finds it and keeps the row's own
  assignments.  From the second re-sync on nothing changes; from the first, when every such
  row names a pool with a row of its own.

A later safe time may in addition delete the containers the fence kept and the checkpoint
does not list, which is what the fence is for; the syncs here share one.

THE KEY LEMMA.  Applying a row to the record it produced is applying it once
(`updatedContainerInfo_updatedContainerInfo`): every field the row sets it sets again, and
an origin owner pool set from the row is set to the same name.  So two syncs leave a
container what one would, read against the pools of the second
(`getContainerInfo_syncCheckpoint_twice`).
-/

set_option autoImplicit false

namespace CpuServer

variable {Pod : Type} (K : Consts) (env : Collaborators Pod)

/-- A container's record without its assignments: what a re-sync leaves as it was. -/
def withoutAssignments (ci : ContainerInfo) : ContainerInfo :=
  { ci with topologyAwareAssignments := ∅ }

/-! ## A row applied twice -/

theorem updatedPoolInfo_updatedPoolInfo (old : Option PoolInfo) (info : AllocationInfo) :
    updatedPoolInfo env (some (updatedPoolInfo env old info)) info =
      updatedPoolInfo env old info := by
  cases old <;> rfl

/-- A row applied to the record it produced, against any cache, is the row applied once
against that cache. -/
theorem updatedContainerInfo_updatedContainerInfo (m₁ m₂ : MetaCache) (ci : ContainerInfo)
    (info : AllocationInfo) (q : String) :
    updatedContainerInfo K env m₂ (updatedContainerInfo K env m₁ ci info q) info q =
      updatedContainerInfo K env m₂ ci info q := by
  simp only [updatedContainerInfo_eq]
  by_cases h : ci.originOwnerPoolName = "" <;> simp [h]

/-- The cache a row is read against decides the assignments alone. -/
theorem withoutAssignments_updatedContainerInfo (m₁ m₂ : MetaCache) (ci : ContainerInfo)
    (info : AllocationInfo) (q : String) :
    withoutAssignments (updatedContainerInfo K env m₁ ci info q) =
      withoutAssignments (updatedContainerInfo K env m₂ ci info q) := by
  simp only [withoutAssignments, updatedContainerInfo_eq]

/-- A pool with a row takes the row's assignments, whatever the cache held. -/
theorem poolAssignmentsAfterRows_of_poolRow {resp : GetCheckpointResponse} {p : String}
    (h : (poolRow K resp p).isSome) (m m' : MetaCache) :
    poolAssignmentsAfterRows K env resp m p = poolAssignmentsAfterRows K env resp m' p := by
  obtain ⟨row, hrow⟩ := Option.isSome_iff_exists.1 h
  simp only [poolAssignmentsAfterRows, hrow]

/-- Two caches whose pool rows leave the row's owner pool the same assignments update the
container alike. -/
theorem updatedContainerInfo_ingestPoolRows (σ σ' : Schedule) (resp : GetCheckpointResponse)
    (m m' : MetaCache) {info : AllocationInfo} {q : String}
    (h : q ≠ K.podAnnotationQoSLevelDedicatedCores ∧ info.ownerPoolName ≠ "" →
      poolAssignmentsAfterRows K env resp m info.ownerPoolName =
        poolAssignmentsAfterRows K env resp m' info.ownerPoolName) (ci : ContainerInfo) :
    updatedContainerInfo K env (ingestPoolRows K env (σ.range .poolRows resp.entries) (∅, m)).2
        ci info q =
      updatedContainerInfo K env (ingestPoolRows K env (σ'.range .poolRows resp.entries) (∅, m')).2
        ci info q := by
  simp only [updatedContainerInfo_eq]
  by_cases hq : q ≠ K.podAnnotationQoSLevelDedicatedCores ∧ info.ownerPoolName ≠ ""
  · simp only [poolAssignments_ingestPoolRows, h hq]
  · simp only [hq, if_false]

/-! ## Two syncs -/

variable (σ σ' : Schedule) (resp : GetCheckpointResponse) (safeTime : Int) (mc : MetaCache)

/-- The record a sync leaves for a container with a row, before the safe-time fence: the
row applied to the record it found, against the cache after the pool rows. -/
theorem containerAfterUpdate_ingestPoolRows (u c : String) (pod : Pod) (info : AllocationInfo) :
    containerAfterUpdate K env (ingestPoolRows K env (σ.range .poolRows resp.entries) (∅, mc)).2
        u c pod info =
      (mc.getContainerInfo u c).map fun ci => match env.getQoSLevelForPod pod with
        | .ok q => updatedContainerInfo K env
            (ingestPoolRows K env (σ.range .poolRows resp.entries) (∅, mc)).2 ci info q
        | .error _ => ci :=
  congrArg (Option.map _) (getContainerInfo_ingestPoolRows K env σ resp mc u c)

/-- Two syncs with one checkpoint and one safe time leave a container what one sync makes of
the record the first found, read against the pools after the second sync's rows. -/
theorem getContainerInfo_syncCheckpoint_twice (u c : String) :
    (syncCheckpoint K env σ' resp safeTime
        (syncCheckpoint K env σ resp safeTime mc)).getContainerInfo u c =
      (match podRow K env (resp.entries.lookup u) u c with
        | some (pod, info) => (mc.getContainerInfo u c).map fun ci =>
            match env.getQoSLevelForPod pod with
            | .ok q => updatedContainerInfo K env (ingestPoolRows K env
                (σ'.range .poolRows resp.entries) (∅, syncCheckpoint K env σ resp safeTime mc)).2
                  ci info q
            | .error _ => ci
        | none => mc.getContainerInfo u c).filter
        fun ci => !(notInCheckpoint resp ci && decide (ci.updateTime < safeTime)) := by
  rw [getContainerInfo_syncCheckpoint]
  cases hrow : podRow K env (resp.entries.lookup u) u c with
  | none =>
    rw [getContainerInfo_syncCheckpoint, hrow]
    cases mc.getContainerInfo u c with
    | none => rfl
    | some ci => by_cases hk : notInCheckpoint resp ci && decide (ci.updateTime < safeTime) <;>
        simp [Option.filter, hk]
  | some r =>
    obtain ⟨pod, info⟩ := r
    simp only [containerAfterUpdate_ingestPoolRows, getContainerInfo_syncCheckpoint, hrow]
    cases mc.getContainerInfo u c with
    | none => rfl
    | some ci =>
      cases env.getQoSLevelForPod pod with
      | error e =>
        by_cases hk : notInCheckpoint resp ci && decide (ci.updateTime < safeTime) <;>
          simp [Option.filter, hk]
      | ok q =>
        by_cases hk : notInCheckpoint resp ci && decide (ci.updateTime < safeTime) <;>
          simp [Option.filter, hk, updatedContainerInfo_updatedContainerInfo]

/-- A re-sync changes no container's record but its assignments, and deletes and creates
no container. -/
theorem withoutAssignments_syncCheckpoint_twice (u c : String) :
    ((syncCheckpoint K env σ' resp safeTime
        (syncCheckpoint K env σ resp safeTime mc)).getContainerInfo u c).map withoutAssignments =
      ((syncCheckpoint K env σ resp safeTime mc).getContainerInfo u c).map withoutAssignments := by
  rw [getContainerInfo_syncCheckpoint_twice, getContainerInfo_syncCheckpoint]
  cases podRow K env (resp.entries.lookup u) u c with
  | none => rfl
  | some r =>
    obtain ⟨pod, info⟩ := r
    simp only [containerAfterUpdate_ingestPoolRows]
    cases mc.getContainerInfo u c with
    | none => rfl
    | some ci =>
      cases env.getQoSLevelForPod pod with
      | error e => rfl
      | ok q =>
        by_cases hk : notInCheckpoint resp ci && decide (ci.updateTime < safeTime) <;>
          simp [Option.filter, hk, withoutAssignments_updatedContainerInfo K env _
            (ingestPoolRows K env (σ.range .poolRows resp.entries) (∅, mc)).2]

/-- The pools a sync leaves: those the pool rows left, restricted to the pool rows and the
origin owner pools of the containers the sync leaves. -/
theorem getPoolInfo_syncCheckpoint_eq_some {p : String} {pi : PoolInfo} :
    (syncCheckpoint K env σ resp safeTime mc).getPoolInfo p = some pi ↔
      (ingestPoolRows K env (σ.range .poolRows resp.entries) (∅, mc)).2.getPoolInfo p = some pi ∧
        ((poolRow K resp p).isSome ∨ ∃ u c ci,
          (syncCheckpoint K env σ resp safeTime mc).getContainerInfo u c = some ci ∧
            ci.originOwnerPoolName = p) := by
  set pools := ingestPoolRows K env (σ.range .poolRows resp.entries) (∅, mc)
  set mc₃ := (ingestContainerRows K env σ (σ.range .containerRows resp.entries)
    pools.2).rangeAndDeleteContainer (notInCheckpoint resp) safeTime
  have hsync : syncCheckpoint K env σ resp safeTime mc =
      mc₃.gcPoolEntries (collectOriginOwnerPools (σ.range .livingPools mc₃.podEntries) pools.1) :=
    rfl
  have hliving : p ∈ pools.1 ↔ (poolRow K resp p).isSome := by
    rw [mem_ingestPoolRows_living K env _ (σ.nodupKeys_range _ _), σ.dlookup_range]
    simp [poolRow]
  have hex : (∃ e ∈ σ.range .livingPools mc₃.podEntries, e.2.originOwnerPoolName = p) ↔
      ∃ u c ci, (syncCheckpoint K env σ resp safeTime mc).getContainerInfo u c = some ci ∧
        ci.originOwnerPoolName = p := by
    simp only [Schedule.mem_range, hsync, MetaCache.getContainerInfo,
      MetaCache.podEntries_gcPoolEntries]
    constructor
    · rintro ⟨⟨⟨u, c⟩, ci⟩, he, rfl⟩
      exact ⟨u, c, ci, AList.mem_lookup_iff.2 he, rfl⟩
    · rintro ⟨u, c, ci, h, rfl⟩
      exact ⟨⟨(u, c), ci⟩, AList.mem_lookup_iff.1 h, rfl⟩
  rw [← hex, ← hliving, ← collectOriginOwnerPools_mem, hsync]
  show (mc₃.poolEntries.filter _).lookup p = some pi ↔ _
  rw [AList.lookup_filter_eq_some, decide_eq_true_iff]
  exact and_congr_left fun _ => by
    show (ingestContainerRows K env σ _ pools.2).poolEntries.lookup p = some pi ↔ _
    rw [ingestContainerRows_poolEntries]
    rfl

/-- A re-sync keeps every pool a sync left, with its record, and deletes none. -/
theorem getPoolInfo_syncCheckpoint_twice (p : String) :
    (syncCheckpoint K env σ' resp safeTime
        (syncCheckpoint K env σ resp safeTime mc)).getPoolInfo p =
      (syncCheckpoint K env σ resp safeTime mc).getPoolInfo p := by
  -- the containers either sync leaves have the same origin owner pools
  have horigin : ∀ u c, ((syncCheckpoint K env σ' resp safeTime
      (syncCheckpoint K env σ resp safeTime mc)).getContainerInfo u c).map
        ContainerInfo.originOwnerPoolName =
      ((syncCheckpoint K env σ resp safeTime mc).getContainerInfo u c).map
        ContainerInfo.originOwnerPoolName := fun u c => by
    have h := congrArg (Option.map ContainerInfo.originOwnerPoolName)
      (withoutAssignments_syncCheckpoint_twice K env σ σ' resp safeTime mc u c)
    simpa only [Option.map_map] using h
  have hliving : (∃ u c ci, (syncCheckpoint K env σ' resp safeTime
      (syncCheckpoint K env σ resp safeTime mc)).getContainerInfo u c = some ci ∧
        ci.originOwnerPoolName = p) ↔
      ∃ u c ci, (syncCheckpoint K env σ resp safeTime mc).getContainerInfo u c = some ci ∧
        ci.originOwnerPoolName = p := by
    simp only [← Option.map_eq_some', horigin]
  refine Option.ext fun pi => ?_
  simp only [Option.mem_def]
  rw [getPoolInfo_syncCheckpoint_eq_some K env σ' resp safeTime
    (syncCheckpoint K env σ resp safeTime mc), hliving, getPoolInfo_ingestPoolRows]
  cases hrow : poolRow K resp p with
  | none =>
    -- a pool without a row is kept by the origin owner pool of a container, as before
    refine ⟨And.left, fun h => ⟨h, ?_⟩⟩
    have hkept := ((getPoolInfo_syncCheckpoint_eq_some K env σ resp safeTime mc).1 h).2
    rwa [hrow] at hkept
  | some info =>
    -- a pool with a row takes the row again
    have hpool : (syncCheckpoint K env σ resp safeTime mc).getPoolInfo p =
        some (updatedPoolInfo env (mc.getPoolInfo p) info) := by
      rw [getPoolInfo_syncCheckpoint_eq_some, getPoolInfo_ingestPoolRows, hrow]
      exact ⟨rfl, .inl rfl⟩
    simp [hpool, updatedPoolInfo_updatedPoolInfo]

/-! ## Re-syncing -/

/-- Re-syncing an unchanged checkpoint with the same safe time, for every cache and every
order in which each sync ranges over the checkpoint: the pools one sync leaves are kept as
they are; a re-sync changes no container but its assignments, and deletes and creates none;
and the second re-sync changes nothing at all. -/
theorem syncCheckpoint_resync_converges (σ σ' σ'' : Schedule) :
    (∀ p, (syncCheckpoint K env σ' resp safeTime
        (syncCheckpoint K env σ resp safeTime mc)).getPoolInfo p =
      (syncCheckpoint K env σ resp safeTime mc).getPoolInfo p) ∧
    (∀ u c, ((syncCheckpoint K env σ' resp safeTime
        (syncCheckpoint K env σ resp safeTime mc)).getContainerInfo u c).map withoutAssignments =
      ((syncCheckpoint K env σ resp safeTime mc).getContainerInfo u c).map withoutAssignments) ∧
    (∀ p, (syncCheckpoint K env σ'' resp safeTime (syncCheckpoint K env σ' resp safeTime
        (syncCheckpoint K env σ resp safeTime mc))).getPoolInfo p =
      (syncCheckpoint K env σ' resp safeTime
        (syncCheckpoint K env σ resp safeTime mc)).getPoolInfo p) ∧
    ∀ u c, (syncCheckpoint K env σ'' resp safeTime (syncCheckpoint K env σ' resp safeTime
        (syncCheckpoint K env σ resp safeTime mc))).getContainerInfo u c =
      (syncCheckpoint K env σ' resp safeTime
        (syncCheckpoint K env σ resp safeTime mc)).getContainerInfo u c := by
  -- after one re-sync the pools, hence the assignments the rows read, are the first sync's
  have hpools : ∀ p, poolAssignmentsAfterRows K env resp (syncCheckpoint K env σ' resp safeTime
      (syncCheckpoint K env σ resp safeTime mc)) p =
      poolAssignmentsAfterRows K env resp (syncCheckpoint K env σ resp safeTime mc) p := fun p => by
    simp only [poolAssignmentsAfterRows, getPoolInfo_syncCheckpoint_twice]
  refine ⟨getPoolInfo_syncCheckpoint_twice K env σ σ' resp safeTime mc,
    withoutAssignments_syncCheckpoint_twice K env σ σ' resp safeTime mc,
    getPoolInfo_syncCheckpoint_twice K env σ' σ'' resp safeTime _, fun u c => ?_⟩
  rw [getContainerInfo_syncCheckpoint_twice K env σ' σ'' resp safeTime
      (syncCheckpoint K env σ resp safeTime mc),
    getContainerInfo_syncCheckpoint K env σ' resp safeTime (syncCheckpoint K env σ resp safeTime mc)]
  cases podRow K env (resp.entries.lookup u) u c with
  | none => rfl
  | some r =>
    obtain ⟨pod, info⟩ := r
    simp only [containerAfterUpdate_ingestPoolRows]
    cases (syncCheckpoint K env σ resp safeTime mc).getContainerInfo u c with
    | none => rfl
    | some ci =>
      cases env.getQoSLevelForPod pod with
      | error e => rfl
      | ok q =>
        simp only [Option.map_some']
        rw [updatedContainerInfo_ingestPoolRows K env σ'' σ' resp _ _ (fun _ => hpools _) ci]

/-- Re-syncing an unchanged checkpoint with the same safe time changes nothing, for every
cache and every order in which either sync ranges over the checkpoint, when every row of a
container that is not dedicated names no owner pool or a pool with a row of its own. -/
theorem syncCheckpoint_resync_fixed (σ σ' : Schedule)
    (hrows : ∀ u c pod info q, podRow K env (resp.entries.lookup u) u c = some (pod, info) →
      env.getQoSLevelForPod pod = .ok q → q ≠ K.podAnnotationQoSLevelDedicatedCores →
      info.ownerPoolName = "" ∨ (poolRow K resp info.ownerPoolName).isSome) :
    (∀ p, (syncCheckpoint K env σ' resp safeTime
        (syncCheckpoint K env σ resp safeTime mc)).getPoolInfo p =
      (syncCheckpoint K env σ resp safeTime mc).getPoolInfo p) ∧
    ∀ u c, (syncCheckpoint K env σ' resp safeTime
        (syncCheckpoint K env σ resp safeTime mc)).getContainerInfo u c =
      (syncCheckpoint K env σ resp safeTime mc).getContainerInfo u c := by
  refine ⟨getPoolInfo_syncCheckpoint_twice K env σ σ' resp safeTime mc, fun u c => ?_⟩
  rw [getContainerInfo_syncCheckpoint_twice, getContainerInfo_syncCheckpoint]
  cases hrow : podRow K env (resp.entries.lookup u) u c with
  | none => rfl
  | some r =>
    obtain ⟨pod, info⟩ := r
    simp only [containerAfterUpdate_ingestPoolRows]
    cases mc.getContainerInfo u c with
    | none => rfl
    | some ci =>
      cases hq : env.getQoSLevelForPod pod with
      | error e => rfl
      | ok q =>
        -- the row's owner pool, when the row reads it, has a row of its own
        have hread : q ≠ K.podAnnotationQoSLevelDedicatedCores ∧ info.ownerPoolName ≠ "" →
            poolAssignmentsAfterRows K env resp (syncCheckpoint K env σ resp safeTime mc)
              info.ownerPoolName =
            poolAssignmentsAfterRows K env resp mc info.ownerPoolName := fun h =>
          poolAssignmentsAfterRows_of_poolRow K env
            ((hrows u c pod info q hrow hq h.1).resolve_left h.2) _ _
        simp only [Option.map_some']
        rw [updatedContainerInfo_ingestPoolRows K env σ' σ resp _ _ hread ci]

/-- The pool row of `share`. -/
def sharePoolRow : AllocationEntries := ⟨AList.insert "" ⟨false, "share", ∅, ∅⟩ ∅⟩

/-- The row of `pod/main`, owned by `share`, and the pool row of `share`. -/
def sharedPoolCheckpoint : GetCheckpointResponse :=
  ⟨AList.insert "pod" sharedMainRow (AList.insert "share" sharePoolRow ∅)⟩

/-- A shared container whose owner pool has a row: re-syncing, in the other order, changes
nothing. -/
theorem syncCheckpoint_resync_fixed_sharedPool :
    (∀ p, (syncCheckpoint katalystConsts findsSharedPods Schedule.reverseOrder sharedPoolCheckpoint 0
        (syncCheckpoint katalystConsts findsSharedPods Schedule.listOrder sharedPoolCheckpoint 0
          (MetaCache.empty.insertContainer sharedMain))).getPoolInfo p =
      (syncCheckpoint katalystConsts findsSharedPods Schedule.listOrder sharedPoolCheckpoint 0
        (MetaCache.empty.insertContainer sharedMain)).getPoolInfo p) ∧
    ∀ u c, (syncCheckpoint katalystConsts findsSharedPods Schedule.reverseOrder
        sharedPoolCheckpoint 0 (syncCheckpoint katalystConsts findsSharedPods Schedule.listOrder
          sharedPoolCheckpoint 0 (MetaCache.empty.insertContainer sharedMain))).getContainerInfo u c =
      (syncCheckpoint katalystConsts findsSharedPods Schedule.listOrder sharedPoolCheckpoint 0
        (MetaCache.empty.insertContainer sharedMain)).getContainerInfo u c :=
  syncCheckpoint_resync_fixed katalystConsts findsSharedPods sharedPoolCheckpoint 0
    (MetaCache.empty.insertContainer sharedMain) Schedule.listOrder Schedule.reverseOrder
    fun u c pod info q h _ _ => by
      right
      -- every row of the checkpoint is owned by `share`
      have hshare : info.ownerPoolName = "share" := by
        by_cases hu : u = "pod"
        · subst hu
          by_cases hc : c = "main"
          · subst hc
            simp [podRow, sharedPoolCheckpoint, sharedMainRow, findsSharedPods,
              ← AList.insert_empty, AList.lookup_insert, katalystConsts] at h
            rw [← h]
          · simp [podRow, sharedPoolCheckpoint, sharedMainRow, findsSharedPods,
              ← AList.insert_empty, AList.lookup_insert, AList.lookup_insert_ne hc,
              AList.lookup_empty, katalystConsts] at h
        · by_cases hs : u = "share"
          · subst hs
            simp [podRow, sharedPoolCheckpoint, sharePoolRow, ← AList.insert_empty,
              AList.lookup_insert, katalystConsts] at h
          · simp [podRow, sharedPoolCheckpoint, ← AList.insert_empty, AList.lookup_insert_ne hu,
              AList.lookup_insert_ne hs, AList.lookup_empty] at h
      rw [hshare]
      decide

end CpuServer

import CpuServer.Resync
import CpuServer.Response
import CpuServer.ListAndWatch

/-!
# A tick of the loop, and the whole server

`cpuServer.getAndSyncCheckpoint`, `shouldTriggerAdvisorUpdate` and `getAndPushAdvice`
(`cpu_server.go` lines 147-218): on every tick the call that holds the `ListAndWatch` loop
fetches the QRM plugin's checkpoint and syncs the cache with it, then, once the start-up
period is over and the synced cache holds the reserve pool, asks the advisor for its result
and sends the response assembled from it on its stream.  Every failure is returned to the
loop, which reports it and goes on.

What a tick reads from outside src/ is one `Tick`: the two readings of the clock, the order
Go picks for every `range`, the collaborators of the sync, the plugin's answer, the advisor
(which reads the cache), the headroom source and the stream's `Send`.  A tick is modelled
for every such world, so the results below hold whatever the plugin, the advisor and the
stream do.

THE WHOLE SERVER.  `WholeServer` joins the protocol state of `ListAndWatch` (the flag and the
phase of every call) with the cache and the responses handed to each call's stream; client
creation runs `createQRMClient`, and a tick of a call runs `getAndPushAdvice` on the shared
cache.  Its projection to the protocol state takes exactly the protocol's step
(`WholeServer.server_step`), so every reachable state of the whole server projects to a
reachable protocol state and single flight carries over.  Over every run, in any
interleaving of the calls and whatever each tick reads:

* the cache and the streams change only at a tick of the one call holding the loop, and
  that tick writes no stream but its own;
* the cache only ever holds containers it held at the start, and of each, ticks have
  changed only the fields a checkpoint row carries, the origin owner pool only while it was
  empty (`ContainerInfo.Synced`).
-/

set_option autoImplicit false

namespace CpuServer

/-- What `resourceAdvisor.UpdateAndGetAdvice` returns when it does not fail: a
`*types.InternalCPUCalculationResult`, or a value of another type, named as `%T` prints
it. -/
inductive AdvisorResponse where
  | cpu (advisorResp : InternalCPUCalculationResult)
  | other (typeName : String)

/-- The world one tick reads: `time.Now().UnixNano()` at the start of
`getAndSyncCheckpoint` (`safeTime`) and `time.Now()` in `shouldTriggerAdvisorUpdate`
(`now`), the order of every `range`, the collaborators of the sync, the reply to
`GetCheckpoint` (an error, `nil`, or a response), `UpdateAndGetAdvice` on the cache it
reads, the headroom source of `assembleResponse`, and `server.Send`. -/
structure Tick (Pod : Type) where
  safeTime : Int
  now : Int
  σ : Schedule
  env : Collaborators Pod
  getCheckpoint : Except String (Option GetCheckpointResponse)
  updateAndGetAdvice : MetaCache → Except String AdvisorResponse
  headroom : HeadroomSource
  send : ListAndWatchResponse → Except String Unit

/-- What a tick leaves: the cache, the response handed to `server.Send` (if one was), and
the error `getAndPushAdvice` returns (`none` for nil). -/
structure TickResult where
  cache : MetaCache
  sent : Option ListAndWatchResponse
  err : Option String

variable {Pod : Type} (K : Consts)

/-- `cpuServer.getAndSyncCheckpoint`: the synced cache, or the error (the cache is then
not touched). -/
def getAndSyncCheckpoint (env : Collaborators Pod) (σ : Schedule) (safeTime : Int)
    (getCheckpointResp : Except String (Option GetCheckpointResponse)) (mc : MetaCache) :
    Except String MetaCache :=
  match getCheckpointResp with
  | .error err => .error s!"get checkpoint failed: {err}"
  | .ok none => .error "got nil checkpoint"
  | .ok (some resp) => .ok (syncCheckpoint K env σ resp safeTime mc)

/-- `cpuServer.shouldTriggerAdvisorUpdate`: `startTime` is `cs.startTime` and
`startUpPeriod` is `types.StartUpPeriod`, in nanoseconds like `now`. -/
def shouldTriggerAdvisorUpdate (startTime startUpPeriod now : Int) (mc : MetaCache) : Bool :=
  if now < startTime + startUpPeriod then false
  else (mc.getPoolInfo K.poolNameReserve).isSome

variable (startTime startUpPeriod : Int)

/-- Lines 194-217 of `getAndPushAdvice`, on the cache the sync left: the response handed
to `server.Send`, if any, and the error returned. -/
def pushAdvice (t : Tick Pod) (mc : MetaCache) : Option ListAndWatchResponse × Option String :=
  if !shouldTriggerAdvisorUpdate K startTime startUpPeriod t.now mc then (none, none)
  else
    match t.updateAndGetAdvice mc with
    | .error err => (none, some s!"get advice failed: {err}")
    | .ok (.other typeName) => (none, some s!"get advice failed: invalid type: {typeName}")
    | .ok (.cpu advisorResp) =>
      let lwResp := assembleResponse K t.σ advisorResp mc t.headroom
      match t.send lwResp with
      | .error err => (some lwResp, some s!"send listWatch response failed: {err}")
      | .ok () => (some lwResp, none)

/-- `cpuServer.getAndPushAdvice`. -/
def getAndPushAdvice (t : Tick Pod) (mc : MetaCache) : TickResult :=
  match getAndSyncCheckpoint K t.env t.σ t.safeTime t.getCheckpoint mc with
  | .error err => ⟨mc, none, some err⟩
  | .ok mc =>
    let r := pushAdvice K startTime startUpPeriod t mc
    ⟨mc, r.1, r.2⟩

/-! ## One tick -/

variable {K startTime startUpPeriod}

/-- The cache a tick leaves: synced when the plugin answers with a checkpoint, as it was
otherwise. -/
theorem getAndPushAdvice_cache (t : Tick Pod) (mc : MetaCache) :
    (getAndPushAdvice K startTime startUpPeriod t mc).cache =
      match t.getCheckpoint with
      | .ok (some resp) => syncCheckpoint K t.env t.σ resp t.safeTime mc
      | _ => mc := by
  unfold getAndPushAdvice getAndSyncCheckpoint
  rcases t.getCheckpoint with _ | _ | _ <;> rfl

/-- The response `pushAdvice` hands to `Send`: the one assembled from the advisor's
result, once the start-up period is over and the cache holds the reserve pool. -/
theorem pushAdvice_fst_eq_some (t : Tick Pod) (mc : MetaCache) (lw : ListAndWatchResponse) :
    (pushAdvice K startTime startUpPeriod t mc).1 = some lw ↔
      startTime + startUpPeriod ≤ t.now ∧ (mc.getPoolInfo K.poolNameReserve).isSome ∧
        ∃ advisorResp, t.updateAndGetAdvice mc = .ok (.cpu advisorResp) ∧
          lw = assembleResponse K t.σ advisorResp mc t.headroom := by
  unfold pushAdvice shouldTriggerAdvisorUpdate
  by_cases hstart : t.now < startTime + startUpPeriod
  · simp [hstart]
  · have hle : startTime + startUpPeriod ≤ t.now := not_lt.1 hstart
    cases hres : (mc.getPoolInfo K.poolNameReserve).isSome
    · simp [hstart, hres]
    · rcases hadv : t.updateAndGetAdvice mc with err | advisorResp | typeName
      · simp [hstart, hres, hadv]
      · simp only [hstart, hres, hadv, hle, if_false, Bool.not_true, Bool.false_eq_true]
        split <;> simp [eq_comm]
      · simp [hstart, hres, hadv]

/-- A pool is cached after a sync when it was cached before or has a pool row, and it has a
pool row or is the origin owner pool of a container the sync keeps. -/
theorem getPoolInfo_syncCheckpoint_isSome (env : Collaborators Pod) (σ : Schedule)
    (resp : GetCheckpointResponse) (safeTime : Int) (mc : MetaCache) (p : String) :
    ((syncCheckpoint K env σ resp safeTime mc).getPoolInfo p).isSome ↔
      ((mc.getPoolInfo p).isSome ∨ (poolRow K resp p).isSome) ∧
        ((poolRow K resp p).isSome ∨ ∃ u c ci,
          (syncCheckpoint K env σ resp safeTime mc).getContainerInfo u c = some ci ∧
            ci.originOwnerPoolName = p) := by
  simp only [Option.isSome_iff_exists, getPoolInfo_syncCheckpoint_eq_some,
    getPoolInfo_ingestPoolRows]
  cases poolRow K resp p <;> simp

/-- When a tick pushes advice, whatever the world it reads: exactly when the plugin answers
with a checkpoint, the start-up period is over, the reserve pool survives the sync (it was
cached or has a pool row, and it has a pool row or is the origin owner pool of a container
the sync keeps), and the advisor, reading the synced cache, returns a CPU result.  The
response handed to `Send` is then the one assembled from that result against the synced
cache. -/
theorem getAndPushAdvice_sends_iff (t : Tick Pod) (mc : MetaCache) (lw : ListAndWatchResponse) :
    (getAndPushAdvice K startTime startUpPeriod t mc).sent = some lw ↔
      ∃ resp advisorResp, t.getCheckpoint = .ok (some resp) ∧
        startTime + startUpPeriod ≤ t.now ∧
        ((mc.getPoolInfo K.poolNameReserve).isSome ∨
          (poolRow K resp K.poolNameReserve).isSome) ∧
        ((poolRow K resp K.poolNameReserve).isSome ∨ ∃ u c ci,
          (syncCheckpoint K t.env t.σ resp t.safeTime mc).getContainerInfo u c = some ci ∧
            ci.originOwnerPoolName = K.poolNameReserve) ∧
        t.updateAndGetAdvice (syncCheckpoint K t.env t.σ resp t.safeTime mc) =
          .ok (.cpu advisorResp) ∧
        lw = assembleResponse K t.σ advisorResp
          (syncCheckpoint K t.env t.σ resp t.safeTime mc) t.headroom := by
  rcases hg : t.getCheckpoint with err | _ | resp
  · simp [getAndPushAdvice, getAndSyncCheckpoint, hg]
  · simp [getAndPushAdvice, getAndSyncCheckpoint, hg]
  · have hsent : (getAndPushAdvice K startTime startUpPeriod t mc).sent =
        (pushAdvice K startTime startUpPeriod t
          (syncCheckpoint K t.env t.σ resp t.safeTime mc)).1 := by
      simp only [getAndPushAdvice, getAndSyncCheckpoint, hg]
    rw [hsent, pushAdvice_fst_eq_some, getPoolInfo_syncCheckpoint_isSome]
    simp [and_assoc]

/-! ## What ticks write into a container -/

/-- What ticks can make of a cached container `ci`: they write the fields a checkpoint row
carries (QoS level, ramp up, owner pool, both assignments), and the origin owner pool only
while it is empty; nothing else. -/
structure ContainerInfo.Synced (ci ci' : ContainerInfo) : Prop where
  podUID : ci'.podUID = ci.podUID
  containerName : ci'.containerName = ci.containerName
  isolated : ci'.isolated = ci.isolated
  regionNames : ci'.regionNames = ci.regionNames
  numaBinding : ci'.numaBinding = ci.numaBinding
  updateTime : ci'.updateTime = ci.updateTime
  originOwnerPoolName : ci.originOwnerPoolName ≠ "" →
    ci'.originOwnerPoolName = ci.originOwnerPoolName

theorem ContainerInfo.Synced.refl (ci : ContainerInfo) : ci.Synced ci :=
  ⟨rfl, rfl, rfl, rfl, rfl, rfl, fun _ => rfl⟩

theorem ContainerInfo.Synced.trans {ci ci' ci'' : ContainerInfo} (h : ci.Synced ci')
    (h' : ci'.Synced ci'') : ci.Synced ci'' :=
  ⟨h'.podUID.trans h.podUID, h'.containerName.trans h.containerName,
    h'.isolated.trans h.isolated, h'.regionNames.trans h.regionNames,
    h'.numaBinding.trans h.numaBinding, h'.updateTime.trans h.updateTime,
    fun hne => (h'.originOwnerPoolName (h.originOwnerPoolName hne ▸ hne)).trans
      (h.originOwnerPoolName hne)⟩

theorem synced_updatedContainerInfo (env : Collaborators Pod) (mc : MetaCache)
    (ci : ContainerInfo) (info : AllocationInfo) (q : String) :
    ci.Synced (updatedContainerInfo K env mc ci info q) := by
  rw [updatedContainerInfo_eq]
  exact ⟨rfl, rfl, rfl, rfl, rfl, rfl, fun h => if_neg h⟩

/-- A container cached after a sync was cached before it, and the sync wrote only the
fields a row carries. -/
theorem syncCheckpoint_synced (env : Collaborators Pod) (σ : Schedule)
    (resp : GetCheckpointResponse) (safeTime : Int) (mc : MetaCache) {u c : String}
    {ci' : ContainerInfo}
    (h : (syncCheckpoint K env σ resp safeTime mc).getContainerInfo u c = some ci') :
    ∃ ci, mc.getContainerInfo u c = some ci ∧ ci.Synced ci' := by
  rw [getContainerInfo_syncCheckpoint, Option.filter_eq_some, Option.mem_def] at h
  rcases hrow : podRow K env (resp.entries.lookup u) u c with _ | ⟨pod, info⟩
  · simp only [hrow] at h
    exact ⟨ci', h.1, .refl _⟩
  · simp only [hrow, containerAfterUpdate, getContainerInfo_ingestPoolRows,
      Option.map_eq_some'] at h
    obtain ⟨⟨ci, hci, rfl⟩, -⟩ := h
    refine ⟨ci, hci, ?_⟩
    cases env.getQoSLevelForPod pod with
    | ok q => exact synced_updatedContainerInfo env _ ci info q
    | error _ => exact .refl ci

/-- The step lemma of the run below: what a tick leaves of a container. -/
theorem getAndPushAdvice_synced (t : Tick Pod) (mc : MetaCache) {u c : String}
    {ci' : ContainerInfo}
    (h : (getAndPushAdvice K startTime startUpPeriod t mc).cache.getContainerInfo u c =
      some ci') :
    ∃ ci, mc.getContainerInfo u c = some ci ∧ ci.Synced ci' := by
  rw [getAndPushAdvice_cache] at h
  split at h
  · exact syncCheckpoint_synced _ _ _ _ mc h
  · exact ⟨ci', h, .refl _⟩

/-! ## The whole server -/

/-- What `NewCPUServer` fixes for the server's lifetime and the calls read: `cs.startTime`,
`types.StartUpPeriod` (both in nanoseconds) and `cs.pluginSocketPath`. -/
structure ServerConfig where
  startTime : Int
  startUpPeriod : Int
  pluginSocketPath : String

/-- `cpuServer.createQRMClient`, given whether `general.IsPathExists` finds the plugin's
socket and what `cs.dial` returns; the client and connection it returns are left out. -/
def createQRMClient (pluginSocketPath : String) (pathExists : Bool)
    (dial : Except String Unit) : Except String Unit :=
  if !pathExists then .error s!"memory plugin socket path {pluginSocketPath} does not exist"
  else
    match dial with
    | .error err => .error s!"dial memory plugin socket failed: {err}"
    | .ok () => .ok ()

/-- The whole server: the `ListAndWatch` protocol state (the flag and the phase of every
call), the cache all calls share, and the responses handed to `Send` on each call's
stream. -/
structure WholeServer where
  server : Server
  cache : MetaCache
  streams : Nat → List ListAndWatchResponse

/-- One atomic action of call `i`: the protocol's actions, client creation carrying what
`IsPathExists` and `dial` return, a tick carrying the world it reads. -/
inductive ServerAction (Pod : Type) where
  | swap (i : Nat)
  | createClient (i : Nat) (pathExists : Bool) (dial : Except String Unit)
  | tick (i : Nat) (t : Tick Pod)
  | contextDone (i : Nat)
  | stop (i : Nat)

variable (K) (cfg : ServerConfig)

/-- The protocol action an action of the whole server is, on cache `mc`: client creation
fails with the error of `createQRMClient`, and a tick succeeds when `getAndPushAdvice`
returns nil. -/
def ServerAction.toEvent (mc : MetaCache) : ServerAction Pod → Event
  | .swap i => .swap i
  | .createClient i pathExists dial =>
    match createQRMClient cfg.pluginSocketPath pathExists dial with
    | .error err => .clientFailed i err
    | .ok () => .clientCreated i
  | .tick i t => .tick i (getAndPushAdvice K cfg.startTime cfg.startUpPeriod t mc).err.isNone
  | .contextDone i => .contextDone i
  | .stop i => .stop i

/-- The effect of an action: a tick of call `i` runs `getAndPushAdvice` on the shared cache
and appends what it handed to `Send` to call `i`'s stream; every other action is the
protocol's. -/
def WholeServer.step (s : WholeServer) : ServerAction Pod → WholeServer
  | .tick i t =>
    let r := getAndPushAdvice K cfg.startTime cfg.startUpPeriod t s.cache
    ⟨s.server, r.cache, Function.update s.streams i (s.streams i ++ r.sent.toList)⟩
  | e => { s with server := next s.server (e.toEvent K cfg s.cache) }

variable (Pod) in
/-- Runs of the whole server from a cache `mc₀` that `NewCPUServer` is given, in any
interleaving of any number of calls, each tick reading any world. -/
inductive WholeServer.Reachable (mc₀ : MetaCache) : WholeServer → Prop where
  | init : WholeServer.Reachable mc₀ ⟨newCPUServer, mc₀, fun _ => []⟩
  | step {s : WholeServer} {e : ServerAction Pod} : WholeServer.Reachable mc₀ s →
      Enabled s.server (e.toEvent K cfg s.cache) → WholeServer.Reachable mc₀ (s.step K cfg e)

variable {K cfg}

/-- The refinement step: the whole server's projection to the protocol state takes the
protocol's step. -/
theorem WholeServer.server_step (s : WholeServer) (e : ServerAction Pod) :
    (s.step K cfg e).server = next s.server (e.toEvent K cfg s.cache) := by
  cases e <;> rfl

/-- Every reachable state of the whole server projects to a reachable protocol state. -/
theorem WholeServer.Reachable.server {mc₀ : MetaCache} {s : WholeServer}
    (hs : WholeServer.Reachable Pod K cfg mc₀ s) : CpuServer.Reachable s.server := by
  induction hs with
  | init => exact .init
  | step _ he ih => exact WholeServer.server_step _ _ ▸ .step ih he


/-- The shared state of the whole server, over every run: the cache and the streams change
only at a tick of the one call holding the loop, a call in its timer loop with no other
call holding it, and that tick writes no stream but its own. -/
theorem WholeServer.Reachable.single_writer {mc₀ : MetaCache} {s : WholeServer}
    (hs : WholeServer.Reachable Pod K cfg mc₀ s) {e : ServerAction Pod}
    (he : Enabled s.server (e.toEvent K cfg s.cache))
    (hw : (s.step K cfg e).cache ≠ s.cache ∨ (s.step K cfg e).streams ≠ s.streams) :
    ∃ i t, e = .tick i t ∧ s.server.calls i = .streaming ∧
      (∀ j, (s.server.calls j).admitted → j = i) ∧
      ∀ j ≠ i, (s.step K cfg e).streams j = s.streams j := by
  cases e with
  | tick i t =>
    have hi : s.server.calls i = .streaming := he
    refine ⟨i, t, rfl, hi, fun j hj => ?_, fun j hj => Function.update_noteq hj _ _⟩
    exact hs.server.singleFlight.single j i hj (by simp [hi, Phase.admitted])
  | _ => simp [WholeServer.step] at hw

/-- A tick that syncs the cache with the checkpoint holding the row of `pod/main`; the
advisor fails, so nothing is sent. -/
def syncTick : Tick Unit :=
  ⟨0, 0, .listOrder, findsSharedPods, .ok (some sharedMainCheckpoint), fun _ => .error "",
    ⟨.error "", fun _ => .error ""⟩, fun _ => .ok ()⟩

/-- A server started at time 0 with no start-up period. -/
def startedServer : ServerConfig := ⟨0, 0, "/cpu.sock"⟩

/-- Call 0 is admitted and creates its client, over a cache holding `pod/main`. -/
def clientRun : WholeServer :=
  (WholeServer.step katalystConsts startedServer
    ⟨newCPUServer, MetaCache.empty.insertContainer sharedMain, fun _ => []⟩
    (.swap 0 : ServerAction Unit)).step katalystConsts startedServer
    (.createClient 0 true (.ok ()) : ServerAction Unit)

/-- `sharedMain` as the sync of `syncTick` leaves it: ramping up, with origin owner pool
`share`. -/
def syncedMain : ContainerInfo :=
  ⟨"pod", "main", "shared_cores", true, "share", "share", ∅, ∅, false, ∅, false, 0⟩

/-- Then call 0 ticks once with `syncTick`. -/
def syncTickRun : WholeServer := clientRun.step katalystConsts startedServer (.tick 0 syncTick)

theorem single_writer_syncTick :
    ∃ i t, (.tick 0 syncTick : ServerAction Unit) = .tick i t ∧
      clientRun.server.calls i = .streaming ∧
      (∀ j, (clientRun.server.calls j).admitted → j = i) ∧
      ∀ j ≠ i, syncTickRun.streams j = clientRun.streams j := by
  have hcache : syncTickRun.cache ≠ clientRun.cache := fun h => by
    have hsynced : syncTickRun.cache.getContainerInfo "pod" "main" = some syncedMain := rfl
    have hbefore : clientRun.cache.getContainerInfo "pod" "main" = some sharedMain := rfl
    rw [h, hbefore] at hsynced
    simp [sharedMain, syncedMain] at hsynced
  exact WholeServer.Reachable.single_writer (e := .tick 0 syncTick)
    (.step (.step .init rfl) rfl :
      WholeServer.Reachable Unit katalystConsts startedServer _ clientRun)
    rfl (.inl hcache)

/-- The cache of the whole server, over every run from `mc₀`, in any interleaving of any
number of `ListAndWatch` calls and whatever each tick reads (checkpoint, clocks, pods,
advisor, stream): every container cached was cached in `mc₀`, and ticks have written only
the fields a checkpoint row carries.  Its identity, isolation, regions, NUMA binding and
update time are as they were in `mc₀`, and an origin owner pool that was set in `mc₀` is
unchanged. -/
theorem WholeServer.Reachable.cache_synced {mc₀ : MetaCache} {s : WholeServer}
    (hs : WholeServer.Reachable Pod K cfg mc₀ s) {u c : String} {ci : ContainerInfo}
    (h : s.cache.getContainerInfo u c = some ci) :
    ∃ ci₀, mc₀.getContainerInfo u c = some ci₀ ∧ ci₀.Synced ci := by
  induction hs generalizing ci with
  | init => exact ⟨ci, h, .refl ci⟩
  | @step s e _ _ ih =>
    cases e with
    | tick i t =>
      obtain ⟨ci₁, h₁, hsync⟩ := getAndPushAdvice_synced t s.cache h
      obtain ⟨ci₀, h₀, hsync₀⟩ := ih h₁
      exact ⟨ci₀, h₀, hsync₀.trans hsync⟩
    | _ => exact ih h

theorem cache_synced_syncTickRun :
    ∃ ci₀, (MetaCache.empty.insertContainer sharedMain).getContainerInfo "pod" "main" =
      some ci₀ ∧ ci₀.Synced syncedMain :=
  WholeServer.Reachable.cache_synced
    (.step (.step (.step .init rfl) rfl) rfl :
      WholeServer.Reachable Unit katalystConsts startedServer _ syncTickRun) rfl

end CpuServer

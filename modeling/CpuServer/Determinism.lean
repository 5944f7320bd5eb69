import CpuServer.ReclaimClaims

/-!
# What the response says, whatever the order of the maps

`assembleResponse` ranges over Go maps whose order is drawn anew at every `range`.  With the
ids and overlap targets of the blocks and the order of the blocks within a result set
aside, the response is determined by the cache, the advisor's result, and for each NUMA node
the pod that claims the reclaim pool's block there (`assembleResponse_shape`:
`expectedOwner` and `expectedSizes`), provided that

* no pod UID of the cache names a pool (`PodUIDsNotPools`);
* no shared- or reclaimed-cores container publishes a pod UID of the cache as its pool
  (`PublishedPoolsNotPods`): otherwise whether it is skipped depends on whether that pod
  was assembled before it (see `assembleResponse_entry_of_pod_owner`);
* the containers of one pod agree on QoS level, NUMA binding and assignments
  (`PodsUniform`).

The claimant of a node is the pod of the first container, in the order the container loop
visits them, that is dedicated, NUMA-bound, not skipped and holds CPUs on the node
(`claimant`).  Where the reclaim pool has a block no overlap joins, the claimant's containers
get a block of their size on the node and every other pod's get none: the claimant, and so
the sizes, can change with the order of the cache (`assembleResponse_claim_race_order`).

THE PROOF.  The pool phase is `assemblePoolEntries_spec`, read off per pool by
`poolShape_assemblePoolEntries`.  In the container phase (`PhaseState`), blocks placed by
the pool phase keep ids below the counter's value when it ends, and blocks placed for
containers get ids from it on; so a sibling's copy, joined under a container block's id,
never touches a pool's block, and a pool's block changes only when a container claims it.
`ContainerPhaseInv` collects what the container loop keeps over the containers it has
visited: one step per container (`containerPhaseInv_assemblePodEntries`), from one step per
NUMA node (`assembleContainerNuma_phase`); what a visited container adds to the claimants is
`claimant_append_singleton`.
-/
set_option autoImplicit false

namespace CpuServer

open Assembly

variable (K : Consts) (σ : Schedule)

/-- The sizes of the blocks of a result, as a multiset: their order, ids and overlap targets
set aside. -/
def ListAndWatchResponse.resultSizes (resp : ListAndWatchResponse) (r : NumaCalculationResult) :
    Multiset UInt64 :=
  ↑(r.blocks.map fun h => (resp.blocks.getD h default).result)

/-- The sizes of the blocks of a result in a state of the pass. -/
def Assembly.resultSizes (a : Assembly) (r : NumaCalculationResult) : Multiset UInt64 :=
  ↑(r.blocks.map fun h => (a.cell h).block.result)

theorem resultSizes_assembleResponse (R : InternalCPUCalculationResult) (mc : MetaCache)
    (hs : HeadroomSource) :
    (assembleResponse K σ R mc hs).resultSizes = (assembleBlocks K σ R mc).resultSizes := by
  funext r
  have hview := blockView_assembleResponse K σ R mc hs
  simp only [ListAndWatchResponse.resultSizes, Assembly.resultSizes]
  congr 1
  exact List.map_congr_left fun h _ => congrArg Prod.snd (congrFun hview h)

/-! ## The response, from the cache and the advisor's result -/

section Expected

variable (R : InternalCPUCalculationResult) (mc : MetaCache)

/-- In overlap mode, the overlap phase joins every block of the reclaim pool on node `n` to
a shared pool's block: the reclaim pool has node `n` and the advisor gives overlaps there. -/
def reclaimOverlapped (n : Int) : Prop :=
  R.allowSharedCoresOverlapReclaimedCores = true ∧
    n ∈ (R.poolEntries.lookup K.poolNameReclaim).getD ∅ ∧
    (R.getPoolOverlapInfo K.poolNameReclaim n).entries.length ≠ 0

instance (n : Int) : Decidable (reclaimOverlapped K R n) := inferInstanceAs (Decidable (_ ∧ _ ∧ _))

/-- The sizes of the blocks of pool `p` on node `n`, as the pool phase makes them. -/
def poolSizes (p : String) (n : Int) : Option (Multiset UInt64) :=
  ((R.poolEntries.lookup p).bind (·.lookup n)).map fun size =>
    if p = K.poolNameReclaim ∧ reclaimOverlapped K R n then
      ↑(((R.getPoolOverlapInfo K.poolNameReclaim n).entries.filter
        fun e => overlapsPool K R e.1 n).map fun e => uint64 e.2)
    else {uint64 size}

/-- The sizes of the blocks a dedicated NUMA-bound container of pod `u` gets on node `n`,
where it holds `cpuset`, when `cl` is the pod that claims the reclaim pool's block there:
none where every block of the reclaim pool is joined to a shared pool's, none where the
reclaim pool has a block there that another pod claims, and one of its size otherwise. -/
def containerSizes (cl : Option String) (u : String) (cpuset : CPUSet) (n : Int) :
    Multiset UInt64 :=
  if reclaimOverlapped K R n ∨
      (n ∈ (R.poolEntries.lookup K.poolNameReclaim).getD ∅ ∧ cl ≠ some u) then 0
  else {UInt64.ofNat cpuset.card}

/-- The skip decision of lines 486-495 taken against the advisor's pools alone. -/
def skippedAgainstPools (ci : ContainerInfo) : Prop :=
  (ci.qoSLevel = K.podAnnotationQoSLevelSharedCores ∨
    ci.qoSLevel = K.podAnnotationQoSLevelReclaimedCores) ∧
  (publishedOwnerPoolName ci = "" ∨ publishedOwnerPoolName ci ∉ R.poolEntries)

instance (ci : ContainerInfo) : Decidable (skippedAgainstPools K R ci) :=
  inferInstanceAs (Decidable (_ ∧ _))

/-- A cached container that contends for the reclaim pool's block on node `n`: dedicated,
NUMA-bound, not skipped, and holding CPUs on `n`. -/
def contends (n : Int) (x : Σ _ : String × String, ContainerInfo) : Bool :=
  x.2.isDedicatedNumaBinding K && !decide (skippedAgainstPools K R x.2) &&
    decide (n ∈ x.2.topologyAwareAssignments)

/-- The pod that claims the reclaim pool's block on node `n` when the container loop visits
the containers `L` in this order: the pod of the first that contends for it, since a claim
joins only a block no earlier claim has joined (lines 533-544). -/
def claimant (L : List (Σ _ : String × String, ContainerInfo)) (n : Int) : Option String :=
  (L.find? (contends K R n)).map (·.1.1)

theorem contends_eq_true (n : Int) (x : Σ _ : String × String, ContainerInfo) :
    contends K R n x = true ↔ x.2.isDedicatedNumaBinding K = true ∧
      ¬ skippedAgainstPools K R x.2 ∧ n ∈ x.2.topologyAwareAssignments := by
  simp [contends, and_assoc]

/-- The pool sub-entry `c` of entry `e` of the response names: a pool's own name under the
faked container name, and the pool a cached container publishes unless it is skipped. -/
def expectedOwner (e c : String) : Option String :=
  if e ∈ R.poolEntries then (if c = K.fakedContainerName then some e else none)
  else (mc.getContainerInfo e c).bind fun ci =>
    if skippedAgainstPools K R ci then none else some (publishedOwnerPoolName ci)

/-- The sizes of the blocks of sub-entry `c` of entry `e` on node `n`, if it has a result
there, when `cl n` is the pod that claims the reclaim pool's block on node `n`: a pool's,
and a dedicated NUMA-bound container's on each node of its assignment. -/
def expectedSizes (cl : Int → Option String) (e c : String) (n : Int) :
    Option (Multiset UInt64) :=
  if e ∈ R.poolEntries then (if c = K.fakedContainerName then poolSizes K R e n else none)
  else (mc.getContainerInfo e c).bind fun ci =>
    if skippedAgainstPools K R ci ∨ ci.isDedicatedNumaBinding K = false then none
    else (ci.topologyAwareAssignments.lookup n).map (containerSizes K R (cl n) e · n)

/-- No pod UID of the cache names a pool: neither one of the advisor's nor the reclaim pool. -/
def PodUIDsNotPools : Prop :=
  ∀ k ∈ mc.podEntries.keys, k.1 ∉ R.poolEntries ∧ k.1 ≠ K.poolNameReclaim

instance : Decidable (PodUIDsNotPools K R mc) := inferInstanceAs (Decidable (∀ k ∈ _, _))

/-- No shared- or reclaimed-cores container publishes a pod UID of the cache as its pool. -/
def PublishedPoolsNotPods : Prop :=
  ∀ x ∈ mc.podEntries.entries, x.2.qoSLevel = K.podAnnotationQoSLevelSharedCores ∨
      x.2.qoSLevel = K.podAnnotationQoSLevelReclaimedCores →
    ∀ k ∈ mc.podEntries.keys, publishedOwnerPoolName x.2 ≠ k.1

instance : Decidable (PublishedPoolsNotPods K mc) := inferInstanceAs (Decidable (∀ x ∈ _, _))

/-- The containers of one pod agree on QoS level, NUMA binding and assignments. -/
def PodsUniform : Prop :=
  ∀ x ∈ mc.podEntries.entries, ∀ y ∈ mc.podEntries.entries, x.1.1 = y.1.1 →
    x.2.qoSLevel = y.2.qoSLevel ∧ x.2.numaBinding = y.2.numaBinding ∧
      x.2.topologyAwareAssignments = y.2.topologyAwareAssignments

/-- Visiting one more container: the node's claimant stays, or, if there was none, the new
container's pod claims the node when it contends for it. -/
theorem claimant_append_singleton (L : List (Σ _ : String × String, ContainerInfo))
    (x : Σ _ : String × String, ContainerInfo) (n : Int) :
    claimant K R (L ++ [x]) n =
      (claimant K R L n).or (if contends K R n x then some x.1.1 else none) := by
  simp only [claimant, List.find?_append, List.find?_singleton]
  cases L.find? (contends K R n) <;> split <;> rfl

theorem claimant_append_of_isSome {L : List (Σ _ : String × String, ContainerInfo)} {n : Int}
    (h : (claimant K R L n).isSome) (x : Σ _ : String × String, ContainerInfo) :
    claimant K R (L ++ [x]) n = claimant K R L n := by
  obtain ⟨v, hv⟩ := Option.isSome_iff_exists.1 h
  rw [claimant_append_singleton, hv, Option.or_some]

end Expected

/-! ## What the pool phase leaves -/

namespace Assembly

/-- No block has an overlap target. -/
def Unlinked (a : Assembly) : Prop :=
  ∀ h < a.heap.length, (a.cell h).block.overlapTargets = []

theorem Unlinked.placeFresh {a : Assembly} (hu : a.Unlinked) (hw : a.WellFormed) (size : UInt64)
    (n : Int) (p : String) (ci : Option ContainerInfo) : (a.placeFresh size n p ci).2.Unlinked := by
  intro h hh
  rw [hw.cell_placeFresh]
  simp only [length_placeFresh] at hh
  split_ifs with h'
  · rfl
  · exact hu h (by omega)

end Assembly

theorem assemblePoolNumas_unlinked (p : String) (L : List (Σ _ : Int, Int))
    (results : AList fun _ : Int => NumaCalculationResult) {a : Assembly} (hi : a.PoolPhaseInv)
    (hu : a.Unlinked) : (assemblePoolNumas p L (results, a)).2.Unlinked := by
  induction L generalizing results a with
  | nil => exact hu
  | cons e L ih =>
    obtain ⟨n, size⟩ := e
    rw [assemblePoolNumas_cons]
    exact ih _ (hi.placeFresh _ _ _) (hu.placeFresh hi.wf _ _ _ _)

/-- Without overlap, the pool phase places every block alone. -/
theorem assemblePools_unlinked (R : InternalCPUCalculationResult)
    (P : List (Σ _ : String, AList fun _ : Int => Int)) {a : Assembly} (hi : a.PoolPhaseInv)
    (hu : a.Unlinked) : (assemblePools K σ R P a).Unlinked := by
  induction P generalizing a with
  | nil => exact hu
  | cons e P ih =>
    obtain ⟨p, entries⟩ := e
    by_cases hp : p = K.poolNameReclaim ∧ R.allowSharedCoresOverlapReclaimedCores = true
    · rw [assemblePools_cons_of_skip K σ R entries P a hp]
      exact ih hi hu
    · rw [assemblePools_cons K σ R entries P a hp]
      obtain ⟨hi₁, -⟩ := assemblePoolNumas_inv p (σ.range (.poolNumas p) entries) ∅ hi
      exact ih (hi₁.withMap _) (assemblePoolNumas_unlinked p _ ∅ hi hu)

theorem assemblePoolEntries_of_not_overlap (R : InternalCPUCalculationResult)
    (hflag : R.allowSharedCoresOverlapReclaimedCores = false) (a : Assembly) :
    assemblePoolEntries K σ R a = assemblePools K σ R (σ.range .poolEntries R.poolEntries) a := by
  unfold assemblePoolEntries
  split <;> simp [hflag]

/-- What the pool phase leaves for the reclaim pool on each NUMA node `n`: a result exactly
where the reclaim pool has node `n`, holding blocks made for node `n`; all of them joined to
shared pools' blocks where the overlap phase joins them, and otherwise one standing alone. -/
def ReclaimLayout (R : InternalCPUCalculationResult) (a₀ : Assembly) : Prop :=
  ∀ n, (getNumaCalculationResult a₀.calculationEntriesMap K.poolNameReclaim K.fakedContainerName n
      = none ↔ n ∉ (R.poolEntries.lookup K.poolNameReclaim).getD ∅) ∧
    ∀ r, getNumaCalculationResult a₀.calculationEntriesMap K.poolNameReclaim
        K.fakedContainerName n = some r →
      (∀ b ∈ r.blocks, b < a₀.heap.length ∧ (a₀.cell b).numaID = n) ∧
      (reclaimOverlapped K R n → ∀ b ∈ r.blocks, (a₀.cell b).block.overlapTargets ≠ []) ∧
      (¬ reclaimOverlapped K R n → ∃ b, r.blocks = [b] ∧ (a₀.cell b).block.overlapTargets = [])

/-- A pool the reclaim pool may overlap has a block on the node after the pool phase. -/
theorem poolBlocks_ne_nil_of_overlapsPool (R : InternalCPUCalculationResult) {s : String}
    {n : Int} (hs : overlapsPool K R s n = true) :
    poolBlocks K (assemblePoolEntries K σ R .empty).calculationEntriesMap s n ≠ [] := by
  obtain ⟨-, -, hpools, -⟩ := assemblePoolEntries_spec K σ R
  simp only [overlapsPool, Bool.and_eq_true, decide_eq_true_eq] at hs
  obtain ⟨hsr, hany⟩ := hs
  cases he : R.poolEntries.lookup s with
  | none => simp [he] at hany
  | some entries =>
    simp only [he, Option.any_some, decide_eq_true_eq] at hany
    obtain ⟨results, hl, hr⟩ := hpools s entries he fun h => hsr h.1
    obtain ⟨size, hsize⟩ := Option.isSome_iff_exists.1 (AList.lookup_isSome.2 hany)
    obtain ⟨h, hh, -⟩ := hr.block n size hsize
    simp [poolBlocks_of_lookup K hl, hh]

theorem reclaimLayout_assemblePoolEntries (R : InternalCPUCalculationResult) :
    ReclaimLayout K R (assemblePoolEntries K σ R .empty) := by
  obtain ⟨-, hkeys, hpools, hreclaim⟩ := assemblePoolEntries_spec K σ R
  intro n
  cases he : R.poolEntries.lookup K.poolNameReclaim with
  | none =>
    have hnone : (assemblePoolEntries K σ R .empty).calculationEntriesMap.lookup
        K.poolNameReclaim = none :=
      AList.lookup_eq_none.2 fun h => by simpa [he] using AList.lookup_isSome.2 ((hkeys _).1 h)
    simp [getNumaCalculationResult, hnone]
  | some entries =>
    simp only [Option.getD_some]
    have hsize : ∀ {results : AList fun _ : Int => NumaCalculationResult} {r},
        (∀ n, n ∈ results ↔ n ∈ entries) → results.lookup n = some r →
        ∃ size, entries.lookup n = some size := fun hk hr =>
      Option.isSome_iff_exists.1
        (AList.lookup_isSome.2 ((hk n).1 (AList.lookup_isSome.1 (by simp [hr]))))
    cases hflag : R.allowSharedCoresOverlapReclaimedCores
    · -- without overlap the reclaim pool is an ordinary pool, and no block is joined
      obtain ⟨results, hl, hr⟩ := hpools _ entries he (by simp [hflag])
      have hu : (assemblePoolEntries K σ R .empty).Unlinked := by
        rw [assemblePoolEntries_of_not_overlap K σ R hflag]
        exact assemblePools_unlinked K σ R _ poolPhaseInv_empty fun h hh => by simp [empty] at hh
      have hnov : ¬ reclaimOverlapped K R n := by simp [reclaimOverlapped, hflag]
      rw [getNumaCalculationResult_of_lookup K hl, AList.lookup_eq_none, hr.keys]
      refine ⟨Iff.rfl, fun r hrn => ?_⟩
      obtain ⟨size, hn⟩ := hsize hr.keys hrn
      obtain ⟨h, hl', hb⟩ := hr.block n size hn
      rw [hrn, Option.some_inj] at hl'
      subst hl'
      exact ⟨by simp [hb.1, hb.2.2.2.1], fun h => absurd h hnov, fun _ => ⟨h, rfl, hu h hb.1⟩⟩
    · obtain ⟨results, hl, hk, hb⟩ := hreclaim entries he hflag
      rw [getNumaCalculationResult_of_lookup K hl, AList.lookup_eq_none, hk]
      refine ⟨Iff.rfl, fun r hrn => ?_⟩
      obtain ⟨size, hn⟩ := hsize hk hrn
      obtain ⟨r', hr', hrb⟩ := hb n size hn
      rw [hrn, Option.some_inj] at hr'
      subst hr'
      unfold ReclaimBlocks at hrb
      split_ifs at hrb with hlen
      · -- no overlap given on the node: one block standing alone
        obtain ⟨h, hh, hb'⟩ := hrb
        have hnov : ¬ reclaimOverlapped K R n := fun h => h.2.2 hlen
        refine ⟨by simp [hh, hb'.1.1, hb'.1.2.2.2.1], fun h => absurd h hnov,
          fun _ => ⟨h, hh, hb'.2⟩⟩
      · -- every block is joined to the block of a pool it may overlap
        obtain ⟨O, hO, hall⟩ := hrb
        have hblock : ∀ b ∈ r.blocks, ∃ e ∈ O, (assemblePoolEntries K σ R .empty).IsReclaimBlock K b
            n (uint64 e.2) (poolBlocks K (assemblePoolEntries K σ R .empty).calculationEntriesMap
              e.1 n) := fun b hb => exists_of_forall₂_of_mem hall hb
        refine ⟨fun b hb => ?_, fun _ b hb => ?_, fun hnov => (hnov ⟨hflag,
          AList.lookup_isSome.1 (by simp [he, hn]), hlen⟩).elim⟩
        · obtain ⟨e, -, hb'⟩ := hblock b hb
          exact ⟨hb'.1.1, hb'.1.2.2.2.1⟩
        · obtain ⟨e, he', hb'⟩ := hblock b hb
          have hov := List.of_mem_filter (hO.subset he')
          rw [hb'.2]
          exact poolBlocks_ne_nil_of_overlapsPool K σ R hov

theorem getCalculationInfo_of_pool {m : AList fun _ : String => CalculationEntries} {p : String}
    {results : AList fun _ : Int => NumaCalculationResult}
    (hl : m.lookup p = some (poolCalculationEntries K p results)) (c : String) :
    getCalculationInfo m p c = if c = K.fakedContainerName then some ⟨p, results⟩ else none := by
  split_ifs with hc
  · subst hc; simp [getCalculationInfo, hl, poolCalculationEntries, lookup_singleton_self]
  · simp [getCalculationInfo, hl, poolCalculationEntries, ← AList.insert_empty,
      AList.lookup_insert_ne hc, AList.lookup_empty]

/-- The pool a pool's entry names and the sizes of its blocks, after the pool phase. -/
theorem poolShape_assemblePoolEntries (R : InternalCPUCalculationResult) {p : String}
    (hp : p ∈ R.poolEntries) (c : String) (n : Int) :
    (getCalculationInfo (assemblePoolEntries K σ R .empty).calculationEntriesMap p c).map
        (·.ownerPoolName) = (if c = K.fakedContainerName then some p else none) ∧
    (getNumaCalculationResult (assemblePoolEntries K σ R .empty).calculationEntriesMap p c n).map
        (assemblePoolEntries K σ R .empty).resultSizes =
      (if c = K.fakedContainerName then poolSizes K R p n else none) := by
  obtain ⟨-, -, hpools, hreclaim⟩ := assemblePoolEntries_spec K σ R
  obtain ⟨entries, he⟩ := Option.isSome_iff_exists.1 (AList.lookup_isSome.2 hp)
  -- the results of the pool's entry, with the sizes `poolSizes` gives
  obtain ⟨results, hl, hsizes⟩ : ∃ results,
      (assemblePoolEntries K σ R .empty).calculationEntriesMap.lookup p =
        some (poolCalculationEntries K p results) ∧
      (results.lookup n).map (assemblePoolEntries K σ R .empty).resultSizes =
        poolSizes K R p n := by
    by_cases hskip : p = K.poolNameReclaim ∧ R.allowSharedCoresOverlapReclaimedCores = true
    · obtain ⟨hpr, hflag⟩ := hskip
      subst hpr
      obtain ⟨results, hl, hk, hb⟩ := hreclaim entries he hflag
      refine ⟨results, hl, ?_⟩
      cases hn : entries.lookup n with
      | none =>
        have : results.lookup n = none := by
          rw [AList.lookup_eq_none, hk, ← AList.lookup_eq_none, hn]
        simp [poolSizes, he, hn, this]
      | some size =>
        obtain ⟨r, hr, hrb⟩ := hb n size hn
        rw [hr]
        unfold ReclaimBlocks at hrb
        split_ifs at hrb with hlen
        · obtain ⟨h, hh, hb'⟩ := hrb
          have hnov : ¬ reclaimOverlapped K R n := fun h => h.2.2 hlen
          simp [poolSizes, he, hn, hnov, Assembly.resultSizes, hh, hb'.1.2.1]
        · obtain ⟨O, hO, hall⟩ := hrb
          have hov : reclaimOverlapped K R n :=
            ⟨hflag, AList.lookup_isSome.1 (by simp [he, hn]), hlen⟩
          simp only [poolSizes, he, hn, Option.some_bind, Option.map_some', hov, and_self,
            if_true, Assembly.resultSizes]
          rw [map_eq_map_of_forall₂ (g := fun e => uint64 e.2) (hall.imp fun h e hb => hb.1.2.1)]
          exact congrArg some (Multiset.coe_eq_coe.2 (hO.map _))
    · obtain ⟨results, hl, hr⟩ := hpools p entries he hskip
      refine ⟨results, hl, ?_⟩
      have hnov : ¬ (p = K.poolNameReclaim ∧ reclaimOverlapped K R n) := fun h =>
        hskip ⟨h.1, h.2.1⟩
      cases hn : entries.lookup n with
      | none =>
        have : results.lookup n = none := by
          rw [AList.lookup_eq_none, hr.keys, ← AList.lookup_eq_none, hn]
        simp [poolSizes, he, hn, this]
      | some size =>
        obtain ⟨h, hh, hb⟩ := hr.block n size hn
        simp only [poolSizes, he, hn, Option.some_bind, Option.map_some', if_neg hnov, hh,
          Assembly.resultSizes, List.map_cons, List.map_nil, hb.2.1]
        rfl
  rw [getNumaCalculationResult_eq_bind, getCalculationInfo_of_pool K hl]
  split_ifs <;> simp [hsizes]

/-! ## The container phase -/

namespace Assembly

variable (a₀ : Assembly)

/-- The state facts of the container phase, which starts where the pool phase leaves `a₀`:
the pass's invariant, `a₀`'s blocks as they grow, and ids from `a₀`'s counter on for the
blocks placed since. -/
structure PhaseState (a : Assembly) : Prop where
  wf : a.WellFormed
  handles : a.HandlesIn
  ext : a₀.Extends a
  nextId_le : a₀.nextId ≤ a.nextId
  containerIds : ∀ h, a₀.heap.length ≤ h → h < a.heap.length → a₀.nextId ≤ (a.cell h).block.blockId

variable {a₀} {a : Assembly}

theorem PhaseState.init (hw : a₀.WellFormed) (hh : a₀.HandlesIn) : a₀.PhaseState a₀ :=
  ⟨hw, hh, .refl a₀, le_rfl, fun _ h₁ h₂ => absurd h₂ (not_lt.2 h₁)⟩

/-- The block set resolves an id from `a₀`'s counter on to a block placed since `a₀`. -/
theorem PhaseState.le_of_lookup (hs : a₀.PhaseState a) (ha₀ : a₀.WellFormed) {id t : Nat}
    (hid : a₀.nextId ≤ id) (hl : a.blockSet.lookup id = some t) : a₀.heap.length ≤ t := by
  obtain ⟨-, htid⟩ := hs.wf.registered hl
  by_contra hlt
  have hold := ha₀.idLt t (not_le.1 hlt)
  rw [← (hs.ext.grows t (not_le.1 hlt)).blockId, htid] at hold
  exact absurd hid (not_le.2 hold)

theorem PhaseState.bumpId (hs : a₀.PhaseState a) :
    a₀.PhaseState { a with nextId := a.nextId + 1 } :=
  ⟨hs.wf.bumpId, hs.handles, hs.ext.trans extends_bumpId, Nat.le_succ_of_le hs.nextId_le,
    hs.containerIds⟩

theorem PhaseState.place (hs : a₀.PhaseState a) {b : Block} (n : Int) (p : String)
    (ci : Option ContainerInfo) {blockID : BlockId} (hb : b.overlapTargets = [])
    (hlt : b.blockId < a.nextId)
    (hnew : b.blockId = blockID ∨ ∀ h < a.heap.length, (a.cell h).block.blockId ≠ b.blockId)
    (hid : a₀.nextId ≤ b.blockId) : a₀.PhaseState (a.place b n p ci blockID).2 := by
  have hext := extends_place (a := a) b n p ci blockID
  refine ⟨hs.wf.place n p ci hb hlt hnew, hs.handles.mono (by simp) hext, hs.ext.trans hext,
    by simpa using hs.nextId_le, fun h h₁ h₂ => ?_⟩
  simp only [length_place] at h₂
  rcases Nat.lt_succ_iff_lt_or_eq.1 h₂ with h₂ | rfl
  · rw [(hext.grows h h₂).blockId]; exact hs.containerIds h h₁ h₂
  · rw [(grows_cell_place b n p ci blockID).blockId]; exact hid

theorem PhaseState.withMap (hs : a₀.PhaseState a) {m : AList fun _ : String => CalculationEntries}
    (hh : ({ a with calculationEntriesMap := m } : Assembly).HandlesIn) :
    a₀.PhaseState { a with calculationEntriesMap := m } :=
  ⟨hs.wf.withMap m, hh, hs.ext.trans (extends_withMap m), hs.nextId_le, hs.containerIds⟩

theorem PhaseState.placeFresh (hs : a₀.PhaseState a) (size : UInt64) (n : Int) (p : String)
    (ci : Option ContainerInfo) : a₀.PhaseState (a.placeFresh size n p ci).2 :=
  hs.bumpId.place n p ci rfl (Nat.lt_succ_self _) (.inl rfl) hs.nextId_le

/-- A block placed under an id the block set does not resolve to `h` leaves `h` alone. -/
theorem cell_place_of_ne (hw : a.WellFormed) (b : Block) (n : Int) (p : String)
    (ci : Option ContainerInfo) {blockID : BlockId} {h : Nat} (hh : h < a.heap.length)
    (hne : a.blockSet.lookup blockID ≠ some h) :
    (a.place b n p ci blockID).2.cell h = a.cell h := by
  rw [cell_place b n p ci blockID fun t ht => (hw.registered ht).1, if_neg hh.ne, if_neg hne]

/-- Blocks a state extends keep their sizes. -/
theorem Extends.resultSizes {a' : Assembly} (hext : a.Extends a') {r : NumaCalculationResult}
    (hr : ∀ h ∈ r.blocks, h < a.heap.length) : a'.resultSizes r = a.resultSizes r := by
  simp only [Assembly.resultSizes]
  exact congrArg _ (List.map_congr_left fun h hh => (hext.grows h (hr h hh)).result)

/-- A block with overlap targets keeps them in every state that extends. -/
theorem Extends.overlapTargets_ne_nil {a' : Assembly} (hext : a.Extends a') {b : Nat}
    (hb : b < a.heap.length) (h : (a.cell b).block.overlapTargets ≠ []) :
    (a'.cell b).block.overlapTargets ≠ [] := fun h' =>
  h (List.eq_nil_of_prefix_nil (h' ▸ (hext.grows b hb).targets))

end Assembly

section ContainerPhase

variable {K σ} {a₀ : Assembly}

/-- Copying a sibling's blocks placed in the container phase touches no block of `a₀`: each
copy is joined under the id of a block placed since. -/
theorem copySiblingBlocks_phase (ha₀ : a₀.WellFormed) (n : Int) (ci : ContainerInfo)
    (bs : List Nat) (r : NumaCalculationResult) {a : Assembly} (hs : a₀.PhaseState a)
    (hbs : ∀ s ∈ bs, a₀.heap.length ≤ s ∧ s < a.heap.length) :
    a₀.PhaseState (copySiblingBlocks n ci bs (r, a)).2 ∧
      ∀ h < a₀.heap.length, (copySiblingBlocks n ci bs (r, a)).2.cell h = a.cell h := by
  induction bs generalizing r a with
  | nil => exact ⟨hs, fun _ _ => rfl⟩
  | cons s bs ih =>
    obtain ⟨hs₀, hs₁⟩ := hbs s (List.mem_cons_self _ _)
    have hid := hs.containerIds s hs₀ hs₁
    rw [copySiblingBlocks_cons]
    have hext := extends_place (a := a) ⟨(a.cell s).block.result, [], (a.cell s).block.blockId⟩ n
      "" (some ci) (a.cell s).block.blockId
    obtain ⟨hs', hframe⟩ := ih _ (hs.place (b := ⟨(a.cell s).block.result, [],
        (a.cell s).block.blockId⟩) n "" (some ci) rfl (hs.wf.idLt s hs₁) (.inl rfl) hid)
      fun s' hs' => ⟨(hbs s' (List.mem_cons_of_mem _ hs')).1,
        lt_of_lt_of_le (hbs s' (List.mem_cons_of_mem _ hs')).2 hext.length_le⟩
    refine ⟨hs', fun h hh => (hframe h hh).trans (cell_place_of_ne hs.wf _ n "" (some ci)
      (lt_of_lt_of_le hh hs.ext.length_le) fun hl => ?_)⟩
    exact absurd (hs.le_of_lookup ha₀ hid hl) (not_le.2 hh)

/-- Claiming the reclaim blocks `bs` changes no other block. -/
theorem claimReclaimBlocks_phase (n : Int) (ci : ContainerInfo) (size : UInt64) (bs : List Nat)
    (r : NumaCalculationResult) {a : Assembly} (hs : a₀.PhaseState a)
    (hbs : ∀ b ∈ bs, b < a.heap.length) :
    a₀.PhaseState (claimReclaimBlocks n ci size bs (r, a)).2 ∧
      ∀ h < a.heap.length, (claimReclaimBlocks n ci size bs (r, a)).2.cell h ≠ a.cell h →
        h ∈ bs := by
  induction bs generalizing r a with
  | nil => exact ⟨hs, fun _ _ h => absurd rfl h⟩
  | cons b bs ih =>
    by_cases ht : (a.cell b).block.overlapTargets = []
    · rw [claimReclaimBlocks_cons_of_free n ci size bs r a ht]
      have hext := extends_bumpId.trans (extends_place (a := { a with nextId := a.nextId + 1 })
        ⟨size, [], a.nextId⟩ n "" (some ci) (a.cell b).block.blockId)
      obtain ⟨hs', hframe⟩ := ih _ (hs.bumpId.place (b := ⟨size, [], a.nextId⟩) n "" (some ci) rfl
          (Nat.lt_succ_self _)
          (.inr fun h hh => (hs.wf.idLt h hh).ne) hs.nextId_le)
        fun b' hb' => lt_of_lt_of_le (hbs b' (List.mem_cons_of_mem _ hb')) hext.length_le
      refine ⟨hs', fun h hh hne => ?_⟩
      by_cases hhb : h = b
      · exact hhb ▸ List.mem_cons_self _ _
      · -- the claim's join resolves to `b`, so no other block changes
        have hl := hs.wf.unlinked b (hbs b (List.mem_cons_self _ _)) ht
        have h₁ := cell_place_of_ne (a := { a with nextId := a.nextId + 1 }) hs.wf.bumpId
          ⟨size, [], a.nextId⟩ n "" (some ci) hh
          (show a.blockSet.lookup _ ≠ _ by rw [hl]; exact fun h' => hhb (Option.some_inj.1 h').symm)
        exact List.mem_cons_of_mem _ (hframe h (lt_of_lt_of_le hh hext.length_le) (h₁ ▸ hne))
    · rw [claimReclaimBlocks_cons_of_claimed n ci size bs r a ht]
      obtain ⟨hs', hframe⟩ := ih r hs fun b' hb' => hbs b' (List.mem_cons_of_mem _ hb')
      exact ⟨hs', fun h hh hne => List.mem_cons_of_mem _ (hframe h hh hne)⟩

/-- Reclaim blocks all joined already are not claimed. -/
theorem claimReclaimBlocks_of_claimed (n : Int) (ci : ContainerInfo) (size : UInt64)
    (bs : List Nat) (r : NumaCalculationResult) (a : Assembly)
    (hbs : ∀ b ∈ bs, (a.cell b).block.overlapTargets ≠ []) :
    claimReclaimBlocks n ci size bs (r, a) = (r, a) := by
  induction bs with
  | nil => rfl
  | cons b bs ih =>
    rw [claimReclaimBlocks_cons_of_claimed n ci size bs r a (hbs b (List.mem_cons_self _ _)),
      ih fun b' hb' => hbs b' (List.mem_cons_of_mem _ hb')]

/-- After the claims on a node, each of the blocks `bs` is joined: to a shared pool's block
or by an earlier claim, or else to the block this claim makes. -/
theorem claimReclaimBlocks_joins (n : Int) (ci : ContainerInfo) (size : UInt64) (bs : List Nat)
    (r : NumaCalculationResult) {a : Assembly} (hw : a.WellFormed)
    (hbs : ∀ b ∈ bs, b < a.heap.length) :
    ∀ b ∈ bs, ((claimReclaimBlocks n ci size bs (r, a)).2.cell b).block.overlapTargets ≠ [] := by
  induction bs generalizing r a with
  | nil => exact fun b hb => absurd hb (List.not_mem_nil b)
  | cons b bs ih =>
    have hb := hbs b (List.mem_cons_self _ _)
    -- the step at `b` leaves `b` joined
    suffices ∃ r₁ a₁, claimReclaimBlocks n ci size (b :: bs) (r, a) =
        claimReclaimBlocks n ci size bs (r₁, a₁) ∧ a₁.WellFormed ∧ a.Extends a₁ ∧
        (a₁.cell b).block.overlapTargets ≠ [] by
      obtain ⟨r₁, a₁, heq, hw₁, hext₁, hj⟩ := this
      rw [heq]
      intro b' hb'
      rcases List.mem_cons.1 hb' with rfl | hb'
      · exact (claimReclaimBlocks_spec n ci size bs r₁ hw₁).2.1.overlapTargets_ne_nil
          (lt_of_lt_of_le hb hext₁.length_le) hj
      · exact ih r₁ hw₁ (fun b'' h'' => lt_of_lt_of_le (hbs b'' (List.mem_cons_of_mem _ h''))
          hext₁.length_le) b' hb'
    by_cases ht : (a.cell b).block.overlapTargets = []
    · refine ⟨_, _, claimReclaimBlocks_cons_of_free n ci size bs r a ht,
        hw.bumpId.place n "" (some ci) rfl (Nat.lt_succ_self _)
          (.inr fun h hh => (hw.idLt h hh).ne),
        extends_bumpId.trans (extends_place _ _ _ _ _), ?_⟩
      rw [cell_place (a := { a with nextId := a.nextId + 1 }) _ _ _ _ _
        (fun t ht => (hw.bumpId.registered ht).1), if_neg hb.ne, if_pos (hw.unlinked b hb ht)]
      simp [InternalBlock.withTarget]
    · exact ⟨r, a, claimReclaimBlocks_cons_of_claimed n ci size bs r a ht, hw, .refl a, ht⟩

end ContainerPhase

section ContainerNumas

variable {K σ} {a₀ : Assembly} {R : InternalCPUCalculationResult}

/-- Blocks placed in the container phase before `a` keep their bounds and sizes later. -/
theorem Assembly.Extends.sized {a a' : Assembly} (hext : a.Extends a') {r : NumaCalculationResult}
    (hbs : ∀ h ∈ r.blocks, a₀.heap.length ≤ h ∧ h < a.heap.length) :
    (∀ h ∈ r.blocks, a₀.heap.length ≤ h ∧ h < a'.heap.length) ∧
      a'.resultSizes r = a.resultSizes r :=
  ⟨fun h hh => ⟨(hbs h hh).1, lt_of_lt_of_le (hbs h hh).2 hext.length_le⟩,
    hext.resultSizes fun h hh => (hbs h hh).2⟩

/-- The results of container `ci` of pod `u` in state `a`, when `cl n` is the pod that claims
the reclaim pool's block on node `n`: blocks placed in the container phase, on nodes whose
claimant is settled, of the sizes `containerSizes` gives. -/
def ResultsSized (K : Consts) (R : InternalCPUCalculationResult) (a₀ a : Assembly)
    (cl : Int → Option String) (u : String) (ci : ContainerInfo)
    (results : AList fun _ : Int => NumaCalculationResult) : Prop :=
  ∀ n r, results.lookup n = some r →
    (∀ h ∈ r.blocks, a₀.heap.length ≤ h ∧ h < a.heap.length) ∧ (cl n).isSome ∧
    ∀ cpuset, ci.topologyAwareAssignments.lookup n = some cpuset →
      a.resultSizes r = containerSizes K R (cl n) u cpuset n

theorem ResultsSized.mono {a a' : Assembly} {cl : Int → Option String} {u : String}
    {ci : ContainerInfo} {results : AList fun _ : Int => NumaCalculationResult}
    (h : ResultsSized K R a₀ a cl u ci results) (hext : a.Extends a') :
    ResultsSized K R a₀ a' cl u ci results := fun n r hr =>
  have hr' := hext.sized (h n r hr).1
  ⟨hr'.1, (h n r hr).2.1, fun c hc => hr'.2.trans ((h n r hr).2.2 c hc)⟩

/-- Claimants that agree on the settled nodes of the results size them alike. -/
theorem ResultsSized.congr {a : Assembly} {cl cl' : Int → Option String} {u : String}
    {ci : ContainerInfo} {results : AList fun _ : Int => NumaCalculationResult}
    (h : ResultsSized K R a₀ a cl u ci results)
    (hcl : ∀ n, n ∈ results → (cl n).isSome → cl' n = cl n) :
    ResultsSized K R a₀ a cl' u ci results := fun n r hr => by
  obtain ⟨hbs, hsome, hsz⟩ := h n r hr
  rw [hcl n (AList.lookup_isSome.1 (by simp [hr])) hsome]
  exact ⟨hbs, hsome, hsz⟩

/-- Every container of pod `u` assembled by state `a` has a result on node `n`, of blocks
placed in the container phase, of sizes `S`; and the pod has a container, if it has an
entry. -/
def SiblingsSized (a₀ a : Assembly) (u : String) (n : Int) (S : Multiset UInt64) : Prop :=
  ∀ podEntries, a.calculationEntriesMap.lookup u = some podEntries →
    (∃ c info, podEntries.entries.lookup c = some info) ∧
    ∀ c info, podEntries.entries.lookup c = some info →
      ∃ r, info.calculationResultsByNumas.lookup n = some r ∧
        (∀ h ∈ r.blocks, a₀.heap.length ≤ h ∧ h < a.heap.length) ∧ a.resultSizes r = S

theorem SiblingsSized.mono {a a' : Assembly} {u : String} {n : Int} {S : Multiset UInt64}
    (h : SiblingsSized a₀ a u n S) (hext : a.Extends a')
    (hmap : a'.calculationEntriesMap = a.calculationEntriesMap) :
    SiblingsSized a₀ a' u n S := fun podEntries hu => by
  obtain ⟨hne, hall⟩ := h podEntries (hmap ▸ hu)
  refine ⟨hne, fun c info hc => ?_⟩
  obtain ⟨r, hr, hbs, hsz⟩ := hall c info hc
  exact ⟨r, hr, (hext.sized hbs).1, (hext.sized hbs).2.trans hsz⟩

/-- A block of the reclaim pool's result on node `n` is a block of `a₀` made for node `n`. -/
theorem ReclaimLayout.cell_of_mem (hR : ReclaimLayout K R a₀) {n : Int} {b : Nat}
    (hb : b ∈ poolBlocks K a₀.calculationEntriesMap K.poolNameReclaim n) :
    b < a₀.heap.length ∧ (a₀.cell b).numaID = n := by
  unfold poolBlocks at hb
  cases hr : getNumaCalculationResult a₀.calculationEntriesMap K.poolNameReclaim
    K.fakedContainerName n with
  | none => simp [hr] at hb
  | some r =>
    rw [hr] at hb
    exact ((hR n).2 r hr).1 b hb

/-- The reclaim pool's blocks on node `n`, once joined in the container phase, stay joined. -/
theorem ReclaimLayout.joined_mono (hR : ReclaimLayout K R a₀) {a a' : Assembly}
    (hs : a₀.PhaseState a) (hext : a.Extends a') {n : Int}
    (h : ∀ b ∈ poolBlocks K a₀.calculationEntriesMap K.poolNameReclaim n,
      (a.cell b).block.overlapTargets ≠ []) :
    ∀ b ∈ poolBlocks K a₀.calculationEntriesMap K.poolNameReclaim n,
      (a'.cell b).block.overlapTargets ≠ [] := fun b hb =>
  hext.overlapTargets_ne_nil (lt_of_lt_of_le (hR.cell_of_mem hb).1 hs.ext.length_le) (h b hb)

/-- What one step of the NUMA loop, from `a` to `out`, does for a container on node `n`: the
blocks it gets are placed in the container phase, with sizes `S`; of the blocks of `a₀`
only the reclaim pool's on node `n`, where no overlap joins them, change; and those are all
joined afterwards. -/
structure NumaStep (K : Consts) (R : InternalCPUCalculationResult) (a₀ a : Assembly) (n : Int)
    (S : Multiset UInt64) (out : NumaCalculationResult × Assembly) : Prop where
  state : a₀.PhaseState out.2
  frame : ∀ h < a₀.heap.length, out.2.cell h ≠ a.cell h →
    h ∈ poolBlocks K a₀.calculationEntriesMap K.poolNameReclaim n ∧ ¬ reclaimOverlapped K R n
  blocks : ∀ h ∈ out.1.blocks, a.heap.length ≤ h ∧ h < out.2.heap.length
  sizes : out.2.resultSizes out.1 = S
  joined : ∀ b ∈ poolBlocks K a₀.calculationEntriesMap K.poolNameReclaim n,
    (out.2.cell b).block.overlapTargets ≠ []

/-- A sibling's result on the node, copied; the node was claimed before. -/
theorem numaStep_copySiblingBlocks (hR : ReclaimLayout K R a₀) (ha₀ : a₀.WellFormed) (n : Int)
    (ci : ContainerInfo) {a : Assembly} (hs : a₀.PhaseState a) {r : NumaCalculationResult}
    (hbs : ∀ h ∈ r.blocks, a₀.heap.length ≤ h ∧ h < a.heap.length)
    (hjoined : ∀ b ∈ poolBlocks K a₀.calculationEntriesMap K.poolNameReclaim n,
      (a.cell b).block.overlapTargets ≠ []) :
    NumaStep K R a₀ a n (a.resultSizes r) (copySiblingBlocks n ci r.blocks (⟨[]⟩, a)) := by
  obtain ⟨hs', hframe⟩ := copySiblingBlocks_phase ha₀ n ci r.blocks ⟨[]⟩ hs hbs
  obtain ⟨-, -, new, hnew, hlt, hview⟩ :=
    copySiblingBlocks_spec n ci r.blocks ⟨[]⟩ hs.wf fun b hb => (hbs b hb).2
  have hsizes : new.map (fun h => ((copySiblingBlocks n ci r.blocks (⟨[]⟩, a)).2.cell
      h).block.result) = r.blocks.map fun h => (a.cell h).block.result := by
    simpa [List.map_map, Function.comp_def, Assembly.blockView] using
      congrArg (List.map Prod.snd) hview
  refine ⟨hs', fun h hh hne => absurd (hframe h hh) hne, fun h hm => ?_, ?_,
    fun b hb => (hframe b (hR.cell_of_mem hb).1).symm ▸ hjoined b hb⟩
  · rw [hnew, List.nil_append] at hm
    exact hlt h hm
  · simp only [Assembly.resultSizes, hnew, List.nil_append, hsizes]

/-- No reclaim pool on the node: one fresh block. -/
theorem numaStep_placeFresh (ci : ContainerInfo) (cpuset : CPUSet) {a : Assembly}
    (hs : a₀.PhaseState a) {n : Int}
    (hnone : poolBlocks K a₀.calculationEntriesMap K.poolNameReclaim n = []) :
    NumaStep K R a₀ a n {UInt64.ofNat cpuset.card}
      (⟨[a.heap.length]⟩, (a.placeFresh (UInt64.ofNat cpuset.card) n "" (some ci)).2) := by
  have hlen := hs.ext.length_le
  refine ⟨hs.placeFresh _ _ _ _, fun h hh hne => absurd ?_ hne, by simp, ?_, by simp [hnone]⟩
  · rw [hs.wf.cell_placeFresh, if_neg (by omega)]
  · simp [Assembly.resultSizes, hs.wf.cell_placeFresh]

/-- The reclaim pool's blocks on the node: a container claims the one that stands alone
unless the node is `taken` already, and none where all are joined to shared pools' blocks;
until the node is taken they are as the pool phase left them. -/
theorem numaStep_claimReclaimBlocks (hR : ReclaimLayout K R a₀) (ci : ContainerInfo) (n : Int)
    (cpuset : CPUSet) {a : Assembly} (hs : a₀.PhaseState a) {reclaim : NumaCalculationResult}
    (hr : getNumaCalculationResult a₀.calculationEntriesMap K.poolNameReclaim
      K.fakedContainerName n = some reclaim) (taken : Prop) [Decidable taken]
    (hfree : ¬ taken → ∀ b ∈ reclaim.blocks, a.cell b = a₀.cell b)
    (htaken : taken → ∀ b ∈ reclaim.blocks, (a.cell b).block.overlapTargets ≠ []) :
    NumaStep K R a₀ a n
      (if reclaimOverlapped K R n ∨ taken then 0 else {UInt64.ofNat cpuset.card})
      (claimReclaimBlocks n ci (UInt64.ofNat cpuset.card) reclaim.blocks (⟨[]⟩, a)) := by
  obtain ⟨hlt₀, hov, hnov⟩ := (hR n).2 reclaim hr
  have hpb : poolBlocks K a₀.calculationEntriesMap K.poolNameReclaim n = reclaim.blocks := by
    simp [poolBlocks, hr]
  have hlt : ∀ b ∈ reclaim.blocks, b < a.heap.length := fun b hb =>
    lt_of_lt_of_le (hlt₀ b hb).1 hs.ext.length_le
  have hjoins := claimReclaimBlocks_joins n ci (UInt64.ofNat cpuset.card) reclaim.blocks ⟨[]⟩
    hs.wf hlt
  by_cases hc : reclaimOverlapped K R n ∨ taken
  · -- every reclaim block is joined already: to a shared pool's, or by an earlier claim
    have hjoined : ∀ b ∈ reclaim.blocks, (a.cell b).block.overlapTargets ≠ [] := by
      by_cases ht : taken
      · exact htaken ht
      · intro b hb
        rw [hfree ht b hb]
        exact hov (hc.resolve_right ht) b hb
    rw [if_pos hc]
    rw [claimReclaimBlocks_of_claimed n ci _ reclaim.blocks ⟨[]⟩ a hjoined] at hjoins ⊢
    exact ⟨hs, fun _ _ hne => absurd rfl hne, fun _ hm => by simp at hm,
      by simp [Assembly.resultSizes], fun b hb => hjoins b (hpb ▸ hb)⟩
  · -- the one reclaim block stands alone: the container claims it
    obtain ⟨hovl, ht⟩ := not_or.1 hc
    obtain ⟨b, hbl, hbt⟩ := hnov hovl
    have hb' : (a.cell b).block.overlapTargets = [] := by
      rw [hfree ht b (by simp [hbl])]; exact hbt
    obtain ⟨hs', hframe⟩ := claimReclaimBlocks_phase n ci (UInt64.ofNat cpuset.card)
      reclaim.blocks ⟨[]⟩ hs hlt
    rw [if_neg hc]
    refine ⟨hs', fun h hh hne =>
      ⟨hpb ▸ hframe h (lt_of_lt_of_le hh hs.ext.length_le) hne, hovl⟩, ?_, ?_,
      fun b hb => hjoins b (hpb ▸ hb)⟩ <;>
      rw [hbl, claimReclaimBlocks_cons_of_free n ci _ [] ⟨[]⟩ a hb']
    · simp [claimReclaimBlocks]
    · simp [claimReclaimBlocks, Assembly.resultSizes, (grows_cell_place _ _ _ _ _).result]

/-- One NUMA node `n` of a dedicated NUMA-bound container of pod `u` that holds `cpuset`
there, when `cl` is the pod that has claimed the node's reclaim block by state `a`, if one
has.  The pod's containers assembled before have results of the container's sizes on the
node (`hsib`), and then the node is claimed (`hentry`); a pod claims only once it has an
entry (`hother`); the node's reclaim blocks are as the pool phase left them until the node is
claimed (`hfree`), and joined from then on (`hjoined`). -/
theorem assembleContainerNuma_phase (hR : ReclaimLayout K R a₀) (ha₀ : a₀.WellFormed)
    (u : String) (ci : ContainerInfo) (n : Int) (cpuset : CPUSet) {a : Assembly}
    (hs : a₀.PhaseState a)
    (hreclaim : getNumaCalculationResult a.calculationEntriesMap K.poolNameReclaim
        K.fakedContainerName n =
      getNumaCalculationResult a₀.calculationEntriesMap K.poolNameReclaim K.fakedContainerName n)
    (cl : Option String) (hsib : SiblingsSized a₀ a u n (containerSizes K R cl u cpuset n))
    (hentry : a.calculationEntriesMap.lookup u ≠ none → cl.isSome)
    (hother : a.calculationEntriesMap.lookup u = none → cl ≠ some u)
    (hfree : cl = none →
      ∀ b ∈ poolBlocks K a₀.calculationEntriesMap K.poolNameReclaim n, a.cell b = a₀.cell b)
    (hjoined : cl.isSome → ∀ b ∈ poolBlocks K a₀.calculationEntriesMap K.poolNameReclaim n,
      (a.cell b).block.overlapTargets ≠ []) :
    NumaStep K R a₀ a n (containerSizes K R (cl.or (some u)) u cpuset n)
      (assembleContainerNuma K σ u ci n cpuset a) := by
  cases hu : a.calculationEntriesMap.lookup u with
  | some podEntries =>
    obtain ⟨v, rfl⟩ := Option.isSome_iff_exists.1 (hentry (by simp [hu]))
    obtain ⟨⟨c₀, info₀, h₀⟩, hall⟩ := hsib podEntries hu
    cases hsr : siblingResult σ podEntries u ci.containerName n with
    | none =>
      obtain ⟨r, hr, -⟩ := hall c₀ info₀ h₀
      simp [siblingResult_eq_none σ hsr h₀] at hr
    | some result =>
      rw [assembleContainerNuma_of_sibling K σ u ci n cpuset hu hsr]
      obtain ⟨c', info', hc', hn'⟩ := siblingResult_mem hsr
      obtain ⟨r, hr, hbs, hsize⟩ := hall c' info' hc'
      rw [hn', Option.some_inj] at hr
      subst hr
      rw [Option.or_some, ← hsize]
      exact numaStep_copySiblingBlocks hR ha₀ n ci hs hbs (hjoined rfl)
  | none =>
    -- the pod has no entry yet: its container claims the node unless another pod has
    have hcl : cl.or (some u) ≠ some u ↔ cl.isSome := by
      cases cl with
      | none => simp
      | some v => simpa using hother hu
    cases hr : getNumaCalculationResult a.calculationEntriesMap K.poolNameReclaim
      K.fakedContainerName n with
    | none =>
      rw [assembleContainerNuma_of_no_reclaim K σ u ci n cpuset hu hr]
      rw [hreclaim] at hr
      have hn := (hR n).1.1 hr
      rw [show containerSizes K R (cl.or (some u)) u cpuset n = {UInt64.ofNat cpuset.card} by
        simp [containerSizes, reclaimOverlapped, hn]]
      exact numaStep_placeFresh ci cpuset hs (by simp [poolBlocks, hr])
    | some reclaim =>
      rw [assembleContainerNuma_of_reclaim K σ u ci n cpuset hu hr]
      rw [hreclaim] at hr
      have hn : n ∈ (R.poolEntries.lookup K.poolNameReclaim).getD ∅ := by
        by_contra h
        simp [(hR n).1.2 h] at hr
      have hpb : poolBlocks K a₀.calculationEntriesMap K.poolNameReclaim n = reclaim.blocks := by
        simp [poolBlocks, hr]
      rw [show containerSizes K R (cl.or (some u)) u cpuset n =
          if reclaimOverlapped K R n ∨ cl.isSome then 0 else {UInt64.ofNat cpuset.card} by
        simp only [containerSizes, hn, true_and, hcl]]
      exact numaStep_claimReclaimBlocks hR ci n cpuset hs hr _
        (fun h b hb => hfree (by simpa using h) b (hpb ▸ hb)) fun h b hb => hjoined h b (hpb ▸ hb)

variable (K σ) in
theorem mem_assembleContainerNumas (u : String) (ci : ContainerInfo)
    (L : List (Σ _ : Int, CPUSet)) (results : AList fun _ : Int => NumaCalculationResult)
    (a : Assembly) (n : Int) :
    n ∈ (assembleContainerNumas K σ u ci L (results, a)).1 ↔ n ∈ results ∨ n ∈ L.keys := by
  induction L generalizing results a with
  | nil => simp [assembleContainerNumas]
  | cons e L ih =>
    refine (ih _ _).trans ?_
    simp only [AList.mem_insert, List.keys_cons, List.mem_cons]
    tauto

/-- The NUMA loop of a dedicated NUMA-bound container of pod `u` over nodes `L` of its
assignment, from the state `a` of the container's step, at state `a'` with `results` so far,
when `cl n` is the pod that has claimed node `n` by state `a`, if one has: every result holds
blocks placed in the container phase, of the sizes `containerSizes` gives with the node's
claimant, or `u` if there was none; of the blocks of `a₀` only reclaim blocks on nodes of
the assignment change; and the reclaim blocks of the nodes visited end up joined. -/
theorem assembleContainerNumas_phase (hR : ReclaimLayout K R a₀) (ha₀ : a₀.WellFormed)
    (u : String) (ci : ContainerInfo) {a : Assembly}
    (hreclaim : ∀ n, getNumaCalculationResult a.calculationEntriesMap K.poolNameReclaim
        K.fakedContainerName n =
      getNumaCalculationResult a₀.calculationEntriesMap K.poolNameReclaim K.fakedContainerName n)
    (cl : Int → Option String)
    (hsib : ∀ n cpuset, ci.topologyAwareAssignments.lookup n = some cpuset →
      SiblingsSized a₀ a u n (containerSizes K R (cl n) u cpuset n))
    (L : List (Σ _ : Int, CPUSet)) (hL : L.NodupKeys)
    (hLa : ∀ e ∈ L, ci.topologyAwareAssignments.lookup e.1 = some e.2)
    (hentry : a.calculationEntriesMap.lookup u ≠ none → ∀ n ∈ L.keys, (cl n).isSome)
    (hother : a.calculationEntriesMap.lookup u = none → ∀ n ∈ L.keys, cl n ≠ some u)
    (hfree : ∀ n ∈ L.keys, cl n = none →
      ∀ b ∈ poolBlocks K a₀.calculationEntriesMap K.poolNameReclaim n, a.cell b = a₀.cell b)
    (hjoined : ∀ n ∈ L.keys, (cl n).isSome →
      ∀ b ∈ poolBlocks K a₀.calculationEntriesMap K.poolNameReclaim n,
        (a.cell b).block.overlapTargets ≠ [])
    (results : AList fun _ : Int => NumaCalculationResult) {a' : Assembly}
    (hs : a₀.PhaseState a') (hext : a.Extends a')
    (hmap : a'.calculationEntriesMap = a.calculationEntriesMap)
    (hframe : ∀ h < a₀.heap.length, a'.cell h ≠ a.cell h →
      ∃ n, h ∈ poolBlocks K a₀.calculationEntriesMap K.poolNameReclaim n ∧
        ¬ reclaimOverlapped K R n ∧ n ∈ ci.topologyAwareAssignments ∧ n ∉ L.keys)
    (hres : ResultsSized K R a₀ a' (fun n => (cl n).or (some u)) u ci results) :
    a₀.PhaseState (assembleContainerNumas K σ u ci L (results, a')).2 ∧
    a'.Extends (assembleContainerNumas K σ u ci L (results, a')).2 ∧
    (∀ h < a₀.heap.length, (assembleContainerNumas K σ u ci L (results, a')).2.cell h ≠ a.cell h →
      ∃ n, h ∈ poolBlocks K a₀.calculationEntriesMap K.poolNameReclaim n ∧
        ¬ reclaimOverlapped K R n ∧ n ∈ ci.topologyAwareAssignments) ∧
    ResultsSized K R a₀ (assembleContainerNumas K σ u ci L (results, a')).2
      (fun n => (cl n).or (some u)) u ci (assembleContainerNumas K σ u ci L (results, a')).1 ∧
    ∀ n ∈ L.keys, ∀ b ∈ poolBlocks K a₀.calculationEntriesMap K.poolNameReclaim n,
      ((assembleContainerNumas K σ u ci L (results, a')).2.cell b).block.overlapTargets ≠ [] := by
  induction L generalizing results a' with
  | nil =>
    exact ⟨hs, .refl a', fun h hh hne => (hframe h hh hne).imp fun _ hn => ⟨hn.1, hn.2.1, hn.2.2.1⟩,
      hres, fun n hn => absurd hn (List.not_mem_nil n)⟩
  | cons e L ih =>
    obtain ⟨n, cpuset⟩ := e
    rw [List.nodupKeys_cons] at hL
    have hn := hLa ⟨n, cpuset⟩ (List.mem_cons_self _ _)
    have hnL : n ∈ (⟨n, cpuset⟩ :: L).keys := List.mem_cons_self _ _
    have htail : ∀ {n'}, n' ∈ L.keys → n' ∈ (⟨n, cpuset⟩ :: L).keys := List.mem_cons_of_mem _
    -- the node's reclaim blocks are as the loop found them
    have hcell : ∀ b ∈ poolBlocks K a₀.calculationEntriesMap K.poolNameReclaim n,
        a'.cell b = a.cell b := fun b hb => by
      by_contra hne
      obtain ⟨n', hb', -, -, hn'⟩ := hframe b (hR.cell_of_mem hb).1 hne
      rw [← (hR.cell_of_mem hb').2, (hR.cell_of_mem hb).2] at hn'
      exact hn' hnL
    have hstep := assembleContainerNuma_phase (σ := σ) hR ha₀ u ci n cpuset hs
      (by rw [hmap]; exact hreclaim n) (cl n) ((hsib n cpuset hn).mono hext hmap)
      (fun hu => hentry (hmap ▸ hu) n hnL) (fun hu => hother (hmap ▸ hu) n hnL)
      (fun hnone b hb => (hcell b hb).trans (hfree n hnL hnone b hb))
      fun hsome b hb => (hcell b hb).symm ▸ hjoined n hnL hsome b hb
    obtain ⟨-, hext₁, hmap₁, -⟩ := assembleContainerNuma_spec K σ u ci n cpuset hs.wf hs.handles
    have hframe₁ : ∀ h < a₀.heap.length, (assembleContainerNuma K σ u ci n cpuset a').2.cell h ≠
        a.cell h → ∃ n', h ∈ poolBlocks K a₀.calculationEntriesMap K.poolNameReclaim n' ∧
          ¬ reclaimOverlapped K R n' ∧ n' ∈ ci.topologyAwareAssignments ∧ n' ∉ L.keys := by
      intro h hh hne
      by_cases hne' : a'.cell h = a.cell h
      · -- changed by this node's step
        obtain ⟨hb, hov⟩ := hstep.frame h hh (hne'.symm ▸ hne)
        exact ⟨n, hb, hov, AList.lookup_isSome.1 (by simp [hn]), hL.1⟩
      · obtain ⟨n', hb', hov, hna, hn'⟩ := hframe h hh hne'
        exact ⟨n', hb', hov, hna, fun h' => hn' (htail h')⟩
    have hres₁ : ResultsSized K R a₀ (assembleContainerNuma K σ u ci n cpuset a').2
        (fun n => (cl n).or (some u)) u ci (results.insert n
          (assembleContainerNuma K σ u ci n cpuset a').1) := by
      intro n' r hr
      by_cases hnn : n' = n
      · subst hnn
        rw [AList.lookup_insert, Option.some_inj] at hr
        subst hr
        refine ⟨fun h hm => ⟨le_trans hs.ext.length_le (hstep.blocks h hm).1,
          (hstep.blocks h hm).2⟩, by dsimp only; cases cl n' <;> rfl, fun cpuset' hc => ?_⟩
        rw [hn, Option.some_inj] at hc
        exact hc ▸ hstep.sizes
      · rw [AList.lookup_insert_ne hnn] at hr
        exact hres.mono hext₁ n' r hr
    obtain ⟨hs', hext', hframe', hres', hjoined'⟩ := ih hL.2
      (fun e he => hLa e (List.mem_cons_of_mem _ he))
      (fun hu n' hn' => hentry hu n' (htail hn')) (fun hu n' hn' => hother hu n' (htail hn'))
      (fun n' hn' => hfree n' (htail hn')) (fun n' hn' => hjoined n' (htail hn'))
      _ hstep.state (hext.trans hext₁) (hmap₁.trans hmap) hframe₁ hres₁
    refine ⟨hs', hext₁.trans hext', hframe', hres', fun n' hn' => ?_⟩
    rw [List.keys_cons, List.mem_cons] at hn'
    rcases hn' with rfl | hn'
    · exact hR.joined_mono hstep.state hext' hstep.joined
    · exact hjoined' n' hn'

end ContainerNumas

/-! ## The container loop -/

section ContainerLoop

variable {K σ} {R : InternalCPUCalculationResult} {mc : MetaCache} {a₀ : Assembly}
  {P : List (Σ _ : String × String, ContainerInfo)}

/-- The results of a sub-entry of container `ci` of pod `u` in state `a`, when `cl n` is the
pod that claims node `n`: one on each node of a dedicated NUMA-bound container's assignment
and none elsewhere, sized as `ResultsSized` says. -/
def ResultsOK (K : Consts) (R : InternalCPUCalculationResult) (a₀ a : Assembly)
    (cl : Int → Option String) (u : String) (ci : ContainerInfo)
    (results : AList fun _ : Int => NumaCalculationResult) : Prop :=
  (∀ n, n ∈ results ↔ ci.isDedicatedNumaBinding K = true ∧ n ∈ ci.topologyAwareAssignments) ∧
  ResultsSized K R a₀ a cl u ci results

theorem ResultsOK.mono {a a' : Assembly} {cl : Int → Option String} {u : String}
    {ci : ContainerInfo} {results : AList fun _ : Int => NumaCalculationResult}
    (h : ResultsOK K R a₀ a cl u ci results) (hext : a.Extends a') :
    ResultsOK K R a₀ a' cl u ci results :=
  ⟨h.1, h.2.mono hext⟩

/-- The invariant of the container loop, which starts where the pool phase leaves `a₀` and
has visited the containers `P`: pools' entries stay as the pool phase made them, every pod
entry holds sub-entries of cached containers with the results `ResultsOK` describes under
the claimants of `P`, a block of `a₀` changes only on a node that has a claimant, and a
node's claimant has an entry and has joined the node's reclaim blocks. -/
structure ContainerPhaseInv (K : Consts) (R : InternalCPUCalculationResult) (mc : MetaCache)
    (a₀ : Assembly) (P : List (Σ _ : String × String, ContainerInfo)) (a : Assembly) : Prop where
  state : a₀.PhaseState a
  reclaim : a.calculationEntriesMap.lookup K.poolNameReclaim =
    a₀.calculationEntriesMap.lookup K.poolNameReclaim
  pools : ∀ p ∈ R.poolEntries, a.calculationEntriesMap.lookup p = a₀.calculationEntriesMap.lookup p
  keys : KeysWithin R mc a.calculationEntriesMap
  podEntries : ∀ u ∈ a.calculationEntriesMap, u ∉ R.poolEntries →
    ∃ c info, getCalculationInfo a.calculationEntriesMap u c = some info
  pods : ∀ u c info, u ∉ R.poolEntries →
    getCalculationInfo a.calculationEntriesMap u c = some info →
    ∃ ci, mc.getContainerInfo u c = some ci ∧
      ResultsOK K R a₀ a (claimant K R P) u ci info.calculationResultsByNumas
  claimed : ∀ h < a₀.heap.length, a.cell h ≠ a₀.cell h →
    ∃ n, h ∈ poolBlocks K a₀.calculationEntriesMap K.poolNameReclaim n ∧
      ¬ reclaimOverlapped K R n ∧ (claimant K R P n).isSome
  filed : ∀ n v, claimant K R P n = some v → v ∈ a.calculationEntriesMap
  joined : ∀ n, (claimant K R P n).isSome →
    ∀ b ∈ poolBlocks K a₀.calculationEntriesMap K.poolNameReclaim n,
      (a.cell b).block.overlapTargets ≠ []

theorem containerPhaseInv_init (hw : a₀.WellFormed) (hh : a₀.HandlesIn)
    (hkeys : ∀ p, p ∈ a₀.calculationEntriesMap ↔ p ∈ R.poolEntries) :
    ContainerPhaseInv K R mc a₀ [] a₀ :=
  ⟨.init hw hh, rfl, fun _ _ => rfl,
    ⟨fun p hp => (hkeys p).2 hp, fun p hp => .inl ((hkeys p).1 hp)⟩,
    fun u hu hp => absurd ((hkeys u).1 hu) hp,
    fun u c info hp h => absurd ((hkeys u).1 (AList.lookup_isSome.1 (by
      cases hl : a₀.calculationEntriesMap.lookup u <;> simp_all [getCalculationInfo]))) hp,
    fun _ _ hne => absurd rfl hne, fun _ _ h => by simp [claimant] at h,
    fun _ h => by simp [claimant] at h⟩

/-- A sub-entry of the pod of `ci`, one of its dedicated NUMA-bound containers, has a result
on each node of the assignment of `ci`, sized for `ci`, and the node has a claimant: the
pod's containers share its assignment. -/
theorem ContainerPhaseInv.sibling (hunif : PodsUniform mc) {a : Assembly}
    (hi : ContainerPhaseInv K R mc a₀ P a) {u c : String} {ci : ContainerInfo}
    (hx : ⟨(u, c), ci⟩ ∈ mc.podEntries.entries) (hu : u ∉ R.poolEntries)
    (hd : ci.isDedicatedNumaBinding K = true) {n : Int} {cpuset : CPUSet}
    (hn : ci.topologyAwareAssignments.lookup n = some cpuset) {c' : String}
    {info : CalculationInfo} (hc' : getCalculationInfo a.calculationEntriesMap u c' = some info) :
    ∃ r, info.calculationResultsByNumas.lookup n = some r ∧
      (∀ h ∈ r.blocks, a₀.heap.length ≤ h ∧ h < a.heap.length) ∧ (claimant K R P n).isSome ∧
      a.resultSizes r = containerSizes K R (claimant K R P n) u cpuset n := by
  obtain ⟨ci', hci', hok⟩ := hi.pods u c' info hu hc'
  obtain ⟨hq, hb, ha⟩ : ci.qoSLevel = ci'.qoSLevel ∧ ci.numaBinding = ci'.numaBinding ∧
      ci.topologyAwareAssignments = ci'.topologyAwareAssignments :=
    hunif _ hx _ (AList.mem_lookup_iff.1 hci') rfl
  have hd' : ci'.isDedicatedNumaBinding K = true := by
    rw [← hd]; simp only [ContainerInfo.isDedicatedNumaBinding, hq, hb]
  have hn' : ci'.topologyAwareAssignments.lookup n = some cpuset := ha ▸ hn
  obtain ⟨r, hr⟩ := Option.isSome_iff_exists.1 (AList.lookup_isSome.2
    ((hok.1 n).2 ⟨hd', AList.lookup_isSome.1 (by simp [hn'])⟩))
  obtain ⟨hbs, hsome, hsz⟩ := hok.2 n r hr
  exact ⟨r, hr, hbs, hsome, hsz cpuset hn'⟩

theorem ContainerPhaseInv.siblingsSized (hunif : PodsUniform mc) {a : Assembly}
    (hi : ContainerPhaseInv K R mc a₀ P a) {u c : String} {ci : ContainerInfo}
    (hx : ⟨(u, c), ci⟩ ∈ mc.podEntries.entries) (hu : u ∉ R.poolEntries)
    (hd : ci.isDedicatedNumaBinding K = true) {n : Int} {cpuset : CPUSet}
    (hn : ci.topologyAwareAssignments.lookup n = some cpuset) :
    SiblingsSized a₀ a u n (containerSizes K R (claimant K R P n) u cpuset n) := by
  intro podEntries hpe
  obtain ⟨c₀, info₀, h₀⟩ := hi.podEntries u (AList.lookup_isSome.1 (by simp [hpe])) hu
  refine ⟨⟨c₀, info₀, by simpa [getCalculationInfo, hpe] using h₀⟩, fun c' info hc' => ?_⟩
  obtain ⟨r, hr, hbs, -, hsz⟩ :=
    hi.sibling hunif hx hu hd hn
      (show getCalculationInfo a.calculationEntriesMap u c' = some info by
        simp [getCalculationInfo, hpe, hc'])
  exact ⟨r, hr, hbs, hsz⟩

/-- A pod with an entry has a claimant on each node of its containers' assignment. -/
theorem ContainerPhaseInv.claimant_isSome (hunif : PodsUniform mc) {a : Assembly}
    (hi : ContainerPhaseInv K R mc a₀ P a) {u c : String} {ci : ContainerInfo}
    (hx : ⟨(u, c), ci⟩ ∈ mc.podEntries.entries) (hu : u ∉ R.poolEntries)
    (hd : ci.isDedicatedNumaBinding K = true) (hpe : a.calculationEntriesMap.lookup u ≠ none)
    {n : Int} (hn : n ∈ ci.topologyAwareAssignments) : (claimant K R P n).isSome := by
  obtain ⟨c₀, info₀, h₀⟩ :=
    hi.podEntries u (AList.lookup_isSome.1 (Option.isSome_iff_ne_none.2 hpe)) hu
  obtain ⟨cpuset, hcs⟩ := Option.isSome_iff_exists.1 (AList.lookup_isSome.2 hn)
  obtain ⟨-, -, -, hsome, -⟩ := hi.sibling hunif hx hu hd hcs h₀
  exact hsome

/-- The reclaim pool's blocks on a node with no claimant are as the pool phase left them. -/
theorem ContainerPhaseInv.cell_reclaim (hR : ReclaimLayout K R a₀) {a : Assembly}
    (hi : ContainerPhaseInv K R mc a₀ P a) {n : Int} (hcl : claimant K R P n = none) {b : Nat}
    (hb : b ∈ poolBlocks K a₀.calculationEntriesMap K.poolNameReclaim n) :
    a.cell b = a₀.cell b := by
  by_contra hne
  obtain ⟨n', hb', -, hsome⟩ := hi.claimed b (hR.cell_of_mem hb).1 hne
  have hnn : n' = n := (hR.cell_of_mem hb').2.symm.trans (hR.cell_of_mem hb).2
  subst hnn
  simp [hcl] at hsome

variable (hR : ReclaimLayout K R a₀) (ha₀ : a₀.WellFormed) (hpods : PodUIDsNotPools K R mc)
  (hunif : PodsUniform mc) (hpub : PublishedPoolsNotPods K mc)
include hR ha₀ hpods hunif

variable (σ) in
/-- The NUMA loop of a cached container the advisor's pools do not skip, in the container
loop once it has visited `P`: its results are those `ResultsOK` describes with the container
visited too; of the blocks of `a₀` only reclaim blocks on nodes of its assignment change,
where no overlap joins them; and those nodes' reclaim blocks end up joined. -/
theorem containerResults_phase {a : Assembly} (hi : ContainerPhaseInv K R mc a₀ P a)
    {u c : String} {ci : ContainerInfo} (hx : ⟨(u, c), ci⟩ ∈ mc.podEntries.entries)
    (hns : ¬ skippedAgainstPools K R ci) :
    a₀.PhaseState (containerResults K σ a u ci).2 ∧ a.Extends (containerResults K σ a u ci).2 ∧
    (∀ h < a₀.heap.length, (containerResults K σ a u ci).2.cell h ≠ a.cell h →
      ∃ n, h ∈ poolBlocks K a₀.calculationEntriesMap K.poolNameReclaim n ∧
        ¬ reclaimOverlapped K R n ∧ ci.isDedicatedNumaBinding K = true ∧
        n ∈ ci.topologyAwareAssignments) ∧
    ResultsOK K R a₀ (containerResults K σ a u ci).2 (claimant K R (P ++ [⟨(u, c), ci⟩])) u ci
      (containerResults K σ a u ci).1 ∧
    (ci.isDedicatedNumaBinding K = true → ∀ n ∈ ci.topologyAwareAssignments,
      ∀ b ∈ poolBlocks K a₀.calculationEntriesMap K.poolNameReclaim n,
        ((containerResults K σ a u ci).2.cell b).block.overlapTargets ≠ []) := by
  unfold containerResults
  split_ifs with hd
  · have hu : u ∉ R.poolEntries := (hpods _ (List.mem_keys_of_mem hx)).1
    have hkeys : ∀ n, n ∈ (σ.range (.containerNumas u ci.containerName)
        ci.topologyAwareAssignments).keys ↔ n ∈ ci.topologyAwareAssignments := fun n => by
      rw [← List.dlookup_isSome, Schedule.dlookup_range, AList.lookup_isSome]
    have hmem : ∀ n, n ∈ (assembleContainerNumas K σ u ci (σ.range (.containerNumas u
        ci.containerName) ci.topologyAwareAssignments) (∅, a)).1 ↔
        n ∈ ci.topologyAwareAssignments := fun n => by
      rw [mem_assembleContainerNumas, hkeys]
      simp
    obtain ⟨hs', hext', hframe', hres', hjoined'⟩ := assembleContainerNumas_phase hR ha₀ u ci
      (fun n => by simp only [getNumaCalculationResult, hi.reclaim]) (claimant K R P)
      (fun n cpuset hn => hi.siblingsSized hunif hx hu hd hn)
      _ (σ.nodupKeys_range _ _) (fun e he => AList.mem_lookup_iff.2 (Schedule.mem_range.1 he))
      (fun hpe n hn => hi.claimant_isSome hunif hx hu hd hpe ((hkeys n).1 hn))
      (fun hpe n _ h => AList.lookup_eq_none.1 hpe (hi.filed n u h))
      (fun n _ hnone b hb => hi.cell_reclaim hR hnone hb) (fun n _ hsome => hi.joined n hsome)
      ∅ hi.state (.refl a) rfl (fun _ _ hne => absurd rfl hne) (fun n r hr => by simp at hr)
    refine ⟨hs', hext', fun h hh hne => ?_, ⟨fun n => by rw [hmem]; simp [hd], ?_⟩,
      fun _ n hn => hjoined' n ((hkeys n).2 hn)⟩
    · obtain ⟨n, hb, hov, hn⟩ := hframe' h hh hne
      exact ⟨n, hb, hov, hd, hn⟩
    · -- the container contends for every node of its assignment
      refine hres'.congr fun n hn _ => ?_
      rw [claimant_append_singleton,
        if_pos ((contends_eq_true K R _ _).2 ⟨hd, hns, (hmem n).1 hn⟩)]
  · exact ⟨hi.state, .refl a, fun _ _ hne => absurd rfl hne,
      ⟨fun n => by simp [hd], fun n r hr => by simp at hr⟩, fun h => absurd h hd⟩

include hpub

/-- One step of the container loop keeps the invariant, with the container visited. -/
theorem containerPhaseInv_assemblePodEntries {a : Assembly} (hi : ContainerPhaseInv K R mc a₀ P a)
    {u c : String} {ci : ContainerInfo} (hx : ⟨(u, c), ci⟩ ∈ mc.podEntries.entries) :
    ContainerPhaseInv K R mc a₀ (P ++ [⟨(u, c), ci⟩]) (assemblePodEntries K σ a u ci) := by
  have hiff := skipsContainer_iff K hi.keys (hpub _ hx)
  by_cases hskip : skipsContainer K a.calculationEntriesMap ci
  · -- a skipped container contends for no node
    have hcl : claimant K R (P ++ [⟨(u, c), ci⟩]) = claimant K R P := funext fun n => by
      rw [claimant_append_singleton, if_neg fun h => ((contends_eq_true K R _ _).1 h).2.1
        (hiff.1 hskip), Option.or_none]
    rw [assemblePodEntries_of_skip K σ hskip]
    exact ⟨hi.state, hi.reclaim, hi.pools, hi.keys, hi.podEntries, hcl ▸ hi.pods,
      hcl ▸ hi.claimed, hcl ▸ hi.filed, hcl ▸ hi.joined⟩
  have hns : ¬ skippedAgainstPools K R ci := mt hiff.2 hskip
  have hc : ci.containerName = c := (MetaCache.filed_of_mem hx).2
  have hu : u ∉ R.poolEntries ∧ u ≠ K.poolNameReclaim := hpods _ (List.mem_keys_of_mem hx)
  obtain ⟨hs₁, -, hframe₁, hok₁, hjoined₁⟩ :=
    containerResults_phase σ hR ha₀ hpods hunif hi hx hns
  obtain ⟨-, hext, hh⟩ := assemblePodEntries_spec K σ u ci hi.state.wf hi.state.handles
  have heq := assemblePodEntries_of_not_skip K σ (u := u) hskip
  have hheap : (assemblePodEntries K σ a u ci).heap = (containerResults K σ a u ci).2.heap := by
    rw [heq]
  have hcell : ∀ h,
      (assemblePodEntries K σ a u ci).cell h = (containerResults K σ a u ci).2.cell h :=
    fun h => by simp only [Assembly.cell, hheap]
  have hlookup : ∀ p, p ≠ u → (assemblePodEntries K σ a u ci).calculationEntriesMap.lookup p =
      a.calculationEntriesMap.lookup p := fun p hp => by
    rw [heq]
    exact AList.lookup_insert_ne hp
  have hmem : u ∈ (assemblePodEntries K σ a u ci).calculationEntriesMap :=
    (mem_assemblePodEntries a u ci u).2 (.inr ⟨rfl, hskip⟩)
  -- a node the container contends for gets it as claimant, if it had none
  have hnew : ∀ n, claimant K R (P ++ [⟨(u, c), ci⟩]) n =
      (claimant K R P n).or (if ci.isDedicatedNumaBinding K = true ∧
        n ∈ ci.topologyAwareAssignments then some u else none) := fun n => by
    rw [claimant_append_singleton]
    simp only [contends_eq_true, hns, not_false_eq_true, true_and]
  refine ⟨by rw [heq] at hh ⊢; exact hs₁.withMap hh,
    (hlookup _ (Ne.symm hu.2)).trans hi.reclaim,
    fun p hp => (hlookup p fun h => hu.1 (h ▸ hp)).trans (hi.pools p hp),
    keysWithin_assemblePodEntries K σ hi.keys (List.mem_keys_of_mem hx) ci,
    fun p hp hpn => ?_, fun p c' info hpn h => ?_, fun h hh hne => ?_, fun n v h => ?_,
    fun n hsome => ?_⟩
  · -- podEntries
    rcases (mem_assemblePodEntries a u ci p).1 hp with hp | ⟨rfl, -⟩
    · obtain ⟨c', info, h⟩ := hi.podEntries p hp hpn
      refine ⟨c', ?_⟩
      rw [getCalculationInfo_assemblePodEntries]
      split_ifs
      exacts [⟨_, rfl⟩, ⟨info, h⟩]
    · exact ⟨ci.containerName, _, by
        rw [getCalculationInfo_assemblePodEntries, if_pos ⟨rfl, rfl, hskip⟩]⟩
  · -- pods: the new sub-entry, and the older ones, whose nodes keep their claimants
    rw [getCalculationInfo_assemblePodEntries] at h
    split_ifs at h with hcond
    · obtain ⟨rfl, rfl, -⟩ := hcond
      cases h
      exact ⟨ci, AList.mem_lookup_iff.2 (hc ▸ hx), hok₁.mono (extends_of_heap_eq hheap)⟩
    · obtain ⟨ci', hci', hok⟩ := hi.pods p c' info hpn h
      exact ⟨ci', hci', hok.1,
        (hok.2.mono hext).congr fun n _ hsome => claimant_append_of_isSome K R hsome _⟩
  · -- claimed
    by_cases hold : a.cell h = a₀.cell h
    · obtain ⟨n, hb, hov, hd, hn⟩ := hframe₁ h hh (by rw [← hcell, hold]; exact hne)
      refine ⟨n, hb, hov, ?_⟩
      rw [hnew, if_pos ⟨hd, hn⟩]
      cases claimant K R P n <;> rfl
    · obtain ⟨n, hb, hov, hsome⟩ := hi.claimed h hh hold
      exact ⟨n, hb, hov, by rw [claimant_append_of_isSome K R hsome]; exact hsome⟩
  · -- filed
    rw [hnew] at h
    cases hP : claimant K R P n with
    | some v' =>
      rw [hP, Option.or_some] at h
      exact (mem_assemblePodEntries a u ci _).2 (.inl (hi.filed n _ (hP.trans h)))
    | none =>
      rw [hP, Option.none_or] at h
      split_ifs at h
      exact Option.some_inj.1 h ▸ hmem
  · -- joined
    cases hP : claimant K R P n with
    | some v => exact hR.joined_mono hi.state hext (hi.joined n (by simp [hP]))
    | none =>
      rw [hnew, hP, Option.none_or] at hsome
      split_ifs at hsome with hcont
      · intro b hb
        rw [hcell]
        exact hjoined₁ hcont.1 n hcont.2 b hb
      · simp at hsome

/-- The container loop over cached containers keeps the invariant, with each visited. -/
theorem containerPhaseInv_assembleContainers (L : List (Σ _ : String × String, ContainerInfo))
    (hL : ∀ x ∈ L, x ∈ mc.podEntries.entries) {a : Assembly}
    (hi : ContainerPhaseInv K R mc a₀ P a) :
    ContainerPhaseInv K R mc a₀ (P ++ L) (assembleContainers K σ L a) := by
  induction L generalizing P a with
  | nil => rwa [List.append_nil]
  | cons x L ih =>
    obtain ⟨⟨u, c⟩, ci⟩ := x
    rw [List.append_cons]
    exact ih (fun y hy => hL y (List.mem_cons_of_mem _ hy))
      (containerPhaseInv_assemblePodEntries hR ha₀ hpods hunif hpub hi
        (hL _ (List.mem_cons_self _ _)))

end ContainerLoop

/-! ## The response -/

section Response

variable {R : InternalCPUCalculationResult} {mc : MetaCache}
  {P : List (Σ _ : String × String, ContainerInfo)}

variable {K σ} in
/-- A pool's entry in a state of the container loop is as the pool phase left it. -/
theorem ContainerPhaseInv.poolShape {a : Assembly}
    (hi : ContainerPhaseInv K R mc (assemblePoolEntries K σ R .empty) P a) {e : String}
    (he : e ∈ R.poolEntries) (c : String) (n : Int) :
    (getCalculationInfo a.calculationEntriesMap e c).map (·.ownerPoolName) =
      (if c = K.fakedContainerName then some e else none) ∧
    (getNumaCalculationResult a.calculationEntriesMap e c n).map a.resultSizes =
      (if c = K.fakedContainerName then poolSizes K R e n else none) := by
  have hinfo : getCalculationInfo a.calculationEntriesMap e c =
      getCalculationInfo (assemblePoolEntries K σ R .empty).calculationEntriesMap e c := by
    simp only [getCalculationInfo, hi.pools e he]
  obtain ⟨ho, hsz⟩ := poolShape_assemblePoolEntries K σ R he c n
  refine ⟨by rw [hinfo, ho], ?_⟩
  rw [getNumaCalculationResult_eq_bind, hinfo, ← getNumaCalculationResult_eq_bind, ← hsz]
  cases hr : getNumaCalculationResult (assemblePoolEntries K σ R .empty).calculationEntriesMap
    e c n with
  | none => rfl
  | some r => exact congrArg some (hi.state.ext.resultSizes fun h hm =>
      (assemblePoolEntries_pools K σ R).2 e c n r hr h hm)

variable {K} in
/-- The sizes of the results of a cached container's sub-entry in a state of the container
loop, once it has visited `P`: a dedicated NUMA-bound container's on the nodes of its
assignment, under the claimants of `P`, and none else. -/
theorem ContainerPhaseInv.containerShape {a₀ a : Assembly} (hi : ContainerPhaseInv K R mc a₀ P a)
    {e c : String} (he : e ∉ R.poolEntries) {ci : ContainerInfo}
    (hci : mc.getContainerInfo e c = some ci) {info : CalculationInfo}
    (hinfo : getCalculationInfo a.calculationEntriesMap e c = some info) (n : Int) :
    (info.calculationResultsByNumas.lookup n).map a.resultSizes =
      if ci.isDedicatedNumaBinding K = false then none
      else (ci.topologyAwareAssignments.lookup n).map
        (containerSizes K R (claimant K R P n) e · n) := by
  obtain ⟨ci', hci', hok⟩ := hi.pods e c info he hinfo
  rw [hci, Option.some_inj] at hci'
  subst hci'
  by_cases hd : ci.isDedicatedNumaBinding K = true
  · rw [if_neg (by simp [hd])]
    cases hn : ci.topologyAwareAssignments.lookup n with
    | none =>
      have : info.calculationResultsByNumas.lookup n = none :=
        AList.lookup_eq_none.2 fun h => by
          simpa [← AList.lookup_isSome, hn] using ((hok.1 n).1 h).2
      simp [this]
    | some cpuset =>
      obtain ⟨r, hr⟩ := Option.isSome_iff_exists.1 (AList.lookup_isSome.2
        ((hok.1 n).2 ⟨hd, AList.lookup_isSome.1 (by simp [hn])⟩))
      simp [hr, (hok.2 n r hr).2.2 cpuset hn]
  · rw [if_pos (by simpa using hd)]
    have : info.calculationResultsByNumas.lookup n = none :=
      AList.lookup_eq_none.2 fun h => hd ((hok.1 n).1 h).1
    simp [this]

/-- The container loop's invariant holds of the whole pass, which visits the cached
containers in the order `σ` ranges over the cache. -/
theorem assembleBlocks_containerPhaseInv (hpods : PodUIDsNotPools K R mc)
    (hpub : PublishedPoolsNotPods K mc) (hunif : PodsUniform mc) :
    ContainerPhaseInv K R mc (assemblePoolEntries K σ R .empty)
      (σ.range .containers mc.podEntries) (assembleBlocks K σ R mc) := by
  obtain ⟨hi₀, hkeys, -, -⟩ := assemblePoolEntries_spec K σ R
  exact containerPhaseInv_assembleContainers (reclaimLayout_assemblePoolEntries K σ R) hi₀.wf
    hpods hunif hpub _ (fun x hx => Schedule.mem_range.1 hx)
    (containerPhaseInv_init hi₀.wf (assemblePoolEntries_pools K σ R).2 hkeys)

/-- What the response says, from the cache, the advisor's result, and the pod that claims
each node's reclaim block in the order `σ` ranges over the cache: the pool each sub-entry
names, and the sizes of the blocks of each of its results. -/
theorem assembleResponse_shape (hs : HeadroomSource) (hpods : PodUIDsNotPools K R mc)
    (hpub : PublishedPoolsNotPods K mc) (hunif : PodsUniform mc) (e c : String) (n : Int) :
    (getCalculationInfo (assembleResponse K σ R mc hs).entries e c).map (·.ownerPoolName) =
      expectedOwner K R mc e c ∧
    (getNumaCalculationResult (assembleResponse K σ R mc hs).entries e c n).map
      (assembleResponse K σ R mc hs).resultSizes =
      expectedSizes K R mc (claimant K R (σ.range .containers mc.podEntries)) e c n := by
  have hi := assembleBlocks_containerPhaseInv K σ hpods hpub hunif
  rw [entries_assembleResponse, resultSizes_assembleResponse]
  by_cases he : e ∈ R.poolEntries
  · simpa only [expectedOwner, expectedSizes, if_pos he] using hi.poolShape he c n
  simp only [expectedOwner, expectedSizes, if_neg he]
  cases hci : mc.getContainerInfo e c with
  | none =>
    -- an entry of the map that is not a pool's is a cached container's
    have hnone : getCalculationInfo (assembleBlocks K σ R mc).calculationEntriesMap e c = none := by
      cases h : getCalculationInfo (assembleBlocks K σ R mc).calculationEntriesMap e c with
      | none => rfl
      | some info =>
        obtain ⟨ci, hci', -⟩ := hi.pods e c info he h
        simp [hci] at hci'
    simp [getNumaCalculationResult_eq_bind, hnone]
  | some ci =>
    -- the pool the sub-entry names, from the container loop's filing
    obtain ⟨-, hkeys, -, -⟩ := assemblePoolEntries_spec K σ R
    have hnone : getCalculationInfo (assemblePoolEntries K σ R .empty).calculationEntriesMap e c
        = none := by
      simp [getCalculationInfo, AList.lookup_eq_none.2 fun h => he ((hkeys e).1 h)]
    have hfile := (assembleContainers_files K σ (σ.range .containers mc.podEntries)
      (fun x hx => Schedule.mem_range.1 hx)
      (σ.nodupKeys_range _ _) (fun x hx => hpub x (Schedule.mem_range.1 hx))
      ⟨fun p hp => (hkeys p).2 hp, fun p hp => .inl ((hkeys p).1 hp)⟩).2 ⟨(e, c), ci⟩
      (Schedule.mem_range.2 (AList.mem_lookup_iff.1 hci)) hnone
    rw [← assembleBlocks] at hfile
    dsimp only at hfile
    simp only [Option.some_bind]
    refine ⟨hfile, ?_⟩
    cases hinfo : getCalculationInfo (assembleBlocks K σ R mc).calculationEntriesMap e c with
    | none =>
      rw [hinfo, Option.map_none'] at hfile
      split_ifs at hfile with hskip
      simp [getNumaCalculationResult_eq_bind, hinfo, show skippedAgainstPools K R ci from hskip]
    | some info =>
      have hskip : ¬ skippedAgainstPools K R ci := fun h => by
        rw [hinfo, Option.map_some', if_pos (show (_ ∨ _) ∧ (_ ∨ _) from h)] at hfile
        cases hfile
      rw [getNumaCalculationResult_eq_bind, hinfo, Option.some_bind,
        hi.containerShape he hci hinfo n]
      simp [hskip]

end Response

/-! ## Fixtures -/

/-- Caches of `dedicatedContainer`s only are uniform: those all have one QoS level, NUMA
binding and assignment. -/
theorem podsUniform_of_dedicated {mc : MetaCache}
    (h : ∀ x ∈ mc.podEntries.entries, ∃ u c, x.2 = dedicatedContainer u c) : PodsUniform mc := by
  intro x hx y hy _
  obtain ⟨u, c, hx'⟩ := h x hx
  obtain ⟨u', c', hy'⟩ := h y hy
  rw [hx', hy']
  exact ⟨rfl, rfl, rfl⟩

theorem podsUniform_twoDedicatedPods : PodsUniform twoDedicatedPods :=
  podsUniform_of_dedicated fun x hx => by
    have hl : twoDedicatedPods.podEntries.entries = [⟨("podB", "main"), dedicatedContainer "podB"
        "main"⟩, ⟨("podA", "main"), dedicatedContainer "podA" "main"⟩] := rfl
    rw [hl, List.mem_pair] at hx
    rcases hx with rfl | rfl <;> exact ⟨_, _, rfl⟩

/-- The two dedicated pods that contend for NUMA node 0: visited in the cache's own order,
"podB" claims the node, and the container of "podA" gets the sizes `expectedSizes` gives
with that claimant. -/
theorem assembleResponse_shape_twoDedicatedPods :
    PodUIDsNotPools katalystConsts reclaimOnNuma0 twoDedicatedPods ∧
    PublishedPoolsNotPods katalystConsts twoDedicatedPods ∧ PodsUniform twoDedicatedPods ∧
    claimant katalystConsts reclaimOnNuma0
      (Schedule.listOrder.range .containers twoDedicatedPods.podEntries) 0 = some "podB" ∧
    (getNumaCalculationResult (assembleResponse katalystConsts Schedule.listOrder reclaimOnNuma0
      twoDedicatedPods noHeadroom).entries "podA" "main" 0).map
        (assembleResponse katalystConsts Schedule.listOrder reclaimOnNuma0 twoDedicatedPods
          noHeadroom).resultSizes =
      expectedSizes katalystConsts reclaimOnNuma0 twoDedicatedPods
        (claimant katalystConsts reclaimOnNuma0
          (Schedule.listOrder.range .containers twoDedicatedPods.podEntries)) "podA" "main" 0 :=
  ⟨by decide, by decide, podsUniform_twoDedicatedPods, by decide,
    (assembleResponse_shape katalystConsts Schedule.listOrder noHeadroom (by decide) (by decide)
      podsUniform_twoDedicatedPods "podA" "main" 0).2⟩

/-- In one order, the container of "podB" claims the reclaim pool's block on NUMA node 0 and
the container of "podA" gets none; in the other order it is the other way round. -/
theorem assembleResponse_claim_race_order :
    (∀ k ∈ twoDedicatedPods.podEntries.keys, k.1 ∉ reclaimOnNuma0.poolEntries) ∧
    PodsUniform twoDedicatedPods ∧
    (getNumaCalculationResult (assembleResponse katalystConsts Schedule.listOrder reclaimOnNuma0
      twoDedicatedPods noHeadroom).entries "podA" "main" 0).map
        (assembleResponse katalystConsts Schedule.listOrder reclaimOnNuma0 twoDedicatedPods
          noHeadroom).resultSizes = some 0 ∧
    (getNumaCalculationResult (assembleResponse katalystConsts Schedule.reverseOrder
      reclaimOnNuma0 twoDedicatedPods noHeadroom).entries "podA" "main" 0).map
        (assembleResponse katalystConsts Schedule.reverseOrder reclaimOnNuma0 twoDedicatedPods
          noHeadroom).resultSizes = some {2} :=
  ⟨by decide, podsUniform_twoDedicatedPods, by decide, by decide⟩

end CpuServer

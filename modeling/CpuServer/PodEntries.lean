import CpuServer.PoolEntries

/-!
# Pod entries (`assemblePodEntries`) and the container loop

`cpuServer.assemblePodEntries` (`cpu_server.go` lines 466-564), called by `assembleResponse`
for every container of the cache through `RangeContainer` (lines 226-233).  A container
publishes an owner pool (its isolation region, or its origin pool when isolation is locked
out); a shared- or reclaimed-cores container whose pool is empty or has no entry is
skipped.  A dedicated NUMA-bound container gets blocks on each NUMA node of its assignment:
copies of a sibling's blocks when an earlier container of its pod has an entry, otherwise
a fresh block, standing alone when the reclaim pool has no result on that node, or joined
under each reclaim block there that no block has joined yet.

Every `range` of the source is a loop over the list the schedule gives; the scan over a
pod's sibling entries stops at the first entry with a result on the NUMA node.  Every
return of `assemblePodEntries` is `nil`, so it is modelled as a state change; a skipped
container leaves the state as it was.
-/

set_option autoImplicit false

namespace CpuServer

variable (K : Consts) (σ : Schedule)

/-- The `OwnerPoolName` that `assemblePodEntries` publishes for a container (lines 471-484):
the single isolation region of an isolated container when it is not the owner pool; the
origin owner pool of a container that is not isolated when it is not the owner pool;
otherwise the owner pool. -/
def publishedOwnerPoolName (ci : ContainerInfo) : String :=
  let ownerPoolName :=
    if ci.isolated then
      match ci.regionNames.sort (· ≤ ·) with
      | [region] => if ci.ownerPoolName ≠ region then region else ci.ownerPoolName
      | _ => ci.ownerPoolName
    else ci.ownerPoolName
  if ci.isolated = false ∧ ci.ownerPoolName ≠ ci.originOwnerPoolName then ci.originOwnerPoolName
  else ownerPoolName

/-- The result on `numaID` of the first sibling entry the scan of lines 514-524 visits that
has one. -/
def siblingResult (podEntries : CalculationEntries) (podUID containerName : String)
    (numaID : Int) : Option NumaCalculationResult :=
  (σ.range (.siblings podUID containerName numaID) podEntries.entries).findSome?
    fun e => e.2.calculationResultsByNumas.lookup numaID

/-- Lines 516-521: for each of a sibling's blocks, a block of the same size and id, joined
under that id. -/
def copySiblingBlocks (numaID : Int) (ci : ContainerInfo) :
    List Nat → NumaCalculationResult × Assembly → NumaCalculationResult × Assembly
  | [], st => st
  | b :: rest, (r, a) =>
    let block := (a.cell b).block
    let (newBlock, a) := a.newBlock block.result (some block.blockId)
    let (h, a) := a.place newBlock numaID "" (some ci) block.blockId
    copySiblingBlocks numaID ci rest (⟨r.blocks ++ [h]⟩, a)

/-- Lines 533-543: for each block of the reclaim pool on the node that has no overlap target
yet, a fresh block of the container's size, joined under it. -/
def claimReclaimBlocks (numaID : Int) (ci : ContainerInfo) (size : UInt64) :
    List Nat → NumaCalculationResult × Assembly → NumaCalculationResult × Assembly
  | [], st => st
  | b :: rest, (r, a) =>
    if (a.cell b).block.overlapTargets.length = 0 then
      let (newBlock, a) := a.newBlock size none
      let (h, a) := a.place newBlock numaID "" (some ci) (a.cell b).block.blockId
      claimReclaimBlocks numaID ci size rest (⟨r.blocks ++ [h]⟩, a)
    else claimReclaimBlocks numaID ci size rest (r, a)

/-- The blocks of a dedicated NUMA-bound container on one NUMA node (lines 510-546). -/
def assembleContainerNuma (podUID : String) (ci : ContainerInfo) (numaID : Int)
    (cpuset : CPUSet) (a : Assembly) : NumaCalculationResult × Assembly :=
  match a.calculationEntriesMap.lookup podUID with
  | some podEntries =>
    match siblingResult σ podEntries podUID ci.containerName numaID with
    | some result => copySiblingBlocks numaID ci result.blocks (⟨[]⟩, a)
    | none => (⟨[]⟩, a)
  | none =>
    match getNumaCalculationResult a.calculationEntriesMap K.poolNameReclaim
        K.fakedContainerName numaID with
    | none =>
      let (h, a) := a.placeFresh (UInt64.ofNat cpuset.card) numaID "" (some ci)
      (⟨[h]⟩, a)
    | some reclaim =>
      claimReclaimBlocks numaID ci (UInt64.ofNat cpuset.card) reclaim.blocks (⟨[]⟩, a)

/-- The NUMA loop of a dedicated NUMA-bound container (lines 507-549). -/
def assembleContainerNumas (podUID : String) (ci : ContainerInfo) :
    List (Σ _ : Int, CPUSet) → (AList fun _ : Int => NumaCalculationResult) × Assembly →
      (AList fun _ : Int => NumaCalculationResult) × Assembly
  | [], st => st
  | ⟨numaID, cpuset⟩ :: rest, (results, a) =>
    let (r, a) := assembleContainerNuma K σ podUID ci numaID cpuset a
    assembleContainerNumas podUID ci rest (results.insert numaID r, a)

/-- Lines 486-495: a shared- or reclaimed-cores container is skipped when the pool it
publishes is empty or has no entry in the map. -/
def skipsContainer (m : AList fun _ : String => CalculationEntries) (ci : ContainerInfo) : Prop :=
  (ci.qoSLevel = K.podAnnotationQoSLevelSharedCores ∨
    ci.qoSLevel = K.podAnnotationQoSLevelReclaimedCores) ∧
  (publishedOwnerPoolName ci = "" ∨ publishedOwnerPoolName ci ∉ m)

instance (m : AList fun _ : String => CalculationEntries) (ci : ContainerInfo) :
    Decidable (skipsContainer K m ci) :=
  inferInstanceAs (Decidable (_ ∧ _))

/-- The NUMA loop of `assemblePodEntries` (lines 498-551): the results of a dedicated
NUMA-bound container and the state after them; no result for any other container. -/
def containerResults (a : Assembly) (podUID : String) (ci : ContainerInfo) :
    (AList fun _ : Int => NumaCalculationResult) × Assembly :=
  if ci.isDedicatedNumaBinding K then
    assembleContainerNumas K σ podUID ci
      (σ.range (.containerNumas podUID ci.containerName) ci.topologyAwareAssignments) (∅, a)
  else (∅, a)

/-- `cpuServer.assemblePodEntries`. -/
def assemblePodEntries (a : Assembly) (podUID : String) (ci : ContainerInfo) : Assembly :=
  if skipsContainer K a.calculationEntriesMap ci then a
  else
    let (results, a) := containerResults K σ a podUID ci
    let calculationEntries := (a.calculationEntriesMap.lookup podUID).getD ⟨∅⟩
    let calculationInfo : CalculationInfo := ⟨publishedOwnerPoolName ci, results⟩
    let podEntry : CalculationEntries :=
      ⟨calculationEntries.entries.insert ci.containerName calculationInfo⟩
    { a with calculationEntriesMap := a.calculationEntriesMap.insert podUID podEntry }

/-- `RangeContainer` with `assemblePodEntries` (lines 226-233), over the cache's containers
in the order the schedule gives. -/
def assembleContainers : List (Σ _ : String × String, ContainerInfo) → Assembly → Assembly
  | [], a => a
  | ⟨(podUID, _), ci⟩ :: rest, a => assembleContainers rest (assemblePodEntries K σ a podUID ci)

/-! ## What the container phase does to the heap and the map

Every step of the container phase places blocks (`Assembly.place`) and keeps the pass's
invariant; the map changes only when `assemblePodEntries` files a container's entry. -/

namespace Assembly

/-- Every block a result of the map holds is a block of the heap. -/
def HandlesIn (a : Assembly) : Prop :=
  ∀ e c n r, getNumaCalculationResult a.calculationEntriesMap e c n = some r →
    ∀ h ∈ r.blocks, h < a.heap.length

theorem HandlesIn.mono {a a' : Assembly} (hh : a.HandlesIn)
    (hmap : a'.calculationEntriesMap = a.calculationEntriesMap) (hext : a.Extends a') :
    a'.HandlesIn := fun e c n r hr h hm =>
  lt_of_lt_of_le (hh e c n r (hmap ▸ hr) h hm) hext.length_le

/-- The id and the size of the block behind a handle. -/
def blockView (a : Assembly) (h : Nat) : BlockId × UInt64 :=
  ((a.cell h).block.blockId, (a.cell h).block.result)

theorem Extends.blockView {a a' : Assembly} (hext : a.Extends a') {h : Nat}
    (hh : h < a.heap.length) : a'.blockView h = a.blockView h := by
  simp only [Assembly.blockView, (hext.grows h hh).blockId, (hext.grows h hh).result]

end Assembly

open Assembly

section Steps

variable {K σ}

theorem copySiblingBlocks_cons (n : Int) (ci : ContainerInfo) (b : Nat) (bs : List Nat)
    (r : NumaCalculationResult) (a : Assembly) :
    copySiblingBlocks n ci (b :: bs) (r, a) =
      copySiblingBlocks n ci bs (⟨r.blocks ++ [a.heap.length]⟩,
        (a.place ⟨(a.cell b).block.result, [], (a.cell b).block.blockId⟩ n "" (some ci)
          (a.cell b).block.blockId).2) := rfl

@[simp] theorem calculationEntriesMap_copySiblingBlocks (n : Int) (ci : ContainerInfo)
    (bs : List Nat) (r : NumaCalculationResult) (a : Assembly) :
    (copySiblingBlocks n ci bs (r, a)).2.calculationEntriesMap = a.calculationEntriesMap := by
  induction bs generalizing r a with
  | nil => rfl
  | cons b bs ih => rw [copySiblingBlocks_cons, ih]; simp

/-- The copies of a sibling's blocks carry, in order, the ids and sizes of the originals. -/
theorem copySiblingBlocks_spec (n : Int) (ci : ContainerInfo) (bs : List Nat)
    (r : NumaCalculationResult) {a : Assembly} (hw : a.WellFormed)
    (hbs : ∀ b ∈ bs, b < a.heap.length) :
    (copySiblingBlocks n ci bs (r, a)).2.WellFormed ∧
      a.Extends (copySiblingBlocks n ci bs (r, a)).2 ∧
      ∃ new, (copySiblingBlocks n ci bs (r, a)).1.blocks = r.blocks ++ new ∧
        (∀ h ∈ new, a.heap.length ≤ h ∧ h < (copySiblingBlocks n ci bs (r, a)).2.heap.length) ∧
        new.map (copySiblingBlocks n ci bs (r, a)).2.blockView = bs.map a.blockView := by
  induction bs generalizing r a with
  | nil => exact ⟨hw, .refl a, [], by simp [copySiblingBlocks], by simp, rfl⟩
  | cons b bs ih =>
    have hb := hbs b (List.mem_cons_self _ _)
    rw [copySiblingBlocks_cons]
    set a₁ := (a.place ⟨(a.cell b).block.result, [], (a.cell b).block.blockId⟩ n "" (some ci)
      (a.cell b).block.blockId).2 with ha₁
    have hw₁ : a₁.WellFormed := hw.place n "" (some ci) rfl (hw.idLt b hb) (.inl rfl)
    have hext₁ : a.Extends a₁ := extends_place _ _ _ _ _
    have hlen₁ : a₁.heap.length = a.heap.length + 1 := by simp [a₁]
    obtain ⟨hw', hext', new, hnew, hlt, hview⟩ := ih ⟨r.blocks ++ [a.heap.length]⟩ hw₁
      fun b' hb' => by have := hbs b' (List.mem_cons_of_mem _ hb'); omega
    refine ⟨hw', hext₁.trans hext', a.heap.length :: new, by simp [hnew], ?_, ?_⟩
    · intro h hh
      rcases List.mem_cons.1 hh with rfl | hh
      · exact ⟨le_rfl, lt_of_lt_of_le (by omega) hext'.length_le⟩
      · have := hlt h hh; omega
    · have hcopy : a₁.blockView a.heap.length = a.blockView b := by
        have hg := grows_cell_place (a := a) ⟨(a.cell b).block.result, [], (a.cell b).block.blockId⟩
          n "" (some ci) (a.cell b).block.blockId
        simp only [blockView, ← ha₁, hg.blockId, hg.result]
      rw [List.map_cons, List.map_cons, hview, hext'.blockView (by omega), hcopy]
      congr 1
      exact List.map_congr_left fun b' hb' => hext₁.blockView (hbs b' (List.mem_cons_of_mem _ hb'))

theorem claimReclaimBlocks_cons_of_free (n : Int) (ci : ContainerInfo) (size : UInt64) {b : Nat}
    (bs : List Nat) (r : NumaCalculationResult) (a : Assembly)
    (hb : (a.cell b).block.overlapTargets = []) :
    claimReclaimBlocks n ci size (b :: bs) (r, a) =
      claimReclaimBlocks n ci size bs (⟨r.blocks ++ [a.heap.length]⟩,
        (({ a with nextId := a.nextId + 1 } : Assembly).place ⟨size, [], a.nextId⟩ n "" (some ci)
          (a.cell b).block.blockId).2) := by
  rw [claimReclaimBlocks, if_pos (by simp [hb])]
  rfl

theorem claimReclaimBlocks_cons_of_claimed (n : Int) (ci : ContainerInfo) (size : UInt64)
    {b : Nat} (bs : List Nat) (r : NumaCalculationResult) (a : Assembly)
    (hb : (a.cell b).block.overlapTargets ≠ []) :
    claimReclaimBlocks n ci size (b :: bs) (r, a) = claimReclaimBlocks n ci size bs (r, a) := by
  rw [claimReclaimBlocks, if_neg (by simpa using hb)]

@[simp] theorem calculationEntriesMap_claimReclaimBlocks (n : Int) (ci : ContainerInfo)
    (size : UInt64) (bs : List Nat) (r : NumaCalculationResult) (a : Assembly) :
    (claimReclaimBlocks n ci size bs (r, a)).2.calculationEntriesMap = a.calculationEntriesMap := by
  induction bs generalizing r a with
  | nil => rfl
  | cons b bs ih =>
    by_cases hb : (a.cell b).block.overlapTargets = []
    · rw [claimReclaimBlocks_cons_of_free n ci size bs r a hb, ih]; simp
    · rw [claimReclaimBlocks_cons_of_claimed n ci size bs r a hb, ih]

/-- The claims of one container on one NUMA node: fresh blocks of its size. -/
theorem claimReclaimBlocks_spec (n : Int) (ci : ContainerInfo) (size : UInt64) (bs : List Nat)
    (r : NumaCalculationResult) {a : Assembly} (hw : a.WellFormed) :
    (claimReclaimBlocks n ci size bs (r, a)).2.WellFormed ∧
      a.Extends (claimReclaimBlocks n ci size bs (r, a)).2 ∧
      ∃ new, (claimReclaimBlocks n ci size bs (r, a)).1.blocks = r.blocks ++ new ∧
        ∀ h ∈ new, a.heap.length ≤ h ∧
          h < (claimReclaimBlocks n ci size bs (r, a)).2.heap.length := by
  induction bs generalizing r a with
  | nil => exact ⟨hw, .refl a, [], by simp [claimReclaimBlocks], by simp⟩
  | cons b bs ih =>
    by_cases hb : (a.cell b).block.overlapTargets = []
    · rw [claimReclaimBlocks_cons_of_free n ci size bs r a hb]
      set a₁ := (({ a with nextId := a.nextId + 1 } : Assembly).place ⟨size, [], a.nextId⟩ n ""
        (some ci) (a.cell b).block.blockId).2 with ha₁
      have hw₁ : a₁.WellFormed :=
        hw.bumpId.place n "" (some ci) rfl (Nat.lt_succ_self _) (.inr fun h hh => (hw.idLt h hh).ne)
      have hext₁ : a.Extends a₁ := extends_bumpId.trans (extends_place _ _ _ _ _)
      have hlen₁ : a₁.heap.length = a.heap.length + 1 := by simp [a₁]
      obtain ⟨hw', hext', new, hnew, hlt⟩ := ih ⟨r.blocks ++ [a.heap.length]⟩ hw₁
      refine ⟨hw', hext₁.trans hext', a.heap.length :: new, by simp [hnew], fun h hh => ?_⟩
      rcases List.mem_cons.1 hh with rfl | hh
      · exact ⟨le_rfl, lt_of_lt_of_le (by omega) hext'.length_le⟩
      · have := hlt h hh; omega
    · rw [claimReclaimBlocks_cons_of_claimed n ci size bs r a hb]
      exact ih r hw

theorem siblingResult_mem {podEntries : CalculationEntries} {u c : String} {n : Int}
    {result : NumaCalculationResult} (h : siblingResult σ podEntries u c n = some result) :
    ∃ c' info, podEntries.entries.lookup c' = some info ∧
      info.calculationResultsByNumas.lookup n = some result := by
  obtain ⟨e, he, hr⟩ := List.exists_of_findSome?_eq_some h
  exact ⟨e.1, e.2, AList.mem_lookup_iff.2 (Schedule.mem_range.1 he), hr⟩

section ContainerNuma

variable (K σ) (u : String) (ci : ContainerInfo) (n : Int) (cpuset : CPUSet) {a : Assembly}

theorem assembleContainerNuma_of_sibling {podEntries : CalculationEntries}
    {result : NumaCalculationResult} (hu : a.calculationEntriesMap.lookup u = some podEntries)
    (hs : siblingResult σ podEntries u ci.containerName n = some result) :
    assembleContainerNuma K σ u ci n cpuset a = copySiblingBlocks n ci result.blocks (⟨[]⟩, a) := by
  simp only [assembleContainerNuma, hu, hs]

theorem assembleContainerNuma_of_no_sibling {podEntries : CalculationEntries}
    (hu : a.calculationEntriesMap.lookup u = some podEntries)
    (hs : siblingResult σ podEntries u ci.containerName n = none) :
    assembleContainerNuma K σ u ci n cpuset a = (⟨[]⟩, a) := by
  simp only [assembleContainerNuma, hu, hs]

theorem assembleContainerNuma_of_no_reclaim (hu : a.calculationEntriesMap.lookup u = none)
    (hr : getNumaCalculationResult a.calculationEntriesMap K.poolNameReclaim
      K.fakedContainerName n = none) :
    assembleContainerNuma K σ u ci n cpuset a =
      (⟨[a.heap.length]⟩, (a.placeFresh (UInt64.ofNat cpuset.card) n "" (some ci)).2) := by
  simp only [assembleContainerNuma, hu, hr]
  rfl

theorem assembleContainerNuma_of_reclaim {reclaim : NumaCalculationResult}
    (hu : a.calculationEntriesMap.lookup u = none)
    (hr : getNumaCalculationResult a.calculationEntriesMap K.poolNameReclaim
      K.fakedContainerName n = some reclaim) :
    assembleContainerNuma K σ u ci n cpuset a =
      claimReclaimBlocks n ci (UInt64.ofNat cpuset.card) reclaim.blocks (⟨[]⟩, a) := by
  simp only [assembleContainerNuma, hu, hr]

@[simp] theorem calculationEntriesMap_assembleContainerNuma :
    (assembleContainerNuma K σ u ci n cpuset a).2.calculationEntriesMap =
      a.calculationEntriesMap := by
  unfold assembleContainerNuma
  split
  · split <;> simp
  · split <;> simp

/-- One NUMA node of a dedicated NUMA-bound container keeps the map and the invariant, and
its result holds blocks of the heap. -/
theorem assembleContainerNuma_spec (hw : a.WellFormed) (hh : a.HandlesIn) :
    (assembleContainerNuma K σ u ci n cpuset a).2.WellFormed ∧
      a.Extends (assembleContainerNuma K σ u ci n cpuset a).2 ∧
      (assembleContainerNuma K σ u ci n cpuset a).2.calculationEntriesMap =
        a.calculationEntriesMap ∧
      ∀ h ∈ (assembleContainerNuma K σ u ci n cpuset a).1.blocks,
        h < (assembleContainerNuma K σ u ci n cpuset a).2.heap.length := by
  cases hu : a.calculationEntriesMap.lookup u with
  | some podEntries =>
    cases hs : siblingResult σ podEntries u ci.containerName n with
    | none =>
      rw [assembleContainerNuma_of_no_sibling K σ u ci n cpuset hu hs]
      exact ⟨hw, .refl a, rfl, by simp⟩
    | some result =>
      rw [assembleContainerNuma_of_sibling K σ u ci n cpuset hu hs]
      obtain ⟨c', info, hc', hn⟩ := siblingResult_mem hs
      have hbs : ∀ b ∈ result.blocks, b < a.heap.length := hh u c' n result (by
        simp [getNumaCalculationResult, hu, hc', hn])
      obtain ⟨hw', hext', new, hnew, hlt, -⟩ :=
        copySiblingBlocks_spec n ci result.blocks ⟨[]⟩ hw hbs
      exact ⟨hw', hext', by simp, fun h hm => by simp [hnew] at hm; exact (hlt h hm).2⟩
  | none =>
    cases hr : getNumaCalculationResult a.calculationEntriesMap K.poolNameReclaim
        K.fakedContainerName n with
    | none =>
      rw [assembleContainerNuma_of_no_reclaim K σ u ci n cpuset hu hr]
      exact ⟨hw.placeFresh _ _ _ _, extends_placeFresh _ _ _ _, by simp, by simp⟩
    | some reclaim =>
      rw [assembleContainerNuma_of_reclaim K σ u ci n cpuset hu hr]
      obtain ⟨hw', hext', new, hnew, hlt⟩ :=
        claimReclaimBlocks_spec n ci (UInt64.ofNat cpuset.card) reclaim.blocks ⟨[]⟩ hw
      exact ⟨hw', hext', by simp, fun h hm => by simp [hnew] at hm; exact (hlt h hm).2⟩

end ContainerNuma

variable (K σ) in
@[simp] theorem calculationEntriesMap_assembleContainerNumas (u : String) (ci : ContainerInfo)
    (L : List (Σ _ : Int, CPUSet)) (results : AList fun _ : Int => NumaCalculationResult)
    (a : Assembly) :
    (assembleContainerNumas K σ u ci L (results, a)).2.calculationEntriesMap =
      a.calculationEntriesMap := by
  induction L generalizing results a with
  | nil => rfl
  | cons e L ih => obtain ⟨m, cpuset⟩ := e; simp [assembleContainerNumas, ih]

variable (K σ) in
@[simp] theorem calculationEntriesMap_containerResults (a : Assembly) (u : String)
    (ci : ContainerInfo) :
    (containerResults K σ a u ci).2.calculationEntriesMap = a.calculationEntriesMap := by
  unfold containerResults; split_ifs <;> simp

variable (K σ) in
theorem assembleContainerNumas_spec (u : String) (ci : ContainerInfo)
    (L : List (Σ _ : Int, CPUSet)) (results : AList fun _ : Int => NumaCalculationResult)
    {a : Assembly} (hw : a.WellFormed) (hh : a.HandlesIn) :
    (assembleContainerNumas K σ u ci L (results, a)).2.WellFormed ∧
      a.Extends (assembleContainerNumas K σ u ci L (results, a)).2 ∧
      (assembleContainerNumas K σ u ci L (results, a)).2.calculationEntriesMap =
        a.calculationEntriesMap ∧
      ∀ n r, (assembleContainerNumas K σ u ci L (results, a)).1.lookup n = some r →
        results.lookup n = some r ∨
          ∀ h ∈ r.blocks, h < (assembleContainerNumas K σ u ci L (results, a)).2.heap.length := by
  induction L generalizing results a with
  | nil => exact ⟨hw, .refl a, rfl, fun _ _ h => .inl h⟩
  | cons e L ih =>
    obtain ⟨m, cpuset⟩ := e
    obtain ⟨hw₁, hext₁, hmap₁, hlt₁⟩ := assembleContainerNuma_spec K σ u ci m cpuset hw hh
    obtain ⟨hw', hext', hmap', hres'⟩ :=
      ih (results.insert m (assembleContainerNuma K σ u ci m cpuset a).1) hw₁
        (hh.mono hmap₁ hext₁)
    refine ⟨hw', hext₁.trans hext', hmap'.trans hmap₁, fun n r hr => ?_⟩
    rcases hres' n r hr with hr | hr
    · by_cases hnm : n = m
      · subst hnm
        rw [AList.lookup_insert, Option.some_inj] at hr
        subst hr
        exact .inr fun h hm => lt_of_lt_of_le (hlt₁ h hm) hext'.length_le
      · exact .inl (by rwa [AList.lookup_insert_ne hnm] at hr)
    · exact .inr hr

variable (K σ) in
/-- The NUMA loop of `assemblePodEntries` keeps the map and the invariant, and its results
hold blocks of the heap. -/
theorem containerResults_spec (u : String) (ci : ContainerInfo) {a : Assembly}
    (hw : a.WellFormed) (hh : a.HandlesIn) :
    (containerResults K σ a u ci).2.WellFormed ∧ a.Extends (containerResults K σ a u ci).2 ∧
      (containerResults K σ a u ci).2.calculationEntriesMap = a.calculationEntriesMap ∧
      ∀ n r, (containerResults K σ a u ci).1.lookup n = some r →
        ∀ h ∈ r.blocks, h < (containerResults K σ a u ci).2.heap.length := by
  unfold containerResults
  split_ifs
  · obtain ⟨hw', hext', hmap', hres'⟩ := assembleContainerNumas_spec K σ u ci _ ∅ hw hh
    exact ⟨hw', hext', hmap', fun n r hr => (hres' n r hr).resolve_left (by simp)⟩
  · exact ⟨hw, .refl a, rfl, fun n r hr => by simp at hr⟩

variable (K σ) in
theorem assemblePodEntries_of_skip {a : Assembly} {u : String} {ci : ContainerInfo}
    (hs : skipsContainer K a.calculationEntriesMap ci) : assemblePodEntries K σ a u ci = a := by
  rw [assemblePodEntries, if_pos hs]

variable (K σ) in
/-- The entry `assemblePodEntries` files for a container it does not skip. -/
theorem assemblePodEntries_of_not_skip {a : Assembly} {u : String} {ci : ContainerInfo}
    (hs : ¬ skipsContainer K a.calculationEntriesMap ci) :
    assemblePodEntries K σ a u ci =
      { (containerResults K σ a u ci).2 with
        calculationEntriesMap := a.calculationEntriesMap.insert u
          ⟨((a.calculationEntriesMap.lookup u).getD ⟨∅⟩).entries.insert ci.containerName
            ⟨publishedOwnerPoolName ci, (containerResults K σ a u ci).1⟩⟩ } := by
  rw [assemblePodEntries, if_neg hs, ← calculationEntriesMap_containerResults K σ a u ci]

variable (K σ) in
/-- `assemblePodEntries` keeps the invariant, and the map's results hold blocks of the heap. -/
theorem assemblePodEntries_spec (u : String) (ci : ContainerInfo) {a : Assembly}
    (hw : a.WellFormed) (hh : a.HandlesIn) :
    (assemblePodEntries K σ a u ci).WellFormed ∧ a.Extends (assemblePodEntries K σ a u ci) ∧
      (assemblePodEntries K σ a u ci).HandlesIn := by
  by_cases hs : skipsContainer K a.calculationEntriesMap ci
  · rw [assemblePodEntries_of_skip K σ hs]; exact ⟨hw, .refl a, hh⟩
  rw [assemblePodEntries_of_not_skip K σ hs]
  obtain ⟨hw', hext', hmap', hres'⟩ := containerResults_spec K σ u ci hw hh
  refine ⟨hw'.withMap _, hext'.trans (extends_withMap _), fun e c n r hr h hm => ?_⟩
  have hh' := hh.mono hmap' hext'
  dsimp only at hr
  rw [getNumaCalculationResult_insert] at hr
  split_ifs at hr with he
  · subst he
    by_cases hc : c = ci.containerName
    · subst hc
      rw [AList.lookup_insert, Option.some_bind] at hr
      exact hres' n r hr h hm
    · rw [AList.lookup_insert_ne hc] at hr
      cases hu : a.calculationEntriesMap.lookup e with
      | none => simp [hu, AList.lookup_empty] at hr
      | some podEntries =>
        rw [hu] at hr
        exact hh' e c n r (by rw [hmap']; simpa [getNumaCalculationResult, hu] using hr) h hm
  · exact hh' e c n r (by rw [hmap']; exact hr) h hm

variable (K σ) in
theorem assembleContainers_spec (L : List (Σ _ : String × String, ContainerInfo)) {a : Assembly}
    (hw : a.WellFormed) (hh : a.HandlesIn) :
    (assembleContainers K σ L a).WellFormed ∧ a.Extends (assembleContainers K σ L a) ∧
      (assembleContainers K σ L a).HandlesIn := by
  induction L generalizing a with
  | nil => exact ⟨hw, .refl a, hh⟩
  | cons e L ih =>
    obtain ⟨⟨u, c⟩, ci⟩ := e
    obtain ⟨hw₁, hext₁, hh₁⟩ := assemblePodEntries_spec K σ u ci hw hh
    obtain ⟨hw', hext', hh'⟩ := ih hw₁ hh₁
    exact ⟨hw', hext₁.trans hext', hh'⟩

end Steps

end CpuServer

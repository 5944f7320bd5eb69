import CpuServer.Containers

/-!
# Claims on the reclaim pool's blocks

`assemblePodEntries` (`cpu_server.go` lines 526-545), with `join` modelled from the spec (see
`Block`).  A dedicated NUMA-bound container that is the first of its pod to be assembled
makes, on each NUMA node of its assignment, a fresh block for every block of the reclaim pool
there that has no overlap target yet, and joins it under that block: it claims the block.  A
claimed block has an overlap target, so no later container claims it; a reclaim block that
the overlap phase joined to a shared pool's block has that block as its first target, so no
container claims it at all.

THE INVARIANT.  `ClaimsOnce`: a fresh block made for a container that is among the overlap
targets of a reclaim block is the first of them.  A fresh block is one whose id no block
placed before it has; a copy of a sibling's block carries the sibling's id and is not fresh.
Every way the container phase places a block keeps the invariant (`ClaimsOnce.place`), and
the pool phase places no block for a container, so it holds when the container phase starts.
-/

set_option autoImplicit false

namespace CpuServer

namespace Assembly

variable (K : Consts)

/-- No block placed before `h` has the id of `h`'s block: it was made with a fresh id, not
copied from a sibling. -/
def IsFresh (a : Assembly) (h : Nat) : Prop :=
  ∀ h' < h, (a.cell h').block.blockId ≠ (a.cell h).block.blockId

/-- A fresh block made for a container. -/
def IsFreshContainerBlock (a : Assembly) (h : Nat) : Prop :=
  (a.cell h).containerInfo.isSome ∧ a.IsFresh h

/-- A block of the reclaim pool. -/
def IsReclaimCell (a : Assembly) (h : Nat) : Prop :=
  (a.cell h).poolName = K.poolNameReclaim ∧ (a.cell h).containerInfo = none

/-- A fresh block made for a container that is among the overlap targets of a reclaim block
is the first of them. -/
def ClaimsOnce (a : Assembly) : Prop :=
  ∀ h < a.heap.length, a.IsReclaimCell K h → ∀ t ∈ (a.cell h).block.overlapTargets,
    a.IsFreshContainerBlock t → (a.cell h).block.overlapTargets.head? = some t

variable {K} {a a' : Assembly}

theorem Extends.isFreshContainerBlock_iff (hext : a.Extends a') {t : Nat}
    (ht : t < a.heap.length) : a'.IsFreshContainerBlock t ↔ a.IsFreshContainerBlock t := by
  unfold IsFreshContainerBlock IsFresh
  rw [(hext.grows t ht).blockId, (hext.grows t ht).containerInfo]
  exact and_congr_right fun _ =>
    forall₂_congr fun h' hh' => by rw [(hext.grows h' (hh'.trans ht)).blockId]

theorem Extends.isReclaimCell_iff (hext : a.Extends a') {h : Nat} (hh : h < a.heap.length) :
    a'.IsReclaimCell K h ↔ a.IsReclaimCell K h := by
  simp only [IsReclaimCell, (hext.grows h hh).poolName, (hext.grows h hh).containerInfo]

theorem ClaimsOnce.of_heap_eq (hc : a.ClaimsOnce K) (heq : a'.heap = a.heap) :
    a'.ClaimsOnce K := by
  have hcell : a'.cell = a.cell := by funext h; simp [cell, heq]
  unfold ClaimsOnce IsReclaimCell IsFreshContainerBlock IsFresh
  rw [hcell, heq]
  exact hc

theorem ClaimsOnce.bumpId (hc : a.ClaimsOnce K) :
    ({ a with nextId := a.nextId + 1 } : Assembly).ClaimsOnce K :=
  hc.of_heap_eq rfl

/-- The pool phase places no block for a container, so a state of it has no claim. -/
theorem claimsOnce_of_noContainer (hw : a.WellFormed)
    (hn : ∀ h < a.heap.length, (a.cell h).containerInfo = none) : a.ClaimsOnce K :=
  fun h hh _ t ht hft => absurd hft.1 (by rw [hn t (hw.targetLt h hh t ht)]; simp)

/-- Placing a block made for a container keeps the invariant, unless the block is fresh and
its join resolves to a reclaim block that already has an overlap target. -/
theorem ClaimsOnce.place (hc : a.ClaimsOnce K) (hw : a.WellFormed) {b : Block} (n : Int)
    (p : String) (ci : ContainerInfo) (blockID : BlockId)
    (hclaim : (∀ h < a.heap.length, (a.cell h).block.blockId ≠ b.blockId) →
      ∀ t, a.blockSet.lookup blockID = some t → a.IsReclaimCell K t →
        (a.cell t).block.overlapTargets = []) :
    (a.place b n p (some ci) blockID).2.ClaimsOnce K := by
  have hext := extends_place (a := a) b n p (some ci) blockID
  have hcell := cell_place b n p (some ci) blockID fun t ht => (hw.registered ht).1
  intro h hh hrec t ht hft
  simp only [length_place] at hh
  rcases Nat.lt_succ_iff_lt_or_eq.1 hh with hh | rfl
  swap
  · simp [IsReclaimCell, hcell] at hrec
  have hrec₀ := (hext.isReclaimCell_iff hh).1 hrec
  -- a target that was there before is a fresh container block exactly as before
  have hold : ∀ t ∈ (a.cell h).block.overlapTargets,
      (a.place b n p (some ci) blockID).2.IsFreshContainerBlock t →
      (a.cell h).block.overlapTargets.head? = some t := fun t ht hft =>
    hc h hh hrec₀ t ht ((hext.isFreshContainerBlock_iff (hw.targetLt h hh t ht)).1 hft)
  by_cases hlink : a.blockSet.lookup blockID = some h
  · rw [hcell, if_neg hh.ne, if_pos hlink] at ht ⊢
    simp only [InternalBlock.withTarget, List.mem_append, List.mem_singleton] at ht ⊢
    rcases ht with ht | rfl
    · simp [List.head?_append, hold t ht hft]
    · -- the new block is fresh, so its join is a claim of `h`, whose targets were empty
      have hnew : ∀ h' < a.heap.length, (a.cell h').block.blockId ≠ b.blockId := fun h' hh' => by
        have := hft.2 h' hh'
        rwa [(hext.grows h' hh').blockId, hcell, if_pos rfl] at this
      rw [hclaim hnew h hlink hrec₀]
      rfl
  · rw [hcell, if_neg hh.ne, if_neg hlink] at ht ⊢
    exact hold t ht hft

theorem ClaimsOnce.placeFresh (hc : a.ClaimsOnce K) (hw : a.WellFormed) (size : UInt64)
    (n : Int) (p : String) (ci : ContainerInfo) :
    (a.placeFresh size n p (some ci)).2.ClaimsOnce K := by
  have hnone : a.blockSet.lookup a.nextId = none := hw.lookup_nextId
  exact hc.bumpId.place hw.bumpId n p ci a.nextId fun _ t hl => by simp [hnone] at hl

end Assembly

open Assembly

variable (K : Consts) (σ : Schedule)

/-! ## The container phase keeps the invariant -/

section Claims

variable {K σ} (n : Int) (ci : ContainerInfo)

theorem copySiblingBlocks_claimsOnce (bs : List Nat) (r : NumaCalculationResult) {a : Assembly}
    (hw : a.WellFormed) (hc : a.ClaimsOnce K) (hbs : ∀ b ∈ bs, b < a.heap.length) :
    (copySiblingBlocks n ci bs (r, a)).2.ClaimsOnce K := by
  induction bs generalizing r a with
  | nil => exact hc
  | cons b bs ih =>
    have hb := hbs b (List.mem_cons_self _ _)
    have hext := extends_place (a := a) ⟨(a.cell b).block.result, [], (a.cell b).block.blockId⟩ n
      "" (some ci) (a.cell b).block.blockId
    rw [copySiblingBlocks_cons]
    -- a copy carries the id of the block it copies, so it is not fresh
    exact ih _ (hw.place n "" (some ci) rfl (hw.idLt b hb) (.inl rfl))
      (hc.place hw n "" ci _ fun hnew => (hnew b hb rfl).elim)
      fun b' hb' => lt_of_lt_of_le (hbs b' (List.mem_cons_of_mem _ hb')) hext.length_le

theorem claimReclaimBlocks_claimsOnce (size : UInt64) (bs : List Nat) (r : NumaCalculationResult)
    {a : Assembly} (hw : a.WellFormed) (hc : a.ClaimsOnce K)
    (hbs : ∀ b ∈ bs, b < a.heap.length) :
    (claimReclaimBlocks n ci size bs (r, a)).2.ClaimsOnce K := by
  induction bs generalizing r a with
  | nil => exact hc
  | cons b bs ih =>
    have hb := hbs b (List.mem_cons_self _ _)
    have hbs' : ∀ b' ∈ bs, b' < a.heap.length := fun b' hb' => hbs b' (List.mem_cons_of_mem _ hb')
    by_cases ht : (a.cell b).block.overlapTargets = []
    · rw [claimReclaimBlocks_cons_of_free n ci size bs r a ht]
      have hext := extends_bumpId.trans (extends_place (a := { a with nextId := a.nextId + 1 })
        ⟨size, [], a.nextId⟩ n "" (some ci) (a.cell b).block.blockId)
      refine ih _ (hw.bumpId.place n "" (some ci) rfl (Nat.lt_succ_self _)
        (.inr fun h hh => (hw.idLt h hh).ne)) ?_
        fun b' hb' => lt_of_lt_of_le (hbs' b' hb') hext.length_le
      refine hc.bumpId.place hw.bumpId n "" ci _ fun _ t hl _ => ?_
      -- the join resolves to `b` itself, which has no overlap target
      have hl' : a.blockSet.lookup (a.cell b).block.blockId = some t := hl
      rw [hw.unlinked b hb ht, Option.some_inj] at hl'
      subst hl'
      exact ht
    · rw [claimReclaimBlocks_cons_of_claimed n ci size bs r a ht]
      exact ih r hw hc hbs'

variable (u : String)

theorem assembleContainerNuma_claimsOnce (cpuset : CPUSet) {a : Assembly} (hw : a.WellFormed)
    (hh : a.HandlesIn) (hc : a.ClaimsOnce K) :
    (assembleContainerNuma K σ u ci n cpuset a).2.ClaimsOnce K := by
  cases hu : a.calculationEntriesMap.lookup u with
  | some podEntries =>
    cases hs : siblingResult σ podEntries u ci.containerName n with
    | none => rwa [assembleContainerNuma_of_no_sibling K σ u ci n cpuset hu hs]
    | some result =>
      rw [assembleContainerNuma_of_sibling K σ u ci n cpuset hu hs]
      obtain ⟨c', info, hc', hn⟩ := siblingResult_mem hs
      exact copySiblingBlocks_claimsOnce n ci _ _ hw hc (hh u c' n result (by
        simp [getNumaCalculationResult, hu, hc', hn]))
  | none =>
    cases hr : getNumaCalculationResult a.calculationEntriesMap K.poolNameReclaim
        K.fakedContainerName n with
    | none =>
      rw [assembleContainerNuma_of_no_reclaim K σ u ci n cpuset hu hr]
      exact hc.placeFresh hw _ n "" ci
    | some reclaim =>
      rw [assembleContainerNuma_of_reclaim K σ u ci n cpuset hu hr]
      exact claimReclaimBlocks_claimsOnce n ci _ _ _ hw hc (hh _ _ n reclaim hr)

theorem assembleContainerNumas_claimsOnce (L : List (Σ _ : Int, CPUSet))
    (results : AList fun _ : Int => NumaCalculationResult) {a : Assembly} (hw : a.WellFormed)
    (hh : a.HandlesIn) (hc : a.ClaimsOnce K) :
    (assembleContainerNumas K σ u ci L (results, a)).2.ClaimsOnce K := by
  induction L generalizing results a with
  | nil => exact hc
  | cons e L ih =>
    obtain ⟨m, cpuset⟩ := e
    obtain ⟨hw₁, hext₁, hmap₁, -⟩ := assembleContainerNuma_spec K σ u ci m cpuset hw hh
    exact ih _ hw₁ (hh.mono hmap₁ hext₁) (assembleContainerNuma_claimsOnce m ci u cpuset hw hh hc)

theorem assemblePodEntries_claimsOnce {a : Assembly} (hw : a.WellFormed) (hh : a.HandlesIn)
    (hc : a.ClaimsOnce K) : (assemblePodEntries K σ a u ci).ClaimsOnce K := by
  by_cases hs : skipsContainer K a.calculationEntriesMap ci
  · rwa [assemblePodEntries_of_skip K σ hs]
  have hres : (containerResults K σ a u ci).2.ClaimsOnce K := by
    unfold containerResults
    split_ifs
    · exact assembleContainerNumas_claimsOnce ci u _ ∅ hw hh hc
    · exact hc
  exact hres.of_heap_eq (by rw [assemblePodEntries_of_not_skip K σ hs])

end Claims

theorem assembleContainers_claimsOnce (L : List (Σ _ : String × String, ContainerInfo))
    {a : Assembly} (hw : a.WellFormed) (hh : a.HandlesIn) (hc : a.ClaimsOnce K) :
    (assembleContainers K σ L a).ClaimsOnce K := by
  induction L generalizing a with
  | nil => exact hc
  | cons e L ih =>
    obtain ⟨⟨u, c⟩, ci⟩ := e
    obtain ⟨hw₁, -, hh₁⟩ := assemblePodEntries_spec K σ u ci hw hh
    exact ih hw₁ hh₁ (assemblePodEntries_claimsOnce ci u hw hh hc)

theorem assembleBlocks_claimsOnce (R : InternalCPUCalculationResult) (mc : MetaCache) :
    (assembleBlocks K σ R mc).ClaimsOnce K := by
  obtain ⟨hi, -⟩ := assemblePoolEntries_spec K σ R
  exact assembleContainers_claimsOnce K σ _ hi.wf (assemblePoolEntries_pools K σ R).2
    (claimsOnce_of_noContainer hi.wf hi.noContainer)

/-- Containers claim a block of the reclaim pool once, for every cache, advisor result and
order of every map the server ranges over: among its overlap targets there is at most one
fresh block made for a container, and there is none when its first target is a block not
made for a container, as the shared pool's block is that the overlap phase joined it to. -/
theorem assembleBlocks_reclaim_claimed_once (R : InternalCPUCalculationResult) (mc : MetaCache)
    {h : Nat} (hh : h < (assembleBlocks K σ R mc).heap.length)
    (hrec : (assembleBlocks K σ R mc).IsReclaimCell K h) :
    (∀ t₁ ∈ ((assembleBlocks K σ R mc).cell h).block.overlapTargets,
      ∀ t₂ ∈ ((assembleBlocks K σ R mc).cell h).block.overlapTargets,
        (assembleBlocks K σ R mc).IsFreshContainerBlock t₁ →
        (assembleBlocks K σ R mc).IsFreshContainerBlock t₂ → t₁ = t₂) ∧
    ∀ p, ((assembleBlocks K σ R mc).cell h).block.overlapTargets.head? = some p →
      ((assembleBlocks K σ R mc).cell p).containerInfo = none →
      ∀ t ∈ ((assembleBlocks K σ R mc).cell h).block.overlapTargets,
        ¬ (assembleBlocks K σ R mc).IsFreshContainerBlock t := by
  have hc := assembleBlocks_claimsOnce K σ R mc h hh hrec
  refine ⟨fun t₁ h₁ t₂ h₂ hf₁ hf₂ => Option.some_inj.1 ((hc t₁ h₁ hf₁).symm.trans (hc t₂ h₂ hf₂)),
    fun p hp hpn t ht hft => ?_⟩
  rw [hc t ht hft, Option.some_inj] at hp
  subst hp
  simp [IsFreshContainerBlock, hpn] at hft

/-- Two dedicated pods, each with one container on NUMA node 0. -/
def twoDedicatedPods : MetaCache :=
  (MetaCache.empty.insertContainer (dedicatedContainer "podA" "main")).insertContainer
    (dedicatedContainer "podB" "main")

/-- An advisor result whose reclaim pool has 2 CPUs on NUMA node 0, without overlap. -/
def reclaimOnNuma0 : InternalCPUCalculationResult :=
  ⟨AList.insert "reclaim" (AList.insert (0 : Int) (2 : Int) ∅) ∅, ∅, [], false⟩

/-- The reclaim pool's block is the first block placed; the container of "podB", assembled
first, claims it, and no second fresh block joins it. -/
theorem assembleBlocks_reclaim_claimed_once_twoPods :
    0 < (assembleBlocks katalystConsts Schedule.listOrder reclaimOnNuma0
      twoDedicatedPods).heap.length ∧
    (assembleBlocks katalystConsts Schedule.listOrder reclaimOnNuma0
      twoDedicatedPods).IsReclaimCell katalystConsts 0 ∧
    ((assembleBlocks katalystConsts Schedule.listOrder reclaimOnNuma0
      twoDedicatedPods).cell 0).block.overlapTargets = [1] ∧
    ∀ t₁ ∈ ((assembleBlocks katalystConsts Schedule.listOrder reclaimOnNuma0
        twoDedicatedPods).cell 0).block.overlapTargets,
      ∀ t₂ ∈ ((assembleBlocks katalystConsts Schedule.listOrder reclaimOnNuma0
          twoDedicatedPods).cell 0).block.overlapTargets,
        (assembleBlocks katalystConsts Schedule.listOrder reclaimOnNuma0
          twoDedicatedPods).IsFreshContainerBlock t₁ →
        (assembleBlocks katalystConsts Schedule.listOrder reclaimOnNuma0
          twoDedicatedPods).IsFreshContainerBlock t₂ → t₁ = t₂ :=
  have hh : 0 < (assembleBlocks katalystConsts Schedule.listOrder reclaimOnNuma0
    twoDedicatedPods).heap.length := by decide
  have hrec : (assembleBlocks katalystConsts Schedule.listOrder reclaimOnNuma0
    twoDedicatedPods).IsReclaimCell katalystConsts 0 := ⟨by decide, by decide⟩
  ⟨hh, hrec, by decide,
    (assembleBlocks_reclaim_claimed_once katalystConsts Schedule.listOrder reclaimOnNuma0
      twoDedicatedPods hh hrec).1⟩

/-- The container of "podA", assembled after "podB" claimed the reclaim pool's block on NUMA
node 0, gets no block there at all: that block is joined already, and the loop of lines
536-544 places nothing in its place. -/
theorem assembleResponse_second_dedicated_pod_no_block :
    getNumaCalculationResult (assembleResponse katalystConsts Schedule.listOrder reclaimOnNuma0
      twoDedicatedPods noHeadroom).entries "podB" "main" 0 = some ⟨[1]⟩ ∧
    getNumaCalculationResult (assembleResponse katalystConsts Schedule.listOrder reclaimOnNuma0
      twoDedicatedPods noHeadroom).entries "podA" "main" 0 = some ⟨[]⟩ := by
  decide

end CpuServer

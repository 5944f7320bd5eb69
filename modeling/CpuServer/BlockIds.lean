import CpuServer.Containers

/-!
# Block ids in the response

`assembleResponse` (`cpu_server.go` lines 220-270) with `assemblePoolEntries` (lines 414-464)
and `assemblePodEntries` (lines 469-564).  Every block of a pass is made by `NewBlock`, and
one call alone passes it an id of its own: the copy of a sibling's block (line 513,
`NewBlock(block.Result, block.BlockId)`), which takes the size of the block it copies; the
block it copies is read from the sibling's result on the same NUMA node (line 510), so the
copy is made on that node too.  Every other call draws a fresh id.  An id therefore stands
for one size on one NUMA node all through the response, which is what lets the receiver
read the blocks that share an id as one set of CPUs.

THE INVARIANT.  `IdsConsistent`: blocks of the heap that share an id share their size and
their NUMA node; `NumaKeyed`: every block a result holds under NUMA key `n` is a block of
the heap made on `n`.  The pool phase gives every block an id of its own
(`PoolPhaseInv.distinct`), and every step of the container phase keeps both
(`IdsConsistent.place`, then one lemma per loop).
-/

set_option autoImplicit false

namespace CpuServer

namespace Assembly

/-- Blocks of the heap that share an id share their size and their NUMA node. -/
def IdsConsistent (a : Assembly) : Prop :=
  ∀ h₁ < a.heap.length, ∀ h₂ < a.heap.length,
    (a.cell h₁).block.blockId = (a.cell h₂).block.blockId →
      (a.cell h₁).block.result = (a.cell h₂).block.result ∧ (a.cell h₁).numaID = (a.cell h₂).numaID

/-- The handles `hs` are blocks of the heap made on NUMA node `n`. -/
def OnNode (a : Assembly) (n : Int) (hs : List Nat) : Prop :=
  ∀ h ∈ hs, h < a.heap.length ∧ (a.cell h).numaID = n

/-- Every result of the map holds, under NUMA key `n`, blocks made on `n`. -/
def NumaKeyed (a : Assembly) : Prop :=
  ∀ e c n r, getNumaCalculationResult a.calculationEntriesMap e c n = some r → a.OnNode n r.blocks

variable {a a' : Assembly}

theorem OnNode.mono {n : Int} {hs : List Nat} (ho : a.OnNode n hs) (hext : a.Extends a') :
    a'.OnNode n hs := fun h hm =>
  ⟨lt_of_lt_of_le (ho h hm).1 hext.length_le, ((hext.grows h (ho h hm).1).numaID).trans (ho h hm).2⟩

/-- The block a step places on `n` is a block made on `n`. -/
theorem OnNode.place {n : Int} {hs : List Nat} (ho : a.OnNode n hs) (b : Block) (p : String)
    (ci : Option ContainerInfo) (blockID : BlockId) :
    (a.place b n p ci blockID).2.OnNode n (hs ++ [a.heap.length]) := by
  intro h hm
  rcases List.mem_append.1 hm with hm | hm
  · exact ho.mono (extends_place b n p ci blockID) h hm
  · rw [List.mem_singleton.1 hm]
    exact ⟨by simp, (grows_cell_place b n p ci blockID).numaID⟩

theorem NumaKeyed.mono (hk : a.NumaKeyed) (hext : a.Extends a')
    (hmap : a'.calculationEntriesMap = a.calculationEntriesMap) : a'.NumaKeyed :=
  fun e c n r hr => (hk e c n r (hmap ▸ hr)).mono hext

theorem NumaKeyed.handlesIn (hk : a.NumaKeyed) : a.HandlesIn :=
  fun e c n r hr h hm => (hk e c n r hr h hm).1

theorem IdsDistinct.idsConsistent (hd : a.IdsDistinct) : a.IdsConsistent :=
  fun h₁ hh₁ h₂ hh₂ heq => by rw [hd h₁ hh₁ h₂ hh₂ heq]; exact ⟨rfl, rfl⟩

/-- Placing a block on node `n` keeps the ids consistent when every block of the heap with
its id has its size and was made on `n`; a block with a fresh id meets no such block. -/
theorem IdsConsistent.place (hc : a.IdsConsistent) {b : Block} (n : Int) (p : String)
    (ci : Option ContainerInfo) (blockID : BlockId)
    (hb : ∀ h < a.heap.length, (a.cell h).block.blockId = b.blockId →
      (a.cell h).block.result = b.result ∧ (a.cell h).numaID = n) :
    (a.place b n p ci blockID).2.IdsConsistent := by
  have hold := (extends_place (a := a) b n p ci blockID).grows
  have hnew := grows_cell_place (a := a) b n p ci blockID
  intro h₁ hh₁ h₂ hh₂ heq
  simp only [length_place] at hh₁ hh₂
  rcases Nat.lt_succ_iff_lt_or_eq.1 hh₁ with hh₁ | rfl <;>
    rcases Nat.lt_succ_iff_lt_or_eq.1 hh₂ with hh₂ | rfl
  · rw [(hold h₁ hh₁).blockId, (hold h₂ hh₂).blockId] at heq
    rw [(hold h₁ hh₁).result, (hold h₂ hh₂).result, (hold h₁ hh₁).numaID, (hold h₂ hh₂).numaID]
    exact hc h₁ hh₁ h₂ hh₂ heq
  · rw [(hold h₁ hh₁).blockId, hnew.blockId] at heq
    rw [(hold h₁ hh₁).result, hnew.result, (hold h₁ hh₁).numaID, hnew.numaID]
    exact hb h₁ hh₁ heq
  · rw [(hold h₂ hh₂).blockId, hnew.blockId] at heq
    rw [(hold h₂ hh₂).result, hnew.result, (hold h₂ hh₂).numaID, hnew.numaID]
    exact (hb h₂ hh₂ heq.symm).imp Eq.symm Eq.symm
  · exact ⟨rfl, rfl⟩

/-- A fresh block: its id is the counter, above every id of the heap. -/
theorem IdsConsistent.placeFresh (hc : a.IdsConsistent) (hw : a.WellFormed) (size : UInt64)
    (n : Int) (p : String) (ci : Option ContainerInfo) :
    (a.placeFresh size n p ci).2.IdsConsistent :=
  IdsConsistent.place (a := { a with nextId := a.nextId + 1 }) hc n p ci a.nextId
    fun h hh hid => absurd hid (hw.idLt h hh).ne

end Assembly

open Assembly

variable (K : Consts) (σ : Schedule)

/-! ## The pool phase -/

theorem assemblePoolEntries_numaKeyed (R : InternalCPUCalculationResult) :
    (assemblePoolEntries K σ R .empty).NumaKeyed := fun e c n r hr => by
  obtain ⟨results, hl, hres⟩ := assemblePoolEntries_results K σ R
    (mem_of_getNumaCalculationResult hr)
  exact hres n r (lookup_of_getNumaCalculationResult_pool K hl hr)

/-! ## The container phase keeps the invariant -/

section ContainerPhase

variable {K σ} (n : Int) (ci : ContainerInfo)

/-- A copy takes the id and the size of the block it copies, which was made on the same
node. -/
theorem copySiblingBlocks_ids (bs : List Nat) (r : NumaCalculationResult) {a : Assembly}
    (hw : a.WellFormed) (hc : a.IdsConsistent) (hbs : a.OnNode n bs) (hr : a.OnNode n r.blocks) :
    (copySiblingBlocks n ci bs (r, a)).2.IdsConsistent ∧
      (copySiblingBlocks n ci bs (r, a)).2.OnNode n (copySiblingBlocks n ci bs (r, a)).1.blocks := by
  induction bs generalizing r a with
  | nil => exact ⟨hc, hr⟩
  | cons b bs ih =>
    have hb := hbs b (List.mem_cons_self _ _)
    have hext := extends_place (a := a) ⟨(a.cell b).block.result, [], (a.cell b).block.blockId⟩ n
      "" (some ci) (a.cell b).block.blockId
    rw [copySiblingBlocks_cons]
    refine ih _ (hw.place n "" (some ci) rfl (hw.idLt b hb.1) (.inl rfl))
      (hc.place n "" (some ci) _ fun h hh hid => ?_)
      (fun b' hb' => hbs.mono hext b' (List.mem_cons_of_mem _ hb')) (hr.place _ _ _ _)
    obtain ⟨hres, hnuma⟩ := hc h hh b hb.1 hid
    exact ⟨hres, hnuma.trans hb.2⟩

/-- Every claim is a fresh block. -/
theorem claimReclaimBlocks_ids (size : UInt64) (bs : List Nat) (r : NumaCalculationResult)
    {a : Assembly} (hw : a.WellFormed) (hc : a.IdsConsistent) (hr : a.OnNode n r.blocks) :
    (claimReclaimBlocks n ci size bs (r, a)).2.IdsConsistent ∧
      (claimReclaimBlocks n ci size bs (r, a)).2.OnNode n
        (claimReclaimBlocks n ci size bs (r, a)).1.blocks := by
  induction bs generalizing r a with
  | nil => exact ⟨hc, hr⟩
  | cons b bs ih =>
    by_cases ht : (a.cell b).block.overlapTargets = []
    · rw [claimReclaimBlocks_cons_of_free n ci size bs r a ht]
      exact ih _ (hw.bumpId.place n "" (some ci) rfl (Nat.lt_succ_self _)
          (.inr fun h hh => (hw.idLt h hh).ne))
        (IdsConsistent.place (a := { a with nextId := a.nextId + 1 }) hc n "" (some ci) _
          fun h hh hid => absurd hid (hw.idLt h hh).ne)
        (OnNode.place (a := { a with nextId := a.nextId + 1 }) hr _ _ _ _)
    · rw [claimReclaimBlocks_cons_of_claimed n ci size bs r a ht]
      exact ih r hw hc hr

variable (u : String)

theorem assembleContainerNuma_ids (cpuset : CPUSet) {a : Assembly} (hw : a.WellFormed)
    (hk : a.NumaKeyed) (hc : a.IdsConsistent) :
    (assembleContainerNuma K σ u ci n cpuset a).2.IdsConsistent ∧
      (assembleContainerNuma K σ u ci n cpuset a).2.OnNode n
        (assembleContainerNuma K σ u ci n cpuset a).1.blocks := by
  cases hu : a.calculationEntriesMap.lookup u with
  | some podEntries =>
    cases hs : siblingResult σ podEntries u ci.containerName n with
    | none =>
      rw [assembleContainerNuma_of_no_sibling K σ u ci n cpuset hu hs]
      exact ⟨hc, fun h hm => by simp at hm⟩
    | some result =>
      rw [assembleContainerNuma_of_sibling K σ u ci n cpuset hu hs]
      obtain ⟨c', info, hc', hn⟩ := siblingResult_mem hs
      exact copySiblingBlocks_ids n ci _ _ hw hc
        (hk u c' n result (by simp [getNumaCalculationResult, hu, hc', hn]))
        fun h hm => by simp at hm
  | none =>
    cases hr : getNumaCalculationResult a.calculationEntriesMap K.poolNameReclaim
        K.fakedContainerName n with
    | none =>
      rw [assembleContainerNuma_of_no_reclaim K σ u ci n cpuset hu hr]
      exact ⟨hc.placeFresh hw _ n "" (some ci),
        OnNode.place (show ({ a with nextId := a.nextId + 1 } : Assembly).OnNode n [] from
          fun h hm => by simp at hm) _ _ _ _⟩
    | some reclaim =>
      rw [assembleContainerNuma_of_reclaim K σ u ci n cpuset hu hr]
      exact claimReclaimBlocks_ids n ci _ _ _ hw hc fun h hm => by simp at hm

theorem assembleContainerNumas_ids (L : List (Σ _ : Int, CPUSet))
    (results : AList fun _ : Int => NumaCalculationResult) {a : Assembly} (hw : a.WellFormed)
    (hk : a.NumaKeyed) (hc : a.IdsConsistent)
    (hres : ∀ m r, results.lookup m = some r → a.OnNode m r.blocks) :
    (assembleContainerNumas K σ u ci L (results, a)).2.IdsConsistent ∧
      ∀ m r, (assembleContainerNumas K σ u ci L (results, a)).1.lookup m = some r →
        (assembleContainerNumas K σ u ci L (results, a)).2.OnNode m r.blocks := by
  induction L generalizing results a with
  | nil => exact ⟨hc, hres⟩
  | cons e L ih =>
    obtain ⟨m, cpuset⟩ := e
    obtain ⟨hw₁, hext₁, hmap₁, -⟩ := assembleContainerNuma_spec K σ u ci m cpuset hw hk.handlesIn
    obtain ⟨hc₁, hon₁⟩ := assembleContainerNuma_ids m ci u cpuset hw hk hc
    refine ih _ hw₁ (hk.mono hext₁ hmap₁) hc₁ fun m' r hr => ?_
    by_cases hm : m' = m
    · subst hm
      rw [AList.lookup_insert, Option.some_inj] at hr
      exact hr ▸ hon₁
    · rw [AList.lookup_insert_ne hm] at hr
      exact (hres m' r hr).mono hext₁

theorem assemblePodEntries_ids {a : Assembly} (hw : a.WellFormed) (hk : a.NumaKeyed)
    (hc : a.IdsConsistent) :
    (assemblePodEntries K σ a u ci).NumaKeyed ∧ (assemblePodEntries K σ a u ci).IdsConsistent := by
  by_cases hs : skipsContainer K a.calculationEntriesMap ci
  · rw [assemblePodEntries_of_skip K σ hs]; exact ⟨hk, hc⟩
  obtain ⟨-, hext', hmap', -⟩ := containerResults_spec K σ u ci hw hk.handlesIn
  -- the container's own results, and the state after them
  have hres : (containerResults K σ a u ci).2.IdsConsistent ∧
      ∀ m r, (containerResults K σ a u ci).1.lookup m = some r →
        (containerResults K σ a u ci).2.OnNode m r.blocks := by
    unfold containerResults
    split_ifs
    · exact assembleContainerNumas_ids ci u _ ∅ hw hk hc fun _ _ h => by simp at h
    · exact ⟨hc, fun _ _ h => by simp at h⟩
  refine ⟨fun e c m r hr => ?_, by rw [assemblePodEntries_of_not_skip K σ hs]; exact hres.1⟩
  rw [getNumaCalculationResult_assemblePodEntries] at hr
  rw [assemblePodEntries_of_not_skip K σ hs]
  split_ifs at hr
  · exact hres.2 m r hr
  · exact (hk e c m r hr).mono (hext'.trans (extends_withMap _))

end ContainerPhase

theorem assembleContainers_ids (L : List (Σ _ : String × String, ContainerInfo)) {a : Assembly}
    (hw : a.WellFormed) (hk : a.NumaKeyed) (hc : a.IdsConsistent) :
    (assembleContainers K σ L a).NumaKeyed ∧ (assembleContainers K σ L a).IdsConsistent := by
  induction L generalizing a with
  | nil => exact ⟨hk, hc⟩
  | cons e L ih =>
    obtain ⟨⟨u, c⟩, ci⟩ := e
    obtain ⟨hw₁, -, -⟩ := assemblePodEntries_spec K σ u ci hw hk.handlesIn
    obtain ⟨hk₁, hc₁⟩ := assemblePodEntries_ids ci u hw hk hc
    exact ih hw₁ hk₁ hc₁

theorem assembleBlocks_ids (R : InternalCPUCalculationResult) (mc : MetaCache) :
    (assembleBlocks K σ R mc).NumaKeyed ∧ (assembleBlocks K σ R mc).IdsConsistent := by
  obtain ⟨hi, -⟩ := assemblePoolEntries_spec K σ R
  exact assembleContainers_ids K σ _ hi.wf (assemblePoolEntries_numaKeyed K σ R)
    hi.distinct.idsConsistent

/-- A block id stands for one size on one NUMA node in every response, for every cache,
advisor result and order of every map the server ranges over: two blocks that the
response's pool and container entries hold under the same id have the same size and are
held under the same NUMA node. -/
theorem assembleResponse_blockId_consistent (R : InternalCPUCalculationResult) (mc : MetaCache)
    (hs : HeadroomSource) {e₁ c₁ e₂ c₂ : String} {n₁ n₂ : Int} {r₁ r₂ : NumaCalculationResult}
    (hr₁ : getNumaCalculationResult (assembleResponse K σ R mc hs).entries e₁ c₁ n₁ = some r₁)
    (hr₂ : getNumaCalculationResult (assembleResponse K σ R mc hs).entries e₂ c₂ n₂ = some r₂)
    {h₁ h₂ : Nat} (hh₁ : h₁ ∈ r₁.blocks) (hh₂ : h₂ ∈ r₂.blocks)
    (hid : ((assembleResponse K σ R mc hs).blockView h₁).1 =
      ((assembleResponse K σ R mc hs).blockView h₂).1) :
    ((assembleResponse K σ R mc hs).blockView h₁).2 =
      ((assembleResponse K σ R mc hs).blockView h₂).2 ∧ n₁ = n₂ := by
  obtain ⟨hk, hc⟩ := assembleBlocks_ids K σ R mc
  rw [blockView_assembleResponse] at hid ⊢
  obtain ⟨hl₁, hn₁⟩ := hk _ _ _ _ hr₁ h₁ hh₁
  obtain ⟨hl₂, hn₂⟩ := hk _ _ _ _ hr₂ h₂ hh₂
  obtain ⟨hres, hnuma⟩ := hc h₁ hl₁ h₂ hl₂ hid
  exact ⟨hres, hn₁.symm.trans (hnuma.trans hn₂)⟩

/-- The sidecar's block and the main container's copy of it share an id, a size and a node. -/
theorem assembleResponse_blockId_consistent_sidecar :
    ((assembleResponse katalystConsts Schedule.listOrder emptyAdvice podWithSidecar
      noHeadroom).blockView 1).2 =
      ((assembleResponse katalystConsts Schedule.listOrder emptyAdvice podWithSidecar
        noHeadroom).blockView 0).2 ∧ (0 : Int) = 0 :=
  have hmain : getNumaCalculationResult (assembleResponse katalystConsts Schedule.listOrder
      emptyAdvice podWithSidecar noHeadroom).entries "pod" "main" 0 = some ⟨[1]⟩ := by decide
  have hsidecar : getNumaCalculationResult (assembleResponse katalystConsts Schedule.listOrder
      emptyAdvice podWithSidecar noHeadroom).entries "pod" "sidecar" 0 = some ⟨[0]⟩ := by decide
  assembleResponse_blockId_consistent katalystConsts Schedule.listOrder emptyAdvice
    podWithSidecar noHeadroom hmain hsidecar (List.mem_singleton_self 1)
    (List.mem_singleton_self 0) (by decide)

end CpuServer

import CpuServer.Response

/-!
# The container loop

`RangeContainer` with `assemblePodEntries` (`cpu_server.go` lines 226-233 and 466-564), over
the whole loop.  One call files the container's entry under its pod UID and container name,
unless it skips the container, and changes no other entry
(`getCalculationInfo_assemblePodEntries`).  Two invariants of the loop follow from that and
from what the NUMA loop makes.

SIBLINGS.  Entries filed under one key hold, on every NUMA node they share, blocks of the
same ids and sizes in the same order (`SiblingsAgree`).  A pool's entry has one sub-entry;
a container whose pod already has an entry copies, node by node, the blocks of the first
sibling the scan meets with that node, and gets none when no sibling has it.  No order of
the loop or of the scans can break it.

PUBLISHED POOLS.  A shared- or reclaimed-cores container is skipped when the pool it
publishes is empty or has no entry in the map as the loop finds it, and that map holds the
pods filed so far besides the advisor's pools.  When no such container publishes a pod UID
of the cache, the advisor's pools alone decide (`skipsContainer_iff`).
-/

set_option autoImplicit false

namespace CpuServer

open Assembly

variable (K : Consts) (σ : Schedule)

/-- The sub-entry `subEntryName` of entry `entryName` of the map, if there is one. -/
def getCalculationInfo (m : AList fun _ : String => CalculationEntries)
    (entryName subEntryName : String) : Option CalculationInfo :=
  (m.lookup entryName).bind (·.entries.lookup subEntryName)

theorem getNumaCalculationResult_eq_bind (m : AList fun _ : String => CalculationEntries)
    (e c : String) (n : Int) :
    getNumaCalculationResult m e c n =
      (getCalculationInfo m e c).bind (·.calculationResultsByNumas.lookup n) := by
  unfold getNumaCalculationResult getCalculationInfo
  cases m.lookup e <;> rfl

/-- Filing `info` under pod `u` and container `c` (lines 553-561) changes that sub-entry
alone. -/
theorem getCalculationInfo_insert_entry (m : AList fun _ : String => CalculationEntries)
    (u c : String) (info : CalculationInfo) (e c' : String) :
    getCalculationInfo (m.insert u ⟨((m.lookup u).getD ⟨∅⟩).entries.insert c info⟩) e c' =
      if e = u ∧ c' = c then some info else getCalculationInfo m e c' := by
  by_cases he : e = u
  · subst he
    by_cases hc : c' = c
    · subst hc; simp [getCalculationInfo, AList.lookup_insert]
    · cases hu : m.lookup e <;>
        simp [getCalculationInfo, AList.lookup_insert, AList.lookup_insert_ne hc, hu, hc,
          ← AList.insert_empty, AList.lookup_empty]
  · simp [getCalculationInfo, AList.lookup_insert_ne he, he]

/-! ## One call of `assemblePodEntries` -/

section Step

variable {K σ} (a : Assembly) (u : String) (ci : ContainerInfo)

/-- What one call of `assemblePodEntries` files: the entry of the container under its pod
UID and name, unless it skips the container.  No other sub-entry changes. -/
theorem getCalculationInfo_assemblePodEntries (e c : String) :
    getCalculationInfo (assemblePodEntries K σ a u ci).calculationEntriesMap e c =
      if e = u ∧ c = ci.containerName ∧ ¬ skipsContainer K a.calculationEntriesMap ci then
        some ⟨publishedOwnerPoolName ci, (containerResults K σ a u ci).1⟩
      else getCalculationInfo a.calculationEntriesMap e c := by
  by_cases hs : skipsContainer K a.calculationEntriesMap ci
  · simp [assemblePodEntries_of_skip K σ hs, hs]
  · rw [assemblePodEntries_of_not_skip K σ hs]
    simp only [getCalculationInfo_insert_entry, hs, not_false_eq_true, and_true]

theorem getNumaCalculationResult_assemblePodEntries (e c : String) (n : Int) :
    getNumaCalculationResult (assemblePodEntries K σ a u ci).calculationEntriesMap e c n =
      if e = u ∧ c = ci.containerName ∧ ¬ skipsContainer K a.calculationEntriesMap ci then
        (containerResults K σ a u ci).1.lookup n
      else getNumaCalculationResult a.calculationEntriesMap e c n := by
  rw [getNumaCalculationResult_eq_bind, getCalculationInfo_assemblePodEntries,
    getNumaCalculationResult_eq_bind]
  split_ifs <;> rfl

theorem mem_assemblePodEntries (p : String) :
    p ∈ (assemblePodEntries K σ a u ci).calculationEntriesMap ↔
      p ∈ a.calculationEntriesMap ∨ (p = u ∧ ¬ skipsContainer K a.calculationEntriesMap ci) := by
  by_cases hs : skipsContainer K a.calculationEntriesMap ci
  · simp [assemblePodEntries_of_skip K σ hs, hs]
  · simp [assemblePodEntries_of_not_skip K σ hs, hs, AList.mem_insert, or_comm]

theorem blockView_assemblePodEntries (hs : ¬ skipsContainer K a.calculationEntriesMap ci) :
    (assemblePodEntries K σ a u ci).blockView = (containerResults K σ a u ci).2.blockView := by
  rw [assemblePodEntries_of_not_skip K σ hs]
  rfl

end Step

/-! ## The state the loop starts from -/

/-- A result of a pool's entry is one of its results under the faked container name. -/
theorem lookup_of_getNumaCalculationResult_pool {m : AList fun _ : String => CalculationEntries}
    {p c : String} {n : Int} {results : AList fun _ : Int => NumaCalculationResult}
    {r : NumaCalculationResult} (hl : m.lookup p = some (poolCalculationEntries K p results))
    (hr : getNumaCalculationResult m p c n = some r) : results.lookup n = some r := by
  by_cases hc : c = K.fakedContainerName
  · rwa [hc, getNumaCalculationResult_of_lookup K hl] at hr
  · simp [getNumaCalculationResult, hl, poolCalculationEntries, ← AList.insert_empty,
      AList.lookup_insert_ne hc, AList.lookup_empty] at hr

/-- After the pool phase an entry of the map is a pool's, with one sub-entry under the faked
container name, whose result on a NUMA node holds blocks of the heap made on that node. -/
theorem assemblePoolEntries_results (R : InternalCPUCalculationResult) {p : String}
    (hp : p ∈ (assemblePoolEntries K σ R .empty).calculationEntriesMap) :
    ∃ results, (assemblePoolEntries K σ R .empty).calculationEntriesMap.lookup p =
        some (poolCalculationEntries K p results) ∧
      ∀ n r, results.lookup n = some r → ∀ h ∈ r.blocks,
        h < (assemblePoolEntries K σ R .empty).heap.length ∧
          ((assemblePoolEntries K σ R .empty).cell h).numaID = n := by
  obtain ⟨-, hkeys, hpools, hreclaim⟩ := assemblePoolEntries_spec K σ R
  set a := assemblePoolEntries K σ R .empty
  obtain ⟨entries, he⟩ := Option.isSome_iff_exists.1 (AList.lookup_isSome.2 ((hkeys p).1 hp))
  by_cases hskip : p = K.poolNameReclaim ∧ R.allowSharedCoresOverlapReclaimedCores = true
  · obtain ⟨hp, hflag⟩ := hskip
    subst hp
    obtain ⟨results, hl, hk, hb⟩ := hreclaim entries he hflag
    refine ⟨results, hl, fun n r hr h hm => ?_⟩
    obtain ⟨size, hn⟩ := Option.isSome_iff_exists.1
      (AList.lookup_isSome.2 ((hk n).1 (AList.lookup_isSome.1 (by simp [hr]))))
    obtain ⟨r', hr', hrb⟩ := hb n size hn
    rw [hr, Option.some_inj] at hr'
    subst hr'
    unfold ReclaimBlocks at hrb
    split_ifs at hrb
    · obtain ⟨h', hh', hb'⟩ := hrb
      rw [hh', List.mem_singleton] at hm
      exact hm ▸ ⟨hb'.1.1, hb'.1.2.2.2.1⟩
    · obtain ⟨O, -, hall⟩ := hrb
      exact ((List.forall₂_and_left (p := fun h => h < a.heap.length ∧ (a.cell h).numaID = n)
        _ _).1 (hall.imp fun h _ hb => ⟨⟨hb.1.1, hb.1.2.2.2.1⟩, hb⟩)).1 h hm
  · obtain ⟨results, hl, hr⟩ := hpools p entries he hskip
    refine ⟨results, hl, fun n r hrn h hm => ?_⟩
    obtain ⟨size, hn⟩ := Option.isSome_iff_exists.1
      (AList.lookup_isSome.2 ((hr.keys n).1 (AList.lookup_isSome.1 (by simp [hrn]))))
    obtain ⟨h', hl', hb⟩ := hr.block n size hn
    rw [hrn, Option.some_inj] at hl'
    subst hl'
    rw [List.mem_singleton] at hm
    exact hm ▸ ⟨hb.1, hb.2.2.2.1⟩

/-- An entry of the map that holds a result is an entry of the map. -/
theorem mem_of_getNumaCalculationResult {m : AList fun _ : String => CalculationEntries}
    {e c : String} {n : Int} {r : NumaCalculationResult}
    (hr : getNumaCalculationResult m e c n = some r) : e ∈ m := by
  unfold getNumaCalculationResult at hr
  cases hl : m.lookup e with
  | none => simp [hl] at hr
  | some _ => exact AList.lookup_isSome.1 (by simp [hl])

/-- After the pool phase every entry of the map is a pool's, with one sub-entry under the
faked container name, and every result holds blocks of the heap. -/
theorem assemblePoolEntries_pools (R : InternalCPUCalculationResult) :
    (∀ p entries, (assemblePoolEntries K σ R .empty).calculationEntriesMap.lookup p = some entries →
      ∃ results, entries = poolCalculationEntries K p results) ∧
    (assemblePoolEntries K σ R .empty).HandlesIn := by
  refine ⟨fun p entries hp => ?_, fun e c n r hr h hm => ?_⟩
  · obtain ⟨results, hl, -⟩ := assemblePoolEntries_results K σ R (p := p)
      (AList.lookup_isSome.1 (by simp [hp]))
    exact ⟨results, Option.some_inj.1 (hp.symm.trans hl)⟩
  · obtain ⟨results, hl, hres⟩ := assemblePoolEntries_results K σ R
      (mem_of_getNumaCalculationResult hr)
    exact (hres n r (lookup_of_getNumaCalculationResult_pool K hl hr) h hm).1

/-! ## Siblings -/

namespace Assembly

/-- Entries filed under one key hold, on every NUMA node they share, blocks of the same ids
and sizes in the same order. -/
def SiblingsAgree (a : Assembly) : Prop :=
  ∀ u c₁ c₂ n r₁ r₂, getNumaCalculationResult a.calculationEntriesMap u c₁ n = some r₁ →
    getNumaCalculationResult a.calculationEntriesMap u c₂ n = some r₂ →
    r₁.blocks.map a.blockView = r₂.blocks.map a.blockView

/-- The result `r` of a container of pod `u` on node `n` agrees with the pod's entries: its
blocks are in the heap and carry the ids and sizes of every sibling's result there. -/
def AgreesWithPod (a : Assembly) (u : String) (n : Int) (r : NumaCalculationResult) : Prop :=
  (∀ h ∈ r.blocks, h < a.heap.length) ∧
    ∀ c r', getNumaCalculationResult a.calculationEntriesMap u c n = some r' →
      r.blocks.map a.blockView = r'.blocks.map a.blockView

variable {a a' : Assembly}

/-- The blocks of a result of the map keep their ids and sizes as blocks are placed. -/
theorem HandlesIn.map_blockView (hh : a.HandlesIn) (hext : a.Extends a') {e c : String}
    {n : Int} {r : NumaCalculationResult}
    (hr : getNumaCalculationResult a.calculationEntriesMap e c n = some r) :
    r.blocks.map a'.blockView = r.blocks.map a.blockView :=
  List.map_congr_left fun h hm => hext.blockView (hh e c n r hr h hm)

theorem SiblingsAgree.mono (hs : a.SiblingsAgree) (hh : a.HandlesIn) (hext : a.Extends a')
    (hmap : a'.calculationEntriesMap = a.calculationEntriesMap) : a'.SiblingsAgree := by
  intro u c₁ c₂ n r₁ r₂ h₁ h₂
  rw [hmap] at h₁ h₂
  rw [hh.map_blockView hext h₁, hh.map_blockView hext h₂]
  exact hs u c₁ c₂ n r₁ r₂ h₁ h₂

theorem AgreesWithPod.mono {u : String} {n : Int} {r : NumaCalculationResult}
    (hr : a.AgreesWithPod u n r) (hh : a.HandlesIn) (hext : a.Extends a')
    (hmap : a'.calculationEntriesMap = a.calculationEntriesMap) : a'.AgreesWithPod u n r := by
  refine ⟨fun h hm => lt_of_lt_of_le (hr.1 h hm) hext.length_le, fun c r' hr' => ?_⟩
  rw [hmap] at hr'
  rw [List.map_congr_left fun h hm => hext.blockView (hr.1 h hm), hr.2 c r' hr',
    hh.map_blockView hext hr']

end Assembly

theorem siblingResult_eq_none {podEntries : CalculationEntries} {u c : String} {n : Int}
    (h : siblingResult σ podEntries u c n = none) {c' : String} {info : CalculationInfo}
    (hc : podEntries.entries.lookup c' = some info) :
    info.calculationResultsByNumas.lookup n = none :=
  List.findSome?_eq_none_iff.1 h ⟨c', info⟩ (Schedule.mem_range.2 (AList.mem_lookup_iff.1 hc))

section Siblings

variable (u : String) (ci : ContainerInfo)

/-- The result a dedicated NUMA-bound container gets on one node agrees with its pod's
entries: copies of the blocks of the sibling the scan finds, and no block when no sibling
has the node. -/
theorem assembleContainerNuma_agrees (n : Int) (cpuset : CPUSet) {a : Assembly}
    (hw : a.WellFormed) (hh : a.HandlesIn) (hs : a.SiblingsAgree) :
    (assembleContainerNuma K σ u ci n cpuset a).2.AgreesWithPod u n
      (assembleContainerNuma K σ u ci n cpuset a).1 := by
  refine ⟨(assembleContainerNuma_spec K σ u ci n cpuset hw hh).2.2.2, fun c r' hr' => ?_⟩
  rw [calculationEntriesMap_assembleContainerNuma] at hr'
  -- `r'` is the result of a sibling `c` on `n`
  cases hu : a.calculationEntriesMap.lookup u with
  | none => simp [getNumaCalculationResult, hu] at hr'
  | some podEntries =>
  cases hc : podEntries.entries.lookup c with
  | none => simp [getNumaCalculationResult, hu, hc] at hr'
  | some info =>
  have hn : info.calculationResultsByNumas.lookup n = some r' := by
    simpa [getNumaCalculationResult, hu, hc] using hr'
  cases hsr : siblingResult σ podEntries u ci.containerName n with
  | none => simp [siblingResult_eq_none σ hsr hc] at hn
  | some result =>
    obtain ⟨c₀, info₀, hc₀, hn₀⟩ := siblingResult_mem hsr
    have hres : getNumaCalculationResult a.calculationEntriesMap u c₀ n = some result := by
      simp [getNumaCalculationResult, hu, hc₀, hn₀]
    obtain ⟨-, hext, new, hnew, -, hview⟩ :=
      copySiblingBlocks_spec n ci result.blocks ⟨[]⟩ hw fun b hb => hh u c₀ n result hres b hb
    rw [assembleContainerNuma_of_sibling K σ u ci n cpuset hu hsr, hnew, List.nil_append, hview,
      hs u c₀ c n result r' hres hr', hh.map_blockView hext hr']

/-- The NUMA loop keeps every result agreeing with the pod's entries. -/
theorem assembleContainerNumas_agrees (L : List (Σ _ : Int, CPUSet))
    (results : AList fun _ : Int => NumaCalculationResult) {a : Assembly} (hw : a.WellFormed)
    (hh : a.HandlesIn) (hs : a.SiblingsAgree)
    (hres : ∀ n r, results.lookup n = some r → a.AgreesWithPod u n r) :
    ∀ n r, (assembleContainerNumas K σ u ci L (results, a)).1.lookup n = some r →
      (assembleContainerNumas K σ u ci L (results, a)).2.AgreesWithPod u n r := by
  induction L generalizing results a with
  | nil => exact hres
  | cons e L ih =>
    obtain ⟨m, cpuset⟩ := e
    obtain ⟨hw₁, hext₁, hmap₁, -⟩ := assembleContainerNuma_spec K σ u ci m cpuset hw hh
    refine ih _ hw₁ (hh.mono hmap₁ hext₁) (hs.mono hh hext₁ hmap₁) fun n r hr => ?_
    by_cases hnm : n = m
    · subst hnm
      rw [AList.lookup_insert, Option.some_inj] at hr
      exact hr ▸ assembleContainerNuma_agrees K σ u ci n cpuset hw hh hs
    · rw [AList.lookup_insert_ne hnm] at hr
      exact (hres n r hr).mono hh hext₁ hmap₁

theorem containerResults_agrees {a : Assembly} (hw : a.WellFormed) (hh : a.HandlesIn)
    (hs : a.SiblingsAgree) :
    ∀ n r, (containerResults K σ a u ci).1.lookup n = some r →
      (containerResults K σ a u ci).2.AgreesWithPod u n r := by
  unfold containerResults
  split_ifs
  · exact assembleContainerNumas_agrees K σ u ci _ ∅ hw hh hs fun n r hr => by simp at hr
  · intro n r hr; simp at hr

/-- One call of `assemblePodEntries` keeps the siblings agreeing. -/
theorem siblingsAgree_assemblePodEntries {a : Assembly} (hs : a.SiblingsAgree)
    (hw : a.WellFormed) (hh : a.HandlesIn) : (assemblePodEntries K σ a u ci).SiblingsAgree := by
  by_cases hskip : skipsContainer K a.calculationEntriesMap ci
  · rwa [assemblePodEntries_of_skip K σ hskip]
  obtain ⟨-, hext, hmap, -⟩ := containerResults_spec K σ u ci hw hh
  have hagree := containerResults_agrees K σ u ci hw hh hs
  intro e c₁ c₂ n r₁ r₂ h₁ h₂
  simp only [getNumaCalculationResult_assemblePodEntries, hskip, not_false_eq_true, and_true]
    at h₁ h₂
  rw [blockView_assemblePodEntries a u ci hskip]
  split_ifs at h₁ h₂ with hc₁ hc₂ hc₂
  · -- both are the new entry
    rw [h₁, Option.some_inj] at h₂
    rw [h₂]
  · -- the new entry and a sibling filed before
    exact (hagree n r₁ h₁).2 c₂ r₂ (by rw [hmap, ← hc₁.1]; exact h₂)
  · exact ((hagree n r₂ h₂).2 c₁ r₁ (by rw [hmap, ← hc₂.1]; exact h₁)).symm
  · -- two entries filed before
    rw [hh.map_blockView hext h₁, hh.map_blockView hext h₂]
    exact hs e c₁ c₂ n r₁ r₂ h₁ h₂

end Siblings

/-- The container loop keeps the siblings agreeing, in every order. -/
theorem siblingsAgree_assembleContainers (L : List (Σ _ : String × String, ContainerInfo))
    {a : Assembly} (hs : a.SiblingsAgree) (hw : a.WellFormed) (hh : a.HandlesIn) :
    (assembleContainers K σ L a).SiblingsAgree := by
  induction L generalizing a with
  | nil => exact hs
  | cons e L ih =>
    obtain ⟨⟨u, c⟩, ci⟩ := e
    obtain ⟨hw₁, -, hh₁⟩ := assemblePodEntries_spec K σ u ci hw hh
    exact ih (siblingsAgree_assemblePodEntries K σ u ci hs hw hh) hw₁ hh₁

/-- A pool's entry has one sub-entry, so the siblings agree after the pool phase. -/
theorem siblingsAgree_assemblePoolEntries (R : InternalCPUCalculationResult) :
    (assemblePoolEntries K σ R .empty).SiblingsAgree := by
  intro u c₁ c₂ n r₁ r₂ h₁ h₂
  have hu : (assemblePoolEntries K σ R .empty).calculationEntriesMap.lookup u ≠ none := by
    intro hu; simp [getNumaCalculationResult, hu] at h₁
  obtain ⟨entries, hl⟩ := Option.ne_none_iff_exists'.1 hu
  obtain ⟨results, rfl⟩ := (assemblePoolEntries_pools K σ R).1 u entries hl
  rw [Option.some_inj.1 ((lookup_of_getNumaCalculationResult_pool K hl h₁).symm.trans
    (lookup_of_getNumaCalculationResult_pool K hl h₂))]

/-- The state `assembleResponse` builds keeps the invariant, and its siblings agree. -/
theorem assembleBlocks_siblingsAgree (R : InternalCPUCalculationResult) (mc : MetaCache) :
    (assembleBlocks K σ R mc).WellFormed ∧ (assembleBlocks K σ R mc).HandlesIn ∧
      (assembleBlocks K σ R mc).SiblingsAgree := by
  obtain ⟨hi, -⟩ := assemblePoolEntries_spec K σ R
  have hh := (assemblePoolEntries_pools K σ R).2
  obtain ⟨hw, -, hh'⟩ := assembleContainers_spec K σ (σ.range .containers mc.podEntries) hi.wf hh
  exact ⟨hw, hh', siblingsAgree_assembleContainers K σ _ (siblingsAgree_assemblePoolEntries K σ R)
    hi.wf hh⟩

/-- Siblings agree in the response: for every order of every map the server ranges over,
two sub-entries of one entry that have a result on the same NUMA node hold blocks of the
same ids and sizes, in the same order. -/
theorem assembleResponse_siblings_agree (R : InternalCPUCalculationResult) (mc : MetaCache)
    (hs : HeadroomSource) {u c₁ c₂ : String} {n : Int} {r₁ r₂ : NumaCalculationResult}
    (h₁ : getNumaCalculationResult (assembleResponse K σ R mc hs).entries u c₁ n = some r₁)
    (h₂ : getNumaCalculationResult (assembleResponse K σ R mc hs).entries u c₂ n = some r₂) :
    r₁.blocks.map (assembleResponse K σ R mc hs).blockView =
      r₂.blocks.map (assembleResponse K σ R mc hs).blockView := by
  rw [blockView_assembleResponse]
  exact (assembleBlocks_siblingsAgree K σ R mc).2.2 u c₁ c₂ n r₁ r₂ h₁ h₂

/-- A dedicated NUMA-bound container holding CPUs 0 and 1 of NUMA node 0. -/
def dedicatedContainer (podUID containerName : String) : ContainerInfo :=
  ⟨podUID, containerName, "dedicated_cores", false, "dedicated", "dedicated",
    AList.insert (0 : Int) ({0, 1} : Finset Nat) ∅, ∅, false, ∅, true, 0⟩

/-- One dedicated pod with a main container and a sidecar. -/
def podWithSidecar : MetaCache :=
  (MetaCache.empty.insertContainer (dedicatedContainer "pod" "main")).insertContainer
    (dedicatedContainer "pod" "sidecar")

/-- An advisor result with no pools and no extra entries. -/
def emptyAdvice : InternalCPUCalculationResult := ⟨∅, ∅, [], false⟩

/-- A headroom manager that fails. -/
def noHeadroom : HeadroomSource := ⟨.error "unavailable", fun _ => .error "unavailable"⟩

/-- The sidecar is assembled first and gets a fresh block; the main container copies it. -/
theorem assembleResponse_siblings_agree_sidecar :
    getNumaCalculationResult (assembleResponse katalystConsts Schedule.listOrder emptyAdvice
      podWithSidecar noHeadroom).entries "pod" "main" 0 = some ⟨[1]⟩ ∧
    getNumaCalculationResult (assembleResponse katalystConsts Schedule.listOrder emptyAdvice
      podWithSidecar noHeadroom).entries "pod" "sidecar" 0 = some ⟨[0]⟩ ∧
    [1].map (assembleResponse katalystConsts Schedule.listOrder emptyAdvice podWithSidecar
      noHeadroom).blockView =
      [0].map (assembleResponse katalystConsts Schedule.listOrder emptyAdvice podWithSidecar
        noHeadroom).blockView :=
  have hmain : getNumaCalculationResult (assembleResponse katalystConsts Schedule.listOrder
      emptyAdvice podWithSidecar noHeadroom).entries "pod" "main" 0 = some ⟨[1]⟩ := by decide
  have hsidecar : getNumaCalculationResult (assembleResponse katalystConsts Schedule.listOrder
      emptyAdvice podWithSidecar noHeadroom).entries "pod" "sidecar" 0 = some ⟨[0]⟩ := by decide
  ⟨hmain, hsidecar, assembleResponse_siblings_agree katalystConsts Schedule.listOrder
    emptyAdvice podWithSidecar noHeadroom hmain hsidecar⟩

/-! ## Published pools -/

/-- The entries of a map are the advisor's pools and pods of the cache. -/
def KeysWithin (R : InternalCPUCalculationResult) (mc : MetaCache)
    (m : AList fun _ : String => CalculationEntries) : Prop :=
  (∀ p, p ∈ R.poolEntries → p ∈ m) ∧
    ∀ p, p ∈ m → p ∈ R.poolEntries ∨ ∃ k ∈ mc.podEntries.keys, k.1 = p

section Published

variable {R : InternalCPUCalculationResult} {mc : MetaCache}

/-- Against such a map, a container that publishes no pod UID of the cache is skipped
exactly as it would be against the advisor's pools alone. -/
theorem skipsContainer_iff {m : AList fun _ : String => CalculationEntries}
    (hm : KeysWithin R mc m) {ci : ContainerInfo}
    (hpub : ci.qoSLevel = K.podAnnotationQoSLevelSharedCores ∨
        ci.qoSLevel = K.podAnnotationQoSLevelReclaimedCores →
      ∀ k ∈ mc.podEntries.keys, publishedOwnerPoolName ci ≠ k.1) :
    skipsContainer K m ci ↔
      (ci.qoSLevel = K.podAnnotationQoSLevelSharedCores ∨
        ci.qoSLevel = K.podAnnotationQoSLevelReclaimedCores) ∧
      (publishedOwnerPoolName ci = "" ∨ publishedOwnerPoolName ci ∉ R.poolEntries) := by
  unfold skipsContainer
  refine and_congr_right fun hq => or_congr_right ⟨fun hn hp => hn (hm.1 _ hp), fun hn hp => ?_⟩
  rcases hm.2 _ hp with hp | ⟨k, hk, hkp⟩
  · exact hn hp
  · exact hpub hq k hk hkp.symm

theorem keysWithin_assemblePodEntries {a : Assembly} (hm : KeysWithin R mc a.calculationEntriesMap)
    {u c : String} (hu : (u, c) ∈ mc.podEntries.keys) (ci : ContainerInfo) :
    KeysWithin R mc (assemblePodEntries K σ a u ci).calculationEntriesMap := by
  refine ⟨fun p hp => (mem_assemblePodEntries a u ci p).2 (.inl (hm.1 p hp)), fun p hp => ?_⟩
  rcases (mem_assemblePodEntries a u ci p).1 hp with hp | ⟨rfl, -⟩
  · exact hm.2 p hp
  · exact .inr ⟨_, hu, rfl⟩

/-- A container the loop does not reach keeps its sub-entry. -/
theorem getCalculationInfo_assembleContainers_of_not_mem
    (L : List (Σ _ : String × String, ContainerInfo)) (hL : ∀ x ∈ L, x.2.containerName = x.1.2)
    {u c : String} (hk : (u, c) ∉ L.keys) (a : Assembly) :
    getCalculationInfo (assembleContainers K σ L a).calculationEntriesMap u c =
      getCalculationInfo a.calculationEntriesMap u c := by
  induction L generalizing a with
  | nil => rfl
  | cons x L ih =>
    obtain ⟨⟨u', c'⟩, ci⟩ := x
    simp only [List.keys_cons, List.mem_cons, not_or] at hk
    rw [assembleContainers, ih (fun y hy => hL y (List.mem_cons_of_mem _ hy)) hk.2,
      getCalculationInfo_assemblePodEntries, if_neg]
    rintro ⟨rfl, rfl, -⟩
    exact hk.1 (by rw [hL _ (List.mem_cons_self _ _)])

/-- The container loop over containers of the cache, none of which publishes a pod UID of
the cache: a container reached whose sub-entry is not there yet gets one exactly when the
advisor's pools do not make it skip, under the pool it publishes. -/
theorem assembleContainers_files (L : List (Σ _ : String × String, ContainerInfo))
    (hL : ∀ x ∈ L, x ∈ mc.podEntries.entries) (hnd : L.NodupKeys)
    (hpub : ∀ x ∈ L, x.2.qoSLevel = K.podAnnotationQoSLevelSharedCores ∨
        x.2.qoSLevel = K.podAnnotationQoSLevelReclaimedCores →
      ∀ k ∈ mc.podEntries.keys, publishedOwnerPoolName x.2 ≠ k.1)
    {a : Assembly} (hm : KeysWithin R mc a.calculationEntriesMap) :
    KeysWithin R mc (assembleContainers K σ L a).calculationEntriesMap ∧
    ∀ x ∈ L, getCalculationInfo a.calculationEntriesMap x.1.1 x.1.2 = none →
      (getCalculationInfo (assembleContainers K σ L a).calculationEntriesMap x.1.1 x.1.2).map
          (·.ownerPoolName) =
        if (x.2.qoSLevel = K.podAnnotationQoSLevelSharedCores ∨
            x.2.qoSLevel = K.podAnnotationQoSLevelReclaimedCores) ∧
          (publishedOwnerPoolName x.2 = "" ∨ publishedOwnerPoolName x.2 ∉ R.poolEntries)
        then none else some (publishedOwnerPoolName x.2) := by
  induction L generalizing a with
  | nil => exact ⟨hm, fun x hx => absurd hx (List.not_mem_nil _)⟩
  | cons x L ih =>
    obtain ⟨⟨u, c⟩, ci⟩ := x
    have hx := hL _ (List.mem_cons_self _ _)
    have hc : ci.containerName = c := (MetaCache.filed_of_mem hx).2
    rw [List.nodupKeys_cons] at hnd
    obtain ⟨hkeys, hfiles⟩ := ih (fun y hy => hL y (List.mem_cons_of_mem _ hy)) hnd.2
      (fun y hy => hpub y (List.mem_cons_of_mem _ hy))
      (keysWithin_assemblePodEntries K σ hm (List.mem_keys_of_mem hx) ci)
    refine ⟨hkeys, fun y hy hnone => ?_⟩
    rcases List.mem_cons.1 hy with rfl | hy
    · -- the container of this step: no later step touches its sub-entry
      rw [assembleContainers, getCalculationInfo_assembleContainers_of_not_mem K σ L
        (fun y hy => (MetaCache.filed_of_mem (hL y (List.mem_cons_of_mem _ hy))).2) hnd.1,
        getCalculationInfo_assemblePodEntries]
      have hiff := skipsContainer_iff K hm (hpub _ (List.mem_cons_self _ _))
      dsimp only at hnone hiff ⊢
      by_cases hs : skipsContainer K a.calculationEntriesMap ci
      · simp [hs, hiff.1 hs, hnone]
      · simp [hs, hc, mt hiff.2 hs]
    · -- a container of a later step: this step leaves its sub-entry alone
      refine hfiles y hy ?_
      rw [getCalculationInfo_assemblePodEntries, if_neg, hnone]
      rintro ⟨h₁, h₂, -⟩
      have hy₁ : y.1 = (u, c) := Prod.ext h₁ (h₂.trans hc)
      exact hnd.1 (show (u, c) ∈ L.keys by rw [← hy₁]; exact List.mem_keys_of_mem hy)

end Published

/-- Which containers get an entry, when no shared- or reclaimed-cores container publishes a
pod UID of the cache: exactly those that are neither shared- nor reclaimed-cores or publish a
non-empty pool of the advisor, for every order of every map the server ranges over; and the
entry names the pool the container publishes. -/
theorem assembleResponse_entry_iff_published_pool (R : InternalCPUCalculationResult)
    (mc : MetaCache) (hs : HeadroomSource)
    (hpods : ∀ k ∈ mc.podEntries.keys, k.1 ∉ R.poolEntries)
    (hpub : ∀ x ∈ mc.podEntries.entries, x.2.qoSLevel = K.podAnnotationQoSLevelSharedCores ∨
        x.2.qoSLevel = K.podAnnotationQoSLevelReclaimedCores →
      ∀ k ∈ mc.podEntries.keys, publishedOwnerPoolName x.2 ≠ k.1)
    {u c : String} {ci : ContainerInfo} (hci : mc.getContainerInfo u c = some ci) :
    ((∃ info, getCalculationInfo (assembleResponse K σ R mc hs).entries u c = some info) ↔
      ¬ (ci.qoSLevel = K.podAnnotationQoSLevelSharedCores ∨
          ci.qoSLevel = K.podAnnotationQoSLevelReclaimedCores) ∨
        (publishedOwnerPoolName ci ≠ "" ∧ publishedOwnerPoolName ci ∈ R.poolEntries)) ∧
    ∀ info, getCalculationInfo (assembleResponse K σ R mc hs).entries u c = some info →
      info.ownerPoolName = publishedOwnerPoolName ci := by
  obtain ⟨-, hkeys, -⟩ := assemblePoolEntries_spec K σ R
  have hx : (⟨(u, c), ci⟩ : Σ _ : String × String, ContainerInfo) ∈
      σ.range .containers mc.podEntries := Schedule.mem_range.2 (AList.mem_lookup_iff.1 hci)
  have hnone : getCalculationInfo (assemblePoolEntries K σ R .empty).calculationEntriesMap u c
      = none := by
    have hu : u ∉ (assemblePoolEntries K σ R .empty).calculationEntriesMap := fun h =>
      hpods (u, c) (AList.lookup_isSome.1 (by simp [MetaCache.getContainerInfo] at hci; simp [hci]))
        ((hkeys u).1 h)
    simp [getCalculationInfo, AList.lookup_eq_none.2 hu]
  have hfile := (assembleContainers_files K σ _ (fun x hx => Schedule.mem_range.1 hx)
    (σ.nodupKeys_range _ _) (fun x hx => hpub x (Schedule.mem_range.1 hx))
    ⟨fun p hp => (hkeys p).2 hp, fun p hp => .inl ((hkeys p).1 hp)⟩).2 _ hx hnone
  rw [entries_assembleResponse]
  dsimp only at hfile
  split_ifs at hfile with hskip
  · rw [Option.map_eq_none'] at hfile
    refine ⟨iff_of_false (by simp [assembleBlocks, hfile]) ?_, by simp [assembleBlocks, hfile]⟩
    rintro (h | ⟨h₁, h₂⟩)
    · exact h hskip.1
    · exact hskip.2.elim h₁ (· h₂)
  · obtain ⟨info, ho, hinfo⟩ := Option.map_eq_some'.1 hfile
    refine ⟨iff_of_true ⟨info, ho⟩ ?_, fun info' h => ?_⟩
    · push_neg at hskip
      by_cases hq : ci.qoSLevel = K.podAnnotationQoSLevelSharedCores ∨
        ci.qoSLevel = K.podAnnotationQoSLevelReclaimedCores
      · exact .inr (hskip hq)
      · exact .inl hq
    · rw [assembleBlocks, ho, Option.some_inj] at h
      exact h ▸ hinfo

/-- A shared-cores container of pod `podUID` in pool `ownerPoolName`. -/
def sharedContainer (podUID ownerPoolName : String) : ContainerInfo :=
  ⟨podUID, "main", "shared_cores", false, ownerPoolName, ownerPoolName, ∅, ∅, false, ∅, false, 0⟩

/-- An advisor result with one pool, "share", of 4 CPUs on NUMA node 0. -/
def sharePoolAdvice : InternalCPUCalculationResult :=
  ⟨AList.insert "share" (AList.insert (0 : Int) (4 : Int) ∅) ∅, ∅, [], false⟩

/-- A cache with one shared container, in pool "share". -/
def sharedPodCache : MetaCache := MetaCache.empty.insertContainer (sharedContainer "podS" "share")

/-- The shared container gets an entry, and it names the pool "share". -/
theorem assembleResponse_entry_iff_published_pool_share :
    (∃ info, getCalculationInfo (assembleResponse katalystConsts Schedule.listOrder
      sharePoolAdvice sharedPodCache noHeadroom).entries "podS" "main" = some info) ∧
    ∀ info, getCalculationInfo (assembleResponse katalystConsts Schedule.listOrder
      sharePoolAdvice sharedPodCache noHeadroom).entries "podS" "main" = some info →
      info.ownerPoolName = "share" :=
  have h := assembleResponse_entry_iff_published_pool katalystConsts Schedule.listOrder
    sharePoolAdvice sharedPodCache noHeadroom (by decide) (by decide)
    (show sharedPodCache.getContainerInfo "podS" "main" = some (sharedContainer "podS" "share")
      from rfl)
  ⟨h.1.2 (.inr ⟨by decide, by decide⟩), h.2⟩

/-- A cache where a shared container publishes, as its pool, the UID of a dedicated pod that
the loop reaches first. -/
def ownerIsPodCache : MetaCache :=
  (MetaCache.empty.insertContainer (sharedContainer "podB" "podA")).insertContainer
    (dedicatedContainer "podA" "main")

/-- The shared container publishes "podA", which is no pool of the advisor, and still gets an
entry: the map it is checked against already holds the entry of pod "podA". -/
theorem assembleResponse_entry_of_pod_owner :
    (∀ k ∈ ownerIsPodCache.podEntries.keys, k.1 ∉ emptyAdvice.poolEntries) ∧
    ownerIsPodCache.getContainerInfo "podB" "main" = some (sharedContainer "podB" "podA") ∧
    (sharedContainer "podB" "podA").qoSLevel = katalystConsts.podAnnotationQoSLevelSharedCores ∧
    publishedOwnerPoolName (sharedContainer "podB" "podA") ∉ emptyAdvice.poolEntries ∧
    (getCalculationInfo (assembleResponse katalystConsts Schedule.listOrder emptyAdvice
      ownerIsPodCache noHeadroom).entries "podB" "main").map (·.ownerPoolName) = some "podA" :=
  ⟨by decide, rfl, rfl, by decide, by decide⟩

end CpuServer

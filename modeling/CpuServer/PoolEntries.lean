import CpuServer.Block

/-!
# Pool entries (`assemblePoolEntries`)

`cpuServer.assemblePoolEntries` (`cpu_server.go` lines 412-464).  Every pool of the
advisor's result gets an entry with one fresh block per NUMA node, except the reclaim pool
when shared cores may overlap reclaimed cores: that pool comes last, and on a NUMA node
where it overlaps other pools it gets one block per overlapped pool, joined under the
overlapped pool's block.  Its blocks are made from the same three steps as every other
(`Assembly.placeFresh`, `Assembly.place`), and each loop of the source is a definition
over the list its `range` visits, in the order the schedule gives.

THE RESULT.  `assemblePoolEntries_blocks` says what the pass builds, from an empty state,
for every order of every map it ranges over: an entry for exactly the pools of the result,
one block of the right size per NUMA node of an ordinary pool, and for the reclaim pool in
overlap mode the blocks of the pools it overlaps, whatever the order of the overlap map.
Until here no block is copied, so every block has an id of its own.
-/

set_option autoImplicit false

namespace CpuServer

variable (K : Consts) (σ : Schedule)

/-- The NUMA loop of an ordinary pool (lines 421-430): a fresh block per NUMA node. -/
def assemblePoolNumas (poolName : String) :
    List (Σ _ : Int, Int) → (AList fun _ : Int => NumaCalculationResult) × Assembly →
      (AList fun _ : Int => NumaCalculationResult) × Assembly
  | [], st => st
  | ⟨numaID, size⟩ :: rest, (results, a) =>
    let (h, a) := a.placeFresh (uint64 size) numaID poolName none
    assemblePoolNumas poolName rest (results.insert numaID ⟨[h]⟩, a)

/-- The loop over the pools (lines 415-432); the reclaim pool waits in overlap mode. -/
def assemblePools (R : InternalCPUCalculationResult) :
    List (Σ _ : String, AList fun _ : Int => Int) → Assembly → Assembly
  | [], a => a
  | ⟨poolName, entries⟩ :: rest, a =>
    if poolName = K.poolNameReclaim ∧ R.allowSharedCoresOverlapReclaimedCores = true then
      assemblePools R rest a
    else
      let (results, a) := assemblePoolNumas poolName (σ.range (.poolNumas poolName) entries) (∅, a)
      let poolEntry := poolCalculationEntries K poolName results
      assemblePools R rest { a with calculationEntriesMap := a.calculationEntriesMap.insert poolName poolEntry }

/-- The loop over the pools the reclaim pool overlaps on `numaID` (lines 446-457): a fresh
block per overlapped pool that has exactly one block there, joined under that block. -/
def assembleOverlaps (numaID : Int) :
    List (Σ _ : String, Int) → NumaCalculationResult × Assembly →
      NumaCalculationResult × Assembly
  | [], st => st
  | ⟨sharedPoolName, reclaimedSize⟩ :: rest, (r, a) =>
    let (block, a) := a.newBlock (uint64 reclaimedSize) none
    match getNumaCalculationResult a.calculationEntriesMap sharedPoolName
        K.fakedContainerName numaID with
    | some ⟨[b]⟩ =>
      let (h, a) := a.place block numaID K.poolNameReclaim none (a.cell b).block.blockId
      assembleOverlaps numaID rest (⟨r.blocks ++ [h]⟩, a)
    | _ => assembleOverlaps numaID rest (r, a)

/-- The NUMA loop of the reclaim pool in overlap mode (lines 436-459). -/
def assembleReclaimNumas (R : InternalCPUCalculationResult) :
    List (Σ _ : Int, Int) → (AList fun _ : Int => NumaCalculationResult) × Assembly →
      (AList fun _ : Int => NumaCalculationResult) × Assembly
  | [], st => st
  | ⟨numaID, reclaimSize⟩ :: rest, (results, a) =>
    let overlapSize := R.getPoolOverlapInfo K.poolNameReclaim numaID
    if overlapSize.entries.length = 0 then
      let (h, a) := a.placeFresh (uint64 reclaimSize) numaID K.poolNameReclaim none
      assembleReclaimNumas R rest (results.insert numaID ⟨[h]⟩, a)
    else
      let (r, a) := assembleOverlaps K numaID (σ.range (.overlapPools numaID) overlapSize) (⟨[]⟩, a)
      assembleReclaimNumas R rest (results.insert numaID r, a)

/-- `cpuServer.assemblePoolEntries`. -/
def assemblePoolEntries (R : InternalCPUCalculationResult) (a : Assembly) : Assembly :=
  let a := assemblePools K σ R (σ.range .poolEntries R.poolEntries) a
  match R.poolEntries.lookup K.poolNameReclaim with
  | some reclaimEntries =>
    if R.allowSharedCoresOverlapReclaimedCores then
      let (results, a) :=
        assembleReclaimNumas K σ R (σ.range .reclaimNumas reclaimEntries) (∅, a)
      let poolEntry := poolCalculationEntries K K.poolNameReclaim results
      { a with calculationEntriesMap := a.calculationEntriesMap.insert K.poolNameReclaim poolEntry }
    else a
  | none => a

/-! ## The invariant of the pool phase -/

namespace Assembly

/-- Handle `h` holds a block of size `size` made for pool `poolName` on `numaID`. -/
def IsPoolBlock (a : Assembly) (h : Nat) (poolName : String) (numaID : Int) (size : UInt64) :
    Prop :=
  h < a.heap.length ∧ (a.cell h).block.result = size ∧ (a.cell h).poolName = poolName ∧
    (a.cell h).numaID = numaID ∧ (a.cell h).containerInfo = none

theorem IsPoolBlock.mono {a a' : Assembly} (hext : a.Extends a') {h : Nat} {p : String}
    {n : Int} {size : UInt64} (hb : a.IsPoolBlock h p n size) : a'.IsPoolBlock h p n size := by
  obtain ⟨hh, h₁, h₂, h₃, h₄⟩ := hb
  have hg := hext.grows h hh
  exact ⟨lt_of_lt_of_le hh hext.length_le, hg.result ▸ h₁, hg.poolName ▸ h₂, hg.numaID ▸ h₃,
    hg.containerInfo ▸ h₄⟩

/-- What holds all through the pool phase: the pass's invariant, an id of its own for
every block, and no block made for a container. -/
structure PoolPhaseInv (a : Assembly) : Prop where
  wf : a.WellFormed
  distinct : a.IdsDistinct
  noContainer : ∀ h < a.heap.length, (a.cell h).containerInfo = none

theorem poolPhaseInv_empty : empty.PoolPhaseInv :=
  ⟨wellFormed_empty, idsDistinct_empty, fun _ h => by simp [empty] at h⟩

variable {a : Assembly}

theorem PoolPhaseInv.place (hi : a.PoolPhaseInv) {b : Block} (n : Int) (p : String)
    (blockID : BlockId) (hb : b.overlapTargets = []) (hlt : b.blockId < a.nextId)
    (hnew : ∀ h < a.heap.length, (a.cell h).block.blockId ≠ b.blockId) :
    (a.place b n p none blockID).2.PoolPhaseInv := by
  refine ⟨hi.wf.place n p none hb hlt (.inr hnew), hi.distinct.place n p none blockID hnew,
    fun h hh => ?_⟩
  simp only [length_place] at hh
  rcases Nat.lt_succ_iff_lt_or_eq.1 hh with hh | rfl
  · rw [((extends_place b n p none blockID).grows h hh).containerInfo]
    exact hi.noContainer h hh
  · exact (grows_cell_place b n p none blockID).containerInfo

theorem PoolPhaseInv.bumpId (hi : a.PoolPhaseInv) :
    ({ a with nextId := a.nextId + 1 } : Assembly).PoolPhaseInv :=
  ⟨hi.wf.bumpId, hi.distinct, hi.noContainer⟩

theorem PoolPhaseInv.placeFresh (hi : a.PoolPhaseInv) (size : UInt64) (n : Int) (p : String) :
    (a.placeFresh size n p none).2.PoolPhaseInv :=
  hi.bumpId.place n p a.nextId rfl (Nat.lt_succ_self _) fun h hh => (hi.wf.idLt h hh).ne

theorem PoolPhaseInv.withMap (hi : a.PoolPhaseInv) (m : AList fun _ : String => CalculationEntries) :
    ({ a with calculationEntriesMap := m } : Assembly).PoolPhaseInv :=
  ⟨hi.wf.withMap m, hi.distinct, hi.noContainer⟩

/-- A fresh block placed alone is a pool block of its size. -/
theorem PoolPhaseInv.isPoolBlock_placeFresh (hi : a.PoolPhaseInv) (size : UInt64) (n : Int)
    (p : String) : (a.placeFresh size n p none).2.IsPoolBlock a.heap.length p n size := by
  refine ⟨by simp, ?_⟩
  simp [hi.wf.cell_placeFresh]

end Assembly

open Assembly

/-- `results` holds one block per NUMA node of `entries`, of that node's size and made for
pool `poolName`, and no other result. -/
structure PoolResults (a : Assembly) (poolName : String) (entries : AList fun _ : Int => Int)
    (results : AList fun _ : Int => NumaCalculationResult) : Prop where
  keys : ∀ n, n ∈ results ↔ n ∈ entries
  block : ∀ n size, entries.lookup n = some size →
    ∃ h, results.lookup n = some ⟨[h]⟩ ∧ a.IsPoolBlock h poolName n (uint64 size)

theorem PoolResults.mono {a a' : Assembly} (hext : a.Extends a') {p : String}
    {entries : AList fun _ : Int => Int} {results : AList fun _ : Int => NumaCalculationResult}
    (hr : PoolResults a p entries results) : PoolResults a' p entries results :=
  ⟨hr.keys, fun n size hn => (hr.block n size hn).imp fun _ ⟨h₁, h₂⟩ => ⟨h₁, h₂.mono hext⟩⟩

/-! ## An ordinary pool's NUMA loop -/

section PoolNumas

variable (p : String)

@[simp] theorem assemblePoolNumas_cons (n size : Int) (L : List (Σ _ : Int, Int))
    (results : AList fun _ : Int => NumaCalculationResult) (a : Assembly) :
    assemblePoolNumas p (⟨n, size⟩ :: L) (results, a) =
      assemblePoolNumas p L (results.insert n ⟨[a.heap.length]⟩,
        (a.placeFresh (uint64 size) n p none).2) := rfl

@[simp] theorem calculationEntriesMap_assemblePoolNumas (L : List (Σ _ : Int, Int))
    (results : AList fun _ : Int => NumaCalculationResult) (a : Assembly) :
    (assemblePoolNumas p L (results, a)).2.calculationEntriesMap = a.calculationEntriesMap := by
  induction L generalizing results a with
  | nil => rfl
  | cons e L ih => obtain ⟨n, size⟩ := e; simp [ih]

theorem assemblePoolNumas_inv (L : List (Σ _ : Int, Int))
    (results : AList fun _ : Int => NumaCalculationResult) {a : Assembly}
    (hi : a.PoolPhaseInv) :
    (assemblePoolNumas p L (results, a)).2.PoolPhaseInv ∧
      a.Extends (assemblePoolNumas p L (results, a)).2 := by
  induction L generalizing results a with
  | nil => exact ⟨hi, .refl a⟩
  | cons e L ih =>
    obtain ⟨n, size⟩ := e
    obtain ⟨hi', hext⟩ := ih (results.insert n ⟨[a.heap.length]⟩) (hi.placeFresh (uint64 size) n p)
    exact ⟨hi', (extends_placeFresh _ _ _ _).trans hext⟩

theorem lookup_assemblePoolNumas_of_dlookup_none (L : List (Σ _ : Int, Int))
    (results : AList fun _ : Int => NumaCalculationResult) (a : Assembly) {n : Int}
    (hn : L.dlookup n = none) :
    (assemblePoolNumas p L (results, a)).1.lookup n = results.lookup n := by
  induction L generalizing results a with
  | nil => rfl
  | cons e L ih =>
    obtain ⟨m, size⟩ := e
    have hnm : n ≠ m := fun h => by subst h; simp at hn
    rw [List.dlookup_cons_ne _ _ hnm] at hn
    rw [assemblePoolNumas_cons, ih _ _ hn, AList.lookup_insert_ne hnm]

/-- The NUMA loop gives each NUMA node of the list one fresh block of its size. -/
theorem lookup_assemblePoolNumas_of_dlookup_some (L : List (Σ _ : Int, Int))
    (hL : L.NodupKeys) (results : AList fun _ : Int => NumaCalculationResult) {a : Assembly}
    (hi : a.PoolPhaseInv) {n size : Int} (hn : L.dlookup n = some size) :
    ∃ h, (assemblePoolNumas p L (results, a)).1.lookup n = some ⟨[h]⟩ ∧
      (assemblePoolNumas p L (results, a)).2.IsPoolBlock h p n (uint64 size) := by
  induction L generalizing results a with
  | nil => simp at hn
  | cons e L ih =>
    obtain ⟨m, sz⟩ := e
    rw [List.nodupKeys_cons] at hL
    rw [assemblePoolNumas_cons]
    by_cases hnm : n = m
    · subst hnm
      rw [List.dlookup_cons_eq, Option.some_inj] at hn
      subst hn
      refine ⟨a.heap.length, ?_, ?_⟩
      · rw [lookup_assemblePoolNumas_of_dlookup_none _ _ _ _ (List.dlookup_eq_none.2 hL.1),
          AList.lookup_insert]
      · exact (hi.isPoolBlock_placeFresh _ _ _).mono (assemblePoolNumas_inv p L _ (hi.placeFresh _ _ _)).2
    · rw [List.dlookup_cons_ne _ _ hnm] at hn
      exact ih hL.2 _ (hi.placeFresh _ _ _) hn

/-- The results an ordinary pool's NUMA loop builds from nothing. -/
theorem poolResults_assemblePoolNumas (entries : AList fun _ : Int => Int) {a : Assembly}
    (hi : a.PoolPhaseInv) :
    PoolResults (assemblePoolNumas p (σ.range (.poolNumas p) entries) (∅, a)).2 p entries
      (assemblePoolNumas p (σ.range (.poolNumas p) entries) (∅, a)).1 := by
  refine ⟨fun n => ?_, fun n size hn => ?_⟩
  · rw [← AList.lookup_isSome, ← AList.lookup_isSome]
    cases hn : entries.lookup n with
    | none =>
      rw [lookup_assemblePoolNumas_of_dlookup_none _ _ _ _ (by rwa [σ.dlookup_range])]
      rfl
    | some size =>
      obtain ⟨h, hl, -⟩ := lookup_assemblePoolNumas_of_dlookup_some p (σ.range (.poolNumas p) entries)
        (σ.nodupKeys_range _ _) ∅ hi (by rwa [σ.dlookup_range])
      simp [hl]
  · exact lookup_assemblePoolNumas_of_dlookup_some p (σ.range (.poolNumas p) entries)
      (σ.nodupKeys_range _ _) ∅ hi (by rwa [σ.dlookup_range])

end PoolNumas

/-! ## The loop over the pools -/

section Pools

variable (R : InternalCPUCalculationResult)

theorem assemblePools_cons_of_skip {p : String} (entries : AList fun _ : Int => Int)
    (P : List (Σ _ : String, AList fun _ : Int => Int)) (a : Assembly)
    (hp : p = K.poolNameReclaim ∧ R.allowSharedCoresOverlapReclaimedCores = true) :
    assemblePools K σ R (⟨p, entries⟩ :: P) a = assemblePools K σ R P a := by
  rw [assemblePools, if_pos hp]

theorem assemblePools_cons {p : String} (entries : AList fun _ : Int => Int)
    (P : List (Σ _ : String, AList fun _ : Int => Int)) (a : Assembly)
    (hp : ¬ (p = K.poolNameReclaim ∧ R.allowSharedCoresOverlapReclaimedCores = true)) :
    assemblePools K σ R (⟨p, entries⟩ :: P) a =
      let st := assemblePoolNumas p (σ.range (.poolNumas p) entries) (∅, a)
      assemblePools K σ R P { st.2 with calculationEntriesMap :=
        st.2.calculationEntriesMap.insert p (poolCalculationEntries K p st.1) } := by
  rw [assemblePools, if_neg hp]

theorem assemblePools_inv (P : List (Σ _ : String, AList fun _ : Int => Int)) {a : Assembly}
    (hi : a.PoolPhaseInv) :
    (assemblePools K σ R P a).PoolPhaseInv ∧ a.Extends (assemblePools K σ R P a) := by
  induction P generalizing a with
  | nil => exact ⟨hi, .refl a⟩
  | cons e P ih =>
    obtain ⟨p, entries⟩ := e
    by_cases hp : p = K.poolNameReclaim ∧ R.allowSharedCoresOverlapReclaimedCores = true
    · rw [assemblePools_cons_of_skip K σ R entries P a hp]
      exact ih hi
    · rw [assemblePools_cons K σ R entries P a hp]
      dsimp only
      obtain ⟨hi₁, hext₁⟩ := assemblePoolNumas_inv p (σ.range (.poolNumas p) entries) ∅ hi
      obtain ⟨hi₂, hext₂⟩ := ih (hi₁.withMap _)
      exact ⟨hi₂, hext₁.trans ((extends_withMap _).trans hext₂)⟩

/-- A pool the loop skips or does not visit keeps its entry. -/
theorem lookup_assemblePools_of_skip (P : List (Σ _ : String, AList fun _ : Int => Int))
    (a : Assembly) {p : String}
    (hp : P.dlookup p = none ∨ (p = K.poolNameReclaim ∧ R.allowSharedCoresOverlapReclaimedCores = true)) :
    (assemblePools K σ R P a).calculationEntriesMap.lookup p = a.calculationEntriesMap.lookup p := by
  induction P generalizing a with
  | nil => rfl
  | cons e P ih =>
    obtain ⟨q, entries⟩ := e
    by_cases hq : q = K.poolNameReclaim ∧ R.allowSharedCoresOverlapReclaimedCores = true
    · rw [assemblePools_cons_of_skip K σ R entries P a hq]
      by_cases hpq : p = q
      · subst hpq; exact ih a (.inr hq)
      · exact ih a (by rwa [List.dlookup_cons_ne _ _ hpq] at hp)
    · rw [assemblePools_cons K σ R entries P a hq]
      dsimp only
      have hpq : p ≠ q := by
        rintro rfl
        rcases hp with hp | hp
        · simp at hp
        · exact hq hp
      rw [ih _ (by rwa [List.dlookup_cons_ne _ _ hpq] at hp)]
      simp [AList.lookup_insert_ne hpq]

/-- A pool the loop visits gets an entry holding one block per NUMA node. -/
theorem lookup_assemblePools_of_mem (P : List (Σ _ : String, AList fun _ : Int => Int))
    (hP : P.NodupKeys) {a : Assembly} (hi : a.PoolPhaseInv) {p : String}
    {entries : AList fun _ : Int => Int} (hp : P.dlookup p = some entries)
    (hskip : ¬ (p = K.poolNameReclaim ∧ R.allowSharedCoresOverlapReclaimedCores = true)) :
    ∃ results, (assemblePools K σ R P a).calculationEntriesMap.lookup p =
        some (poolCalculationEntries K p results) ∧
      PoolResults (assemblePools K σ R P a) p entries results := by
  induction P generalizing a with
  | nil => simp at hp
  | cons e P ih =>
    obtain ⟨q, e⟩ := e
    rw [List.nodupKeys_cons] at hP
    by_cases hq : q = K.poolNameReclaim ∧ R.allowSharedCoresOverlapReclaimedCores = true
    · have hpq : p ≠ q := by rintro rfl; exact hskip hq
      rw [assemblePools_cons_of_skip K σ R e P a hq]
      exact ih hP.2 hi (by rwa [List.dlookup_cons_ne _ _ hpq] at hp)
    · rw [assemblePools_cons K σ R e P a hq]
      dsimp only
      obtain ⟨hi₁, -⟩ := assemblePoolNumas_inv q (σ.range (.poolNumas q) e) ∅ hi
      by_cases hpq : p = q
      · subst hpq
        rw [List.dlookup_cons_eq, Option.some_inj] at hp
        subst hp
        refine ⟨_, ?_, (poolResults_assemblePoolNumas σ p _ hi).mono
          ((extends_withMap _).trans (assemblePools_inv K σ R P (by exact hi₁.withMap _)).2)⟩
        rw [lookup_assemblePools_of_skip K σ R P _ (.inl (List.dlookup_eq_none.2 hP.1))]
        exact AList.lookup_insert _
      · exact ih hP.2 (hi₁.withMap _) (by rwa [List.dlookup_cons_ne _ _ hpq] at hp)

end Pools

/-! ## The reclaim pool's overlaps -/

/-- The blocks of entry `poolName`'s faked container on `numaID`: a pool's blocks there. -/
def poolBlocks (m : AList fun _ : String => CalculationEntries) (poolName : String)
    (numaID : Int) : List Nat :=
  ((getNumaCalculationResult m poolName K.fakedContainerName numaID).map (·.blocks)).getD []

/-- Handle `h` holds a block of the reclaim pool on `numaID` of size `size`, joined under the
blocks `targets`. -/
def Assembly.IsReclaimBlock (a : Assembly) (h : Nat) (numaID : Int) (size : UInt64)
    (targets : List Nat) : Prop :=
  a.IsPoolBlock h K.poolNameReclaim numaID size ∧ (a.cell h).block.overlapTargets = targets

section Overlaps

variable {K}

theorem assembleOverlaps_cons_of_poolBlocks {n : Int} {s : String} (size : Int)
    (O : List (Σ _ : String, Int)) (r : NumaCalculationResult) (a : Assembly) {b : Nat}
    (hb : poolBlocks K a.calculationEntriesMap s n = [b]) :
    assembleOverlaps K n (⟨s, size⟩ :: O) (r, a) =
      assembleOverlaps K n O (⟨r.blocks ++ [a.heap.length]⟩,
        (({ a with nextId := a.nextId + 1 } : Assembly).place ⟨uint64 size, [], a.nextId⟩ n
          K.poolNameReclaim none (a.cell b).block.blockId).2) := by
  simp only [poolBlocks] at hb
  cases hg : getNumaCalculationResult a.calculationEntriesMap s K.fakedContainerName n with
  | none => simp [hg] at hb
  | some res =>
    obtain ⟨blocks⟩ := res
    simp only [hg, Option.map_some', Option.getD_some] at hb
    subst hb
    simp only [assembleOverlaps, newBlock]
    rw [show getNumaCalculationResult ({ a with nextId := a.nextId + 1 } : Assembly).calculationEntriesMap
      s K.fakedContainerName n = some ⟨[b]⟩ from hg]
    rfl

theorem assembleOverlaps_cons_of_not {n : Int} {s : String} (size : Int)
    (O : List (Σ _ : String, Int)) (r : NumaCalculationResult) (a : Assembly)
    (hb : (poolBlocks K a.calculationEntriesMap s n).length ≠ 1) :
    assembleOverlaps K n (⟨s, size⟩ :: O) (r, a) =
      assembleOverlaps K n O (r, { a with nextId := a.nextId + 1 }) := by
  simp only [poolBlocks] at hb
  simp only [assembleOverlaps, newBlock]
  rw [show getNumaCalculationResult ({ a with nextId := a.nextId + 1 } : Assembly).calculationEntriesMap
      s K.fakedContainerName n = getNumaCalculationResult a.calculationEntriesMap s
        K.fakedContainerName n from rfl]
  cases hg : getNumaCalculationResult a.calculationEntriesMap s K.fakedContainerName n with
  | none => rfl
  | some res =>
    obtain ⟨blocks⟩ := res
    match blocks, hb with
    | [], _ => rfl
    | _ :: _ :: _, _ => rfl
    | [_], hb => simp [hg] at hb

/-- One overlap: the new block of the reclaim pool is joined under the overlapped pool's
block `b`, which alone gets an overlap target. -/
theorem cell_place_overlap {a : Assembly} (hi : a.PoolPhaseInv) {b : Nat}
    (hb : b < a.heap.length) (n : Int) (size : Int) (h : Nat) :
    (({ a with nextId := a.nextId + 1 } : Assembly).place ⟨uint64 size, [], a.nextId⟩ n
        K.poolNameReclaim none (a.cell b).block.blockId).2.cell h =
      if h = a.heap.length then ⟨⟨uint64 size, [b], a.nextId⟩, n, K.poolNameReclaim, none⟩
      else if h = b then (a.cell b).withTarget a.heap.length else a.cell h := by
  have hl := hi.wf.lookup_cell hi.distinct hb
  rw [cell_place (a := { a with nextId := a.nextId + 1 }) _ _ _ _ _
    (fun t ht => (hi.wf.registered ht).1)]
  have hl' : ({ a with nextId := a.nextId + 1 } : Assembly).blockSet.lookup
      (a.cell b).block.blockId = some b := hl
  simp only [hl', Option.toList_some, List.nil_append, Option.some.injEq]
  by_cases h₁ : h = a.heap.length
  · simp [h₁]
  · by_cases h₂ : h = b
    · subst h₂; simp [h₁]; rfl
    · simp [h₁, h₂, Ne.symm h₂]; rfl

/-- The overlap loop of one NUMA node: the reclaim pool gets, in the order of the list, one
block per listed pool with exactly one block there, of the listed size and joined under
that block; nothing else changes but the overlapped blocks' targets. -/
theorem assembleOverlaps_spec (n : Int) (O : List (Σ _ : String, Int))
    (r₀ : NumaCalculationResult) {a : Assembly} (hi : a.PoolPhaseInv) {B : Nat}
    (hB : B ≤ a.heap.length)
    (hM : ∀ s n h, h ∈ poolBlocks K a.calculationEntriesMap s n → h < B) :
    (assembleOverlaps K n O (r₀, a)).2.PoolPhaseInv ∧
      a.Extends (assembleOverlaps K n O (r₀, a)).2 ∧
      (assembleOverlaps K n O (r₀, a)).2.calculationEntriesMap = a.calculationEntriesMap ∧
      (∀ h, B ≤ h → h < a.heap.length → (assembleOverlaps K n O (r₀, a)).2.cell h = a.cell h) ∧
      ∃ new, (assembleOverlaps K n O (r₀, a)).1.blocks = r₀.blocks ++ new ∧
        List.Forall₂ (fun h (e : Σ _ : String, Int) => a.heap.length ≤ h ∧
          (assembleOverlaps K n O (r₀, a)).2.IsReclaimBlock K h n (uint64 e.2)
            (poolBlocks K a.calculationEntriesMap e.1 n))
          new (O.filter fun e => (poolBlocks K a.calculationEntriesMap e.1 n).length = 1) := by
  induction O generalizing r₀ a with
  | nil => exact ⟨hi, .refl a, rfl, fun _ _ _ => rfl, [], by simp [assembleOverlaps], .nil⟩
  | cons e O ih =>
    obtain ⟨s, size⟩ := e
    by_cases hs : (poolBlocks K a.calculationEntriesMap s n).length = 1
    · obtain ⟨b, hb⟩ := List.length_eq_one.1 hs
      have hbB : b < B := hM s n b (by simp [hb])
      have hbl : b < a.heap.length := lt_of_lt_of_le hbB hB
      rw [assembleOverlaps_cons_of_poolBlocks size O r₀ a hb]
      set a₁ := (({ a with nextId := a.nextId + 1 } : Assembly).place ⟨uint64 size, [], a.nextId⟩ n
          K.poolNameReclaim none (a.cell b).block.blockId).2 with ha₁
      have hcell := cell_place_overlap (K := K) hi hbl n size
      have hi₁ : a₁.PoolPhaseInv :=
        hi.bumpId.place n _ _ rfl (Nat.lt_succ_self _) fun h hh => (hi.wf.idLt h hh).ne
      have hext₁ : a.Extends a₁ := extends_bumpId.trans (extends_place _ _ _ _ _)
      have hlen : a₁.heap.length = a.heap.length + 1 := by simp [a₁]
      have hmap : a₁.calculationEntriesMap = a.calculationEntriesMap := by simp [a₁]
      obtain ⟨hi', hext', hmap', hframe', new, hnew, hall⟩ :=
        ih ⟨r₀.blocks ++ [a.heap.length]⟩ hi₁ (by omega) (by rwa [hmap])
      rw [hmap] at hmap' hall
      refine ⟨hi', hext₁.trans hext', hmap', fun h hBh hh => ?_, a.heap.length :: new,
        by simp [hnew], ?_⟩
      · rw [hframe' h hBh (by omega), ha₁, hcell, if_neg (by omega), if_neg (by omega)]
      · rw [List.filter_cons_of_pos (by simpa using hs)]
        refine .cons ⟨le_rfl, ?_⟩ (hall.imp fun h e ⟨hle, hr⟩ => ⟨by omega, hr⟩)
        have hkeep := hframe' a.heap.length (by omega) (by omega)
        have hfix : a₁.IsReclaimBlock K a.heap.length n (uint64 size) [b] := by
          refine ⟨⟨by omega, ?_⟩, ?_⟩ <;> simp [ha₁, hcell]
        rw [hb]
        exact ⟨hfix.1.mono hext', by rw [hkeep]; exact hfix.2⟩
    · rw [assembleOverlaps_cons_of_not size O r₀ a hs]
      obtain ⟨hi', hext', hmap', hframe', new, hnew, hall⟩ := ih r₀ hi.bumpId hB hM
      refine ⟨hi', extends_bumpId.trans hext', hmap', hframe', new, hnew, ?_⟩
      rw [List.filter_cons_of_neg (by simpa using hs)]
      exact hall

end Overlaps

/-! ## The reclaim pool's NUMA loop in overlap mode -/

section ReclaimNumas

variable (R : InternalCPUCalculationResult)

/-- What the reclaim pool's result on `numaID` of size `size` holds in overlap mode, given the
map `M` of the other pools: one block standing alone when no overlap is given, and otherwise,
in some order, one block per overlapped pool with one block there, of the overlap's size and
joined under that block. -/
def ReclaimResult (M : AList fun _ : String => CalculationEntries) (a : Assembly)
    (numaID : Int) (size : Int) (r : NumaCalculationResult) : Prop :=
  if (R.getPoolOverlapInfo K.poolNameReclaim numaID).entries.length = 0 then
    ∃ h, r.blocks = [h] ∧ a.IsReclaimBlock K h numaID (uint64 size) []
  else
    ∃ O, O.Perm ((R.getPoolOverlapInfo K.poolNameReclaim numaID).entries.filter
        fun e => (poolBlocks K M e.1 numaID).length = 1) ∧
      List.Forall₂ (fun h (e : Σ _ : String, Int) =>
        a.IsReclaimBlock K h numaID (uint64 e.2) (poolBlocks K M e.1 numaID)) r.blocks O

variable {K}

theorem Assembly.IsReclaimBlock.transfer {a a' : Assembly} {h : Nat} {n : Int} {size : UInt64}
    {targets : List Nat} (hb : a.IsReclaimBlock K h n size targets)
    (hlen : a.heap.length ≤ a'.heap.length) (hcell : a'.cell h = a.cell h) :
    a'.IsReclaimBlock K h n size targets := by
  obtain ⟨⟨hh, h₁, h₂, h₃, h₄⟩, h₅⟩ := hb
  exact ⟨⟨lt_of_lt_of_le hh hlen, hcell ▸ h₁, hcell ▸ h₂, hcell ▸ h₃, hcell ▸ h₄⟩, hcell ▸ h₅⟩

variable {R} in
theorem ReclaimResult.transfer {M : AList fun _ : String => CalculationEntries}
    {a a' : Assembly} {n size : Int} {r : NumaCalculationResult} {B : Nat}
    (hr : ReclaimResult K R M a n size r) (hrB : ∀ h ∈ r.blocks, B ≤ h)
    (hlen : a.heap.length ≤ a'.heap.length)
    (hframe : ∀ h, B ≤ h → h < a.heap.length → a'.cell h = a.cell h) :
    ReclaimResult K R M a' n size r := by
  have hmove : ∀ {h size targets}, B ≤ h → a.IsReclaimBlock K h n size targets →
      a'.IsReclaimBlock K h n size targets := fun hBh hb =>
    hb.transfer hlen (hframe _ hBh hb.1.1)
  unfold ReclaimResult at hr ⊢
  split_ifs at hr ⊢
  · obtain ⟨h, hr, hb⟩ := hr
    exact ⟨h, hr, hmove (hrB h (by simp [hr])) hb⟩
  · obtain ⟨O, hO, hall⟩ := hr
    exact ⟨O, hO, ((List.forall₂_and_left _ _).2 ⟨hrB, hall⟩).imp fun _ _ h => hmove h.1 h.2⟩

variable (K) in
theorem assembleReclaimNumas_cons (n size : Int) (N : List (Σ _ : Int, Int))
    (results : AList fun _ : Int => NumaCalculationResult) (a : Assembly) :
    assembleReclaimNumas K σ R (⟨n, size⟩ :: N) (results, a) =
      if (R.getPoolOverlapInfo K.poolNameReclaim n).entries.length = 0 then
        assembleReclaimNumas K σ R N (results.insert n ⟨[a.heap.length]⟩,
          (a.placeFresh (uint64 size) n K.poolNameReclaim none).2)
      else
        let st := assembleOverlaps K n
          (σ.range (.overlapPools n) (R.getPoolOverlapInfo K.poolNameReclaim n)) (⟨[]⟩, a)
        assembleReclaimNumas K σ R N (results.insert n st.1, st.2) := by
  rw [assembleReclaimNumas]
  split_ifs <;> rfl

variable (K) in
@[simp] theorem calculationEntriesMap_assembleOverlaps (n : Int) (O : List (Σ _ : String, Int))
    (r : NumaCalculationResult) (a : Assembly) :
    (assembleOverlaps K n O (r, a)).2.calculationEntriesMap = a.calculationEntriesMap := by
  induction O generalizing r a with
  | nil => rfl
  | cons e O ih =>
    obtain ⟨s, size⟩ := e
    by_cases hs : (poolBlocks K a.calculationEntriesMap s n).length = 1
    · obtain ⟨b, hb⟩ := List.length_eq_one.1 hs
      rw [assembleOverlaps_cons_of_poolBlocks size O r a hb, ih]
      simp
    · rw [assembleOverlaps_cons_of_not size O r a hs, ih]

theorem lookup_assembleReclaimNumas_of_dlookup_none (N : List (Σ _ : Int, Int))
    (results : AList fun _ : Int => NumaCalculationResult) (a : Assembly) {n : Int}
    (hn : N.dlookup n = none) :
    (assembleReclaimNumas K σ R N (results, a)).1.lookup n = results.lookup n := by
  induction N generalizing results a with
  | nil => rfl
  | cons e N ih =>
    obtain ⟨m, size⟩ := e
    have hnm : n ≠ m := fun h => by subst h; simp at hn
    rw [List.dlookup_cons_ne _ _ hnm] at hn
    rw [assembleReclaimNumas_cons]
    split_ifs <;> rw [ih _ _ hn, AList.lookup_insert_ne hnm]

variable (K) in
/-- What the overlap phase does on one node `m` of size `sz`, from `a` to `a₁` with result
`r`: blocks from `B` on and the map stay, the result holds new blocks, and it is what
`ReclaimResult` says. -/
structure ReclaimStep (B : Nat) (a a₁ : Assembly) (m sz : Int) (r : NumaCalculationResult) :
    Prop where
  inv : a₁.PoolPhaseInv
  ext : a.Extends a₁
  map : a₁.calculationEntriesMap = a.calculationEntriesMap
  frame : ∀ h, B ≤ h → h < a.heap.length → a₁.cell h = a.cell h
  fresh : ∀ h ∈ r.blocks, a.heap.length ≤ h
  result : ReclaimResult K R a.calculationEntriesMap a₁ m sz r

/-- One node of the overlap phase: a block standing alone when no overlap is given, and
otherwise one block per overlapped pool. -/
theorem assembleReclaimNumas_step (m sz : Int) (N : List (Σ _ : Int, Int))
    (results : AList fun _ : Int => NumaCalculationResult) {a : Assembly}
    (hi : a.PoolPhaseInv) {B : Nat} (hB : B ≤ a.heap.length)
    (hM : ∀ s n h, h ∈ poolBlocks K a.calculationEntriesMap s n → h < B) :
    ∃ r a₁, assembleReclaimNumas K σ R (⟨m, sz⟩ :: N) (results, a) =
      assembleReclaimNumas K σ R N (results.insert m r, a₁) ∧ ReclaimStep K R B a a₁ m sz r := by
  rw [assembleReclaimNumas_cons]
  split_ifs with hov
  · -- no overlap given: the reclaim pool's block stands alone
    have hcell := hi.wf.cell_placeFresh (uint64 sz) m K.poolNameReclaim none
    refine ⟨_, _, rfl, hi.placeFresh _ _ _, extends_placeFresh _ _ _ _, by simp,
      fun h _ hh => by rw [hcell, if_neg (by omega)], by simp, ?_⟩
    rw [ReclaimResult, if_pos hov]
    exact ⟨_, rfl, ⟨⟨by simp, by simp [hcell]⟩, by simp [hcell]⟩⟩
  · -- overlaps given: one block per overlapped pool
    obtain ⟨hi₁, hext₁, hmap₁, hframe₁, new, hnew, hall⟩ :=
      assembleOverlaps_spec m
        (σ.range (.overlapPools m) (R.getPoolOverlapInfo K.poolNameReclaim m)) ⟨[]⟩ hi hB hM
    obtain ⟨hge, hall⟩ := (List.forall₂_and_left _ _).1 hall
    rw [List.nil_append] at hnew
    refine ⟨_, _, rfl, hi₁, hext₁, hmap₁, hframe₁, by rw [hnew]; exact hge, ?_⟩
    rw [ReclaimResult, if_neg hov, hnew]
    exact ⟨_, (σ.perm _ _).filter _, hall⟩

/-- The reclaim pool's NUMA loop in overlap mode, over the map `M` the ordinary pools left. -/
theorem assembleReclaimNumas_spec (N : List (Σ _ : Int, Int)) (hN : N.NodupKeys)
    (results : AList fun _ : Int => NumaCalculationResult) {a : Assembly}
    (hi : a.PoolPhaseInv) {B : Nat} (hB : B ≤ a.heap.length)
    (hM : ∀ s n h, h ∈ poolBlocks K a.calculationEntriesMap s n → h < B) :
    (assembleReclaimNumas K σ R N (results, a)).2.PoolPhaseInv ∧
      a.Extends (assembleReclaimNumas K σ R N (results, a)).2 ∧
      (assembleReclaimNumas K σ R N (results, a)).2.calculationEntriesMap =
        a.calculationEntriesMap ∧
      (∀ h, B ≤ h → h < a.heap.length →
        (assembleReclaimNumas K σ R N (results, a)).2.cell h = a.cell h) ∧
      ∀ n size, N.dlookup n = some size →
        ∃ r, (assembleReclaimNumas K σ R N (results, a)).1.lookup n = some r ∧
          (∀ h ∈ r.blocks, a.heap.length ≤ h) ∧
          ReclaimResult K R a.calculationEntriesMap (assembleReclaimNumas K σ R N (results, a)).2
            n size r := by
  induction N generalizing results a with
  | nil => exact ⟨hi, .refl a, rfl, fun _ _ _ => rfl, fun _ _ h => by simp at h⟩
  | cons e N ih =>
    obtain ⟨m, sz⟩ := e
    rw [List.nodupKeys_cons] at hN
    obtain ⟨r, a₁, heq, hstep⟩ := assembleReclaimNumas_step σ R m sz N results hi hB hM
    rw [heq]
    obtain ⟨hi', hext', hmap', hframe', hres'⟩ := ih hN.2 (results.insert m r) hstep.inv
      (hB.trans hstep.ext.length_le) (by rwa [hstep.map])
    rw [hstep.map] at hmap' hres'
    refine ⟨hi', hstep.ext.trans hext', hmap', fun h hBh hh => ?_, fun n size hn => ?_⟩
    · rw [hframe' h hBh (lt_of_lt_of_le hh hstep.ext.length_le), hstep.frame h hBh hh]
    · by_cases hnm : n = m
      · -- the node of this step: later steps leave its result and its blocks alone
        subst hnm
        rw [List.dlookup_cons_eq, Option.some_inj] at hn
        subst hn
        refine ⟨r, ?_, hstep.fresh, hstep.result.transfer
          (fun h hh => hB.trans (hstep.fresh h hh)) hext'.length_le hframe'⟩
        rw [lookup_assembleReclaimNumas_of_dlookup_none σ R _ _ _ (List.dlookup_eq_none.2 hN.1),
          AList.lookup_insert]
      · rw [List.dlookup_cons_ne _ _ hnm] at hn
        obtain ⟨r', hl, hge, hr⟩ := hres' n size hn
        exact ⟨r', hl, fun h hh => le_trans hstep.ext.length_le (hge h hh), hr⟩

end ReclaimNumas

/-! ## What the pool phase builds -/

theorem lookup_singleton_self {α : Type} [DecidableEq α] {β : α → Type} (x : α) (y : β x) :
    (AList.singleton x y).lookup x = some y := by
  rw [← AList.insert_empty, AList.lookup_insert]

theorem getNumaCalculationResult_of_lookup {m : AList fun _ : String => CalculationEntries}
    {p : String} {results : AList fun _ : Int => NumaCalculationResult}
    (h : m.lookup p = some (poolCalculationEntries K p results)) (n : Int) :
    getNumaCalculationResult m p K.fakedContainerName n = results.lookup n := by
  simp [getNumaCalculationResult, h, poolCalculationEntries, lookup_singleton_self]

theorem poolBlocks_of_lookup {m : AList fun _ : String => CalculationEntries}
    {p : String} {results : AList fun _ : Int => NumaCalculationResult}
    (h : m.lookup p = some (poolCalculationEntries K p results)) (n : Int) :
    poolBlocks K m p n = ((results.lookup n).map (·.blocks)).getD [] := by
  rw [poolBlocks, getNumaCalculationResult_of_lookup K h]

theorem poolBlocks_of_lookup_none {m : AList fun _ : String => CalculationEntries}
    {p : String} (h : m.lookup p = none) (n : Int) : poolBlocks K m p n = [] := by
  simp [poolBlocks, getNumaCalculationResult, h]

/-- Whether, in overlap mode, the reclaim pool's blocks on `numaID` may overlap pool
`poolName`: a pool of the result other than the reclaim pool, with a size on that node. -/
def overlapsPool (R : InternalCPUCalculationResult) (poolName : String) (numaID : Int) : Bool :=
  decide (poolName ≠ K.poolNameReclaim) &&
    (R.poolEntries.lookup poolName).any fun entries => decide (numaID ∈ entries)

section Phase

variable (R : InternalCPUCalculationResult)

/-- What the loop over the pools builds from an empty state. -/
theorem assemblePools_empty :
    (assemblePools K σ R (σ.range .poolEntries R.poolEntries) .empty).PoolPhaseInv ∧
      (∀ p, (R.poolEntries.lookup p = none ∨
          (p = K.poolNameReclaim ∧ R.allowSharedCoresOverlapReclaimedCores = true)) →
        (assemblePools K σ R (σ.range .poolEntries R.poolEntries) .empty).calculationEntriesMap.lookup p
          = none) ∧
      ∀ p entries, R.poolEntries.lookup p = some entries →
        ¬ (p = K.poolNameReclaim ∧ R.allowSharedCoresOverlapReclaimedCores = true) →
        ∃ results,
          (assemblePools K σ R (σ.range .poolEntries R.poolEntries) .empty).calculationEntriesMap.lookup p
            = some (poolCalculationEntries K p results) ∧
          PoolResults (assemblePools K σ R (σ.range .poolEntries R.poolEntries) .empty) p entries
            results :=
  ⟨(assemblePools_inv K σ R _ poolPhaseInv_empty).1,
    fun p hp => by
      rw [lookup_assemblePools_of_skip K σ R _ _ (by rwa [σ.dlookup_range])]; rfl,
    fun p entries hp hskip => lookup_assemblePools_of_mem K σ R _ (σ.nodupKeys_range _ _)
      poolPhaseInv_empty (by rwa [σ.dlookup_range]) hskip⟩

/-- Every block a pool entry holds after the loop over the pools is one of its blocks. -/
theorem poolBlocks_assemblePools_lt (s : String) (n : Int) (h : Nat)
    (hh : h ∈ poolBlocks K (assemblePools K σ R (σ.range .poolEntries R.poolEntries) .empty).calculationEntriesMap s n) :
    h < (assemblePools K σ R (σ.range .poolEntries R.poolEntries) .empty).heap.length := by
  obtain ⟨-, hnone, hsome⟩ := assemblePools_empty K σ R
  by_cases hskip : R.poolEntries.lookup s = none ∨
      (s = K.poolNameReclaim ∧ R.allowSharedCoresOverlapReclaimedCores = true)
  · simp [poolBlocks_of_lookup_none K (hnone s hskip)] at hh
  · push_neg at hskip
    obtain ⟨entries, he⟩ := Option.ne_none_iff_exists'.1 hskip.1
    obtain ⟨results, hl, hr⟩ := hsome s entries he (fun h => hskip.2 h.1 h.2)
    rw [poolBlocks_of_lookup K hl] at hh
    cases hn : entries.lookup n with
    | none =>
      have : results.lookup n = none := by
        rw [AList.lookup_eq_none, hr.keys, ← AList.lookup_eq_none, hn]
      simp [this] at hh
    | some size =>
      obtain ⟨h', hl', hb⟩ := hr.block n size hn
      simp only [hl', Option.map_some', Option.getD_some, List.mem_singleton] at hh
      exact hh ▸ hb.1

/-- In overlap mode, a pool has exactly one block on a NUMA node after the loop over the
pools exactly when the reclaim pool may overlap it there. -/
theorem poolBlocks_assemblePools_length (hflag : R.allowSharedCoresOverlapReclaimedCores = true)
    (s : String) (n : Int) :
    (poolBlocks K (assemblePools K σ R (σ.range .poolEntries R.poolEntries) .empty).calculationEntriesMap
      s n).length = 1 ↔ overlapsPool K R s n = true := by
  obtain ⟨-, hnone, hsome⟩ := assemblePools_empty K σ R
  by_cases hs : s = K.poolNameReclaim
  · rw [poolBlocks_of_lookup_none K (hnone s (.inr ⟨hs, hflag⟩))]
    simp [overlapsPool, hs]
  cases he : R.poolEntries.lookup s with
  | none => simp [poolBlocks_of_lookup_none K (hnone s (.inl he)), overlapsPool, he]
  | some entries =>
    obtain ⟨results, hl, hr⟩ := hsome s entries he (fun h => hs h.1)
    rw [poolBlocks_of_lookup K hl]
    simp only [overlapsPool, hs, he, Option.any_some, ne_eq, not_false_eq_true, decide_True,
      Bool.true_and, decide_eq_true_eq]
    cases hn : entries.lookup n with
    | none =>
      have : results.lookup n = none := by
        rw [AList.lookup_eq_none, hr.keys, ← AList.lookup_eq_none, hn]
      simp [this, ← AList.lookup_eq_none, hn]
    | some size =>
      obtain ⟨h', hl', -⟩ := hr.block n size hn
      simp [hl', ← AList.lookup_isSome, hn]

end Phase

theorem map_eq_map_of_forall₂ {α β γ : Type} {f : α → γ} {g : β → γ} {l : List α} {u : List β}
    (h : List.Forall₂ (fun x y => f x = g y) l u) : l.map f = u.map g := by
  rw [← List.forall₂_eq_eq_eq, List.forall₂_map_left_iff, List.forall₂_map_right_iff]
  exact h

theorem exists_of_forall₂_of_mem {α β : Type} {r : α → β → Prop} {l : List α} {u : List β}
    (h : List.Forall₂ r l u) {x : α} (hx : x ∈ l) : ∃ y ∈ u, r x y := by
  induction h with
  | nil => simp at hx
  | cons hxy _ ih =>
    rcases List.mem_cons.1 hx with rfl | hx
    · exact ⟨_, List.mem_cons_self _ _, hxy⟩
    · obtain ⟨y, hy, h⟩ := ih hx
      exact ⟨y, List.mem_cons_of_mem _ hy, h⟩

/-- What the reclaim pool's result on `numaID` of size `size` holds in overlap mode: one
block standing alone when no overlap is given, and otherwise, in some order, one block per
pool it may overlap there, of the overlap's size and joined under that pool's block. -/
def ReclaimBlocks (R : InternalCPUCalculationResult) (a : Assembly) (numaID : Int) (size : Int)
    (r : NumaCalculationResult) : Prop :=
  if (R.getPoolOverlapInfo K.poolNameReclaim numaID).entries.length = 0 then
    ∃ h, r.blocks = [h] ∧ a.IsReclaimBlock K h numaID (uint64 size) []
  else
    ∃ O, O.Perm ((R.getPoolOverlapInfo K.poolNameReclaim numaID).entries.filter
        fun e => overlapsPool K R e.1 numaID) ∧
      List.Forall₂ (fun h (e : Σ _ : String, Int) => a.IsReclaimBlock K h numaID (uint64 e.2)
        (poolBlocks K a.calculationEntriesMap e.1 numaID)) r.blocks O

/-- The overlap phase's result on a node, read against the map the pool phase ends with: the
pools the reclaim pool overlaps are ordinary pools, whose entries the overlap phase leaves
as the ordinary pools' phase made them. -/
theorem reclaimBlocks_of_reclaimResult (R : InternalCPUCalculationResult)
    (hflag : R.allowSharedCoresOverlapReclaimedCores = true) {a : Assembly}
    (hlook : ∀ p, p ≠ K.poolNameReclaim → a.calculationEntriesMap.lookup p =
      (assemblePools K σ R (σ.range .poolEntries R.poolEntries) .empty).calculationEntriesMap.lookup p)
    {n size : Int} {r : NumaCalculationResult}
    (hr : ReclaimResult K R
      (assemblePools K σ R (σ.range .poolEntries R.poolEntries) .empty).calculationEntriesMap a n
      size r) :
    ReclaimBlocks K R a n size r := by
  unfold ReclaimResult at hr
  unfold ReclaimBlocks
  split_ifs at hr ⊢ with hov
  · exact hr
  · obtain ⟨O, hO, hall⟩ := hr
    have hfilter : ((R.getPoolOverlapInfo K.poolNameReclaim n).entries.filter fun e =>
        (poolBlocks K (assemblePools K σ R (σ.range .poolEntries R.poolEntries)
          .empty).calculationEntriesMap e.1 n).length = 1) =
        (R.getPoolOverlapInfo K.poolNameReclaim n).entries.filter
          fun e => overlapsPool K R e.1 n :=
      List.filter_congr fun x _ => by simp [poolBlocks_assemblePools_length K σ R hflag x.1 n]
    rw [hfilter] at hO
    refine ⟨O, hO, ?_⟩
    -- the overlapped pools are not the reclaim pool, whose entry alone changed
    have hO' : ∀ e ∈ O, e.1 ≠ K.poolNameReclaim := fun e he => by
      have := (List.mem_filter.1 (hO.subset he)).2
      simp only [overlapsPool, Bool.and_eq_true, decide_eq_true_eq] at this
      exact this.1
    refine (((List.forall₂_and_left _ _).2 ⟨hO', hall.flip⟩).flip).imp fun h e hb => ?_
    simp only [flip] at hb
    rw [show poolBlocks K a.calculationEntriesMap e.1 n = poolBlocks K
        (assemblePools K σ R (σ.range .poolEntries R.poolEntries) .empty).calculationEntriesMap
        e.1 n by simp only [poolBlocks, getNumaCalculationResult, hlook _ hb.1]]
    exact hb.2

/-- What `assemblePoolEntries` builds from the empty state `assembleResponse` starts with,
for every order of every map it ranges over. -/
theorem assemblePoolEntries_spec (R : InternalCPUCalculationResult) :
    let a := assemblePoolEntries K σ R .empty
    a.PoolPhaseInv ∧
    (∀ p, p ∈ a.calculationEntriesMap ↔ p ∈ R.poolEntries) ∧
    (∀ p entries, R.poolEntries.lookup p = some entries →
      ¬ (p = K.poolNameReclaim ∧ R.allowSharedCoresOverlapReclaimedCores = true) →
      ∃ results, a.calculationEntriesMap.lookup p = some (poolCalculationEntries K p results) ∧
        PoolResults a p entries results) ∧
    (∀ entries, R.poolEntries.lookup K.poolNameReclaim = some entries →
      R.allowSharedCoresOverlapReclaimedCores = true →
      ∃ results, a.calculationEntriesMap.lookup K.poolNameReclaim =
          some (poolCalculationEntries K K.poolNameReclaim results) ∧
        (∀ n, n ∈ results ↔ n ∈ entries) ∧
        ∀ n size, entries.lookup n = some size → ∃ r, results.lookup n = some r ∧
          ReclaimBlocks K R a n size r) := by
  intro a
  obtain ⟨hi₁, hnone, hsome⟩ := assemblePools_empty K σ R
  set a₁ := assemblePools K σ R (σ.range .poolEntries R.poolEntries) .empty with ha₁
  -- the ordinary pools, whatever happens to the reclaim pool afterwards
  have hmem₁ : ∀ p, p ∈ a₁.calculationEntriesMap ↔ p ∈ R.poolEntries ∧
      ¬ (p = K.poolNameReclaim ∧ R.allowSharedCoresOverlapReclaimedCores = true) := fun p => by
    by_cases hskip : p = K.poolNameReclaim ∧ R.allowSharedCoresOverlapReclaimedCores = true
    · exact iff_of_false (AList.lookup_eq_none.1 (hnone p (.inr hskip))) fun h => h.2 hskip
    rw [← AList.lookup_isSome, ← AList.lookup_isSome]
    cases he : R.poolEntries.lookup p with
    | none => simp [hnone p (.inl he)]
    | some entries => obtain ⟨_, hl, -⟩ := hsome p entries he hskip; simp [hl, hskip]
  cases hrec : R.poolEntries.lookup K.poolNameReclaim with
  | none =>
    have ha : a = a₁ := by simp only [a, assemblePoolEntries, ← ha₁, hrec]
    rw [ha]
    refine ⟨hi₁, fun p => ?_, hsome, fun _ h => by simp at h⟩
    rw [hmem₁]
    by_cases hp : p = K.poolNameReclaim
    · subst hp; simp [← AList.lookup_isSome, hrec]
    · simp [hp]
  | some entries =>
    cases hflag : R.allowSharedCoresOverlapReclaimedCores with
    | false =>
      have ha : a = a₁ := by simp only [a, assemblePoolEntries, ← ha₁, hrec, hflag]; rfl
      rw [ha]
      exact ⟨hi₁, fun p => by simp [hmem₁, hflag], fun p e he _ => hsome p e he (by simp [hflag]),
        fun _ _ h => by simp at h⟩
    | true =>
      set st := assembleReclaimNumas K σ R (σ.range .reclaimNumas entries) (∅, a₁) with hst
      have ha : a = { st.2 with
          calculationEntriesMap := st.2.calculationEntriesMap.insert K.poolNameReclaim
            (poolCalculationEntries K K.poolNameReclaim st.1) } := by
        simp only [a, assemblePoolEntries, ← ha₁, hrec, hflag, if_true]
      obtain ⟨hi₂, hext₂, hmap₂, -, hres₂⟩ := assembleReclaimNumas_spec σ R
        (σ.range .reclaimNumas entries) (σ.nodupKeys_range _ _) ∅ hi₁ le_rfl
        (poolBlocks_assemblePools_lt K σ R)
      have hext : a₁.Extends a := ha ▸ hext₂.trans (extends_withMap _)
      have hlook : ∀ p, p ≠ K.poolNameReclaim →
          a.calculationEntriesMap.lookup p = a₁.calculationEntriesMap.lookup p := fun p hp => by
        rw [ha]
        exact (AList.lookup_insert_ne hp).trans (by rw [hmap₂])
      refine ⟨by rw [ha]; exact hi₂.withMap _, fun p => ?_, fun p e he hskip => ?_,
        fun e he _ => ?_⟩
      · -- the pools of the result, the reclaim pool last
        by_cases hp : p = K.poolNameReclaim
        · subst hp
          rw [ha]
          simp [AList.mem_insert, ← AList.lookup_isSome, hrec]
        · rw [← AList.lookup_isSome, hlook p hp, AList.lookup_isSome, hmem₁]
          simp [hp]
      · -- an ordinary pool
        have hp : p ≠ K.poolNameReclaim := fun h => hskip ⟨h, rfl⟩
        obtain ⟨results, hl, hr⟩ := hsome p e he (by simp [hflag, hp])
        exact ⟨results, by rw [hlook p hp, hl], hr.mono hext⟩
      · -- the reclaim pool
        rw [Option.some_inj] at he
        subst he
        refine ⟨st.1, by rw [ha]; exact AList.lookup_insert _, fun n => ?_, fun n size hn => ?_⟩
        · rw [← AList.lookup_isSome, ← AList.lookup_isSome]
          cases hn : entries.lookup n with
          | none =>
            rw [lookup_assembleReclaimNumas_of_dlookup_none σ R _ _ _ (by rwa [σ.dlookup_range])]
            rfl
          | some size =>
            obtain ⟨r, hl, -⟩ := hres₂ n size (by rwa [σ.dlookup_range])
            simp [hl]
        obtain ⟨r, hl, -, hr⟩ := hres₂ n size (by rwa [σ.dlookup_range])
        exact ⟨r, hl, reclaimBlocks_of_reclaimResult K σ R hflag hlook
          (ha ▸ hr.transfer (B := 0) (fun _ _ => Nat.zero_le _) le_rfl fun _ _ _ => rfl)⟩

/-- Pool entries, for every order of every map `assemblePoolEntries` ranges over, from the
empty state `assembleResponse` starts with: an entry for exactly the pools of the result;
for an ordinary pool, its faked container's results hold, for exactly the NUMA nodes the
result sizes the pool on, one block of that size; for the reclaim pool in overlap mode, on
each of its NUMA nodes, one block of its size standing alone when no overlap is given, and
otherwise one block per pool it may overlap there, of the overlap's size and joined under
that pool's block, in some order; and no two blocks share an id. -/
theorem assemblePoolEntries_blocks (R : InternalCPUCalculationResult) :
    let a := assemblePoolEntries K σ R .empty
    (∀ p, p ∈ a.calculationEntriesMap ↔ p ∈ R.poolEntries) ∧
    (∀ p entries, R.poolEntries.lookup p = some entries →
      ¬ (p = K.poolNameReclaim ∧ R.allowSharedCoresOverlapReclaimedCores = true) →
      ∃ results, a.calculationEntriesMap.lookup p = some (poolCalculationEntries K p results) ∧
        PoolResults a p entries results) ∧
    (∀ entries, R.poolEntries.lookup K.poolNameReclaim = some entries →
      R.allowSharedCoresOverlapReclaimedCores = true →
      ∃ results, a.calculationEntriesMap.lookup K.poolNameReclaim =
          some (poolCalculationEntries K K.poolNameReclaim results) ∧
        (∀ n, n ∈ results ↔ n ∈ entries) ∧
        ∀ n size, entries.lookup n = some size → ∃ r, results.lookup n = some r ∧
          if (R.getPoolOverlapInfo K.poolNameReclaim n).entries.length = 0 then
            ∃ h, r.blocks = [h] ∧ (a.cell h).block.result = uint64 size
          else
            (r.blocks.map fun h => ((a.cell h).block.result, (a.cell h).block.overlapTargets)).Perm
              (((R.getPoolOverlapInfo K.poolNameReclaim n).entries.filter
                  fun e => overlapsPool K R e.1 n).map
                fun e => (uint64 e.2, poolBlocks K a.calculationEntriesMap e.1 n))) ∧
    a.IdsDistinct := by
  intro a
  obtain ⟨hi, hkeys, hpools, hreclaim⟩ := assemblePoolEntries_spec K σ R
  refine ⟨hkeys, hpools, fun entries he hflag => ?_, hi.distinct⟩
  obtain ⟨results, hl, hk, hr⟩ := hreclaim entries he hflag
  refine ⟨results, hl, hk, fun n size hn => ?_⟩
  obtain ⟨r, hrl, hb⟩ := hr n size hn
  refine ⟨r, hrl, ?_⟩
  unfold ReclaimBlocks at hb
  split_ifs at hb ⊢
  · obtain ⟨h, hh, hb⟩ := hb
    exact ⟨h, hh, hb.1.2.1⟩
  · obtain ⟨O, hO, hall⟩ := hb
    rw [map_eq_map_of_forall₂
      (f := fun h => ((a.cell h).block.result, (a.cell h).block.overlapTargets))
      (g := fun e => (uint64 e.2, poolBlocks K a.calculationEntriesMap e.1 n))
      (hall.imp fun h e hb => Prod.ext hb.1.2.1 hb.2)]
    exact hO.map _

end CpuServer

import CpuServer.Types

/-!
# Blocks, and the state of one assembly pass

`cpuadvisor.Block` and the wire records that hold blocks (`NumaCalculationResult`,
`CalculationInfo`, `CalculationEntries`), and the state that `assembleResponse` threads
through `assemblePoolEntries` and `assemblePodEntries` (`cpu_server.go` lines 220-233):
the map of calculation entries, the blocks made so far, and the block set.

POINTERS.  The source handles blocks by pointer: one block sits both in a
`NumaCalculationResult` and in its `internalBlock`, and `join` changes blocks that results
already hold.  So the blocks of a pass live in a heap of internal blocks: a handle is a
position, a new internal block goes at the end, nothing is freed, and a result holds
handles.  The other records are values: nothing writes through a pointer to them after
they are stored.

MODELLED FROM THE SPEC.  `NewBlock`, `NewInnerBlock`, `internalBlock.join`, `NewBlockSet`,
`NewPoolCalculationEntries` and `getNumaCalculationResult` are not under src/.  `join`
follows the contract of the spec's block model: the target id is resolved in the block
set; a block found there and the joining block become each other's overlap targets; the
joining block is registered under its own id.  The target is resolved before the
registration, so a block joined under its own fresh id stands alone.  A fresh id is the
next value of a counter: the ids need only be distinct.

THE INVARIANT.  `WellFormed` says what holds between any two steps of a pass: the block
set points at blocks of the id it files them under, every block is registered, a block
with no overlap target is the one registered under its id, and no id reaches the counter.
Placing a block keeps it (`WellFormed.place`, and `WellFormed.placeFresh` for a fresh one).
-/

set_option autoImplicit false

namespace CpuServer

/-- A block id.  The source's ids are strings and `NewBlock` draws fresh ones; here they
are numbers drawn from a counter. -/
abbrev BlockId := Nat

/-- `cpuadvisor.Block`: a size, the blocks it overlaps (as handles) and its id. -/
structure Block where
  result : UInt64
  overlapTargets : List Nat
  blockId : BlockId
  deriving DecidableEq, Repr, Inhabited

/-- `cpuadvisor.NumaCalculationResult`: the blocks of one NUMA node, as handles. -/
structure NumaCalculationResult where
  blocks : List Nat
  deriving DecidableEq, Repr

/-- `cpuadvisor.CalculationInfo`: the pool a pool or container entry publishes, and its
blocks per NUMA node. -/
structure CalculationInfo where
  ownerPoolName : String
  calculationResultsByNumas : AList fun _ : Int => NumaCalculationResult

/-- `cpuadvisor.CalculationEntries`: the entries of one pool or pod, keyed by container
name (a pool's under `Consts.fakedContainerName`). -/
structure CalculationEntries where
  entries : AList fun _ : String => CalculationInfo

/-- `internalBlock`: a block with the NUMA node and the pool or container it was made for.
Its pointer back to the result that holds it is left out: nothing reads it. -/
structure InternalBlock where
  block : Block
  numaID : Int
  poolName : String
  containerInfo : Option ContainerInfo
  deriving Inhabited

/-- The state of one pass of `assembleResponse`. -/
structure Assembly where
  calculationEntriesMap : AList fun _ : String => CalculationEntries
  heap : List InternalBlock
  blockSet : AList fun _ : BlockId => Nat
  nextId : Nat

/-- Go's `uint64(x)` of an `int`: the two's complement wrap. -/
def uint64 (x : Int) : UInt64 := UInt64.ofNat (x % 2 ^ 64).toNat

/-- Modelled from the spec: `NewPoolCalculationEntries(poolName)`, with the map of NUMA
results that the pool's loop fills: one entry, under the faked container name. -/
def poolCalculationEntries (K : Consts) (poolName : String)
    (results : AList fun _ : Int => NumaCalculationResult) : CalculationEntries :=
  ⟨AList.singleton K.fakedContainerName ⟨poolName, results⟩⟩

/-- Modelled from the spec: `getNumaCalculationResult`, the result of sub-entry
`subEntryName` of entry `entryName` on `numaID`, if there is one. -/
def getNumaCalculationResult (m : AList fun _ : String => CalculationEntries)
    (entryName subEntryName : String) (numaID : Int) : Option NumaCalculationResult := do
  let entries ← m.lookup entryName
  let entry ← entries.entries.lookup subEntryName
  entry.calculationResultsByNumas.lookup numaID

theorem getNumaCalculationResult_insert (m : AList fun _ : String => CalculationEntries)
    (u : String) (entries : CalculationEntries) (e c : String) (n : Int) :
    getNumaCalculationResult (m.insert u entries) e c n =
      if e = u then (entries.entries.lookup c).bind (·.calculationResultsByNumas.lookup n)
      else getNumaCalculationResult m e c n := by
  by_cases he : e = u
  · subst he; simp [getNumaCalculationResult, AList.lookup_insert]
  · simp [getNumaCalculationResult, AList.lookup_insert_ne he, he]

/-- The block with one more overlap target. -/
def InternalBlock.withTarget (ib : InternalBlock) (t : Nat) : InternalBlock :=
  { ib with block := { ib.block with overlapTargets := ib.block.overlapTargets ++ [t] } }

/-- `ib'` is `ib` with more overlap targets. -/
def InternalBlock.Grows (ib ib' : InternalBlock) : Prop :=
  ∃ extra, ib' = { ib with block := { ib.block with overlapTargets := ib.block.overlapTargets ++ extra } }

namespace InternalBlock

variable {ib ib' ib'' : InternalBlock}

@[refl] theorem Grows.refl (ib : InternalBlock) : ib.Grows ib := ⟨[], by simp⟩

theorem Grows.trans (h₁ : ib.Grows ib') (h₂ : ib'.Grows ib'') : ib.Grows ib'' := by
  obtain ⟨e₁, rfl⟩ := h₁
  obtain ⟨e₂, rfl⟩ := h₂
  exact ⟨e₁ ++ e₂, by simp⟩

theorem grows_withTarget (ib : InternalBlock) (t : Nat) : ib.Grows (ib.withTarget t) :=
  ⟨[t], rfl⟩

theorem Grows.blockId (h : ib.Grows ib') : ib'.block.blockId = ib.block.blockId := by
  obtain ⟨_, rfl⟩ := h; rfl

theorem Grows.result (h : ib.Grows ib') : ib'.block.result = ib.block.result := by
  obtain ⟨_, rfl⟩ := h; rfl

theorem Grows.poolName (h : ib.Grows ib') : ib'.poolName = ib.poolName := by
  obtain ⟨_, rfl⟩ := h; rfl

theorem Grows.numaID (h : ib.Grows ib') : ib'.numaID = ib.numaID := by
  obtain ⟨_, rfl⟩ := h; rfl

theorem Grows.containerInfo (h : ib.Grows ib') : ib'.containerInfo = ib.containerInfo := by
  obtain ⟨_, rfl⟩ := h; rfl

theorem Grows.targets (h : ib.Grows ib') :
    ib.block.overlapTargets <+: ib'.block.overlapTargets := by
  obtain ⟨e, rfl⟩ := h; exact List.prefix_append _ _

end InternalBlock

namespace Assembly

/-- An empty map and `NewBlockSet()`. -/
def empty : Assembly := ⟨∅, [], ∅, 0⟩

/-- The internal block behind a handle. -/
def cell (a : Assembly) (h : Nat) : InternalBlock := a.heap[h]?.getD default

/-- Modelled from the spec: `NewBlock(size, blockID)`; `none` is the empty id, for which a
fresh one is drawn. -/
def newBlock (a : Assembly) (size : UInt64) : Option BlockId → Block × Assembly
  | some blockID => (⟨size, [], blockID⟩, a)
  | none => (⟨size, [], a.nextId⟩, { a with nextId := a.nextId + 1 })

/-- Modelled from the spec: `NewInnerBlock`; returns the new block's handle. -/
def newInnerBlock (a : Assembly) (block : Block) (numaID : Int) (poolName : String)
    (ci : Option ContainerInfo) : Nat × Assembly :=
  (a.heap.length, { a with heap := a.heap ++ [⟨block, numaID, poolName, ci⟩] })

/-- Appends `t` to the overlap targets of the block behind `h`. -/
def addOverlapTarget (a : Assembly) (h t : Nat) : Assembly :=
  { a with heap := a.heap.modify (·.withTarget t) h }

/-- Modelled from the spec: `internalBlock.join(blockID, bs)` for the internal block
behind `h`. -/
def join (a : Assembly) (h : Nat) (blockID : BlockId) : Assembly :=
  let linked := match a.blockSet.lookup blockID with
    | some t => (a.addOverlapTarget h t).addOverlapTarget t h
    | none => a
  { linked with blockSet := linked.blockSet.insert (a.cell h).block.blockId h }

/-- `NewInnerBlock` for `block`, then `join(blockID)`: the two calls that place every block
of a pass. -/
def place (a : Assembly) (block : Block) (numaID : Int) (poolName : String)
    (ci : Option ContainerInfo) (blockID : BlockId) : Nat × Assembly :=
  let (h, a) := a.newInnerBlock block numaID poolName ci
  (h, a.join h blockID)

/-- `NewBlock(size, "")`, `NewInnerBlock` and `join(block.BlockId)`: a fresh block that
stands alone.  The source writes these three lines out in each of its three places. -/
def placeFresh (a : Assembly) (size : UInt64) (numaID : Int) (poolName : String)
    (ci : Option ContainerInfo) : Nat × Assembly :=
  let (block, a) := a.newBlock size none
  a.place block numaID poolName ci block.blockId

/-! ## What each step does to the heap -/

variable {a : Assembly}

theorem cell_eq_default {h : Nat} (hh : a.heap.length ≤ h) : a.cell h = default := by
  simp [cell, List.getElem?_eq_none hh]

@[simp] theorem fst_newInnerBlock (b : Block) (n : Int) (p : String)
    (ci : Option ContainerInfo) : (a.newInnerBlock b n p ci).1 = a.heap.length := rfl

@[simp] theorem cell_newInnerBlock (b : Block) (n : Int) (p : String)
    (ci : Option ContainerInfo) (h : Nat) :
    (a.newInnerBlock b n p ci).2.cell h =
      if h < a.heap.length then a.cell h
      else if h = a.heap.length then ⟨b, n, p, ci⟩ else default := by
  simp only [cell, newInnerBlock]
  split_ifs with h₁ h₂
  · rw [List.getElem?_append_left h₁]
  · subst h₂; simp
  · rw [List.getElem?_append_right (by omega), List.getElem?_eq_none (by simp; omega)]
    simp

@[simp] theorem length_newInnerBlock (b : Block) (n : Int) (p : String)
    (ci : Option ContainerInfo) :
    (a.newInnerBlock b n p ci).2.heap.length = a.heap.length + 1 := by
  simp [newInnerBlock]

theorem cell_addOverlapTarget (h t h' : Nat) :
    (a.addOverlapTarget h t).cell h' =
      if h' = h ∧ h < a.heap.length then (a.cell h).withTarget t else a.cell h' := by
  simp only [cell, addOverlapTarget, List.getElem?_modify]
  by_cases hh : h' = h
  · subst hh
    by_cases hl : h' < a.heap.length
    · simp [List.getElem?_eq_getElem hl, hl]
    · simp [List.getElem?_eq_none (not_lt.1 hl), hl]
  · simp [Ne.symm hh, hh]

@[simp] theorem length_addOverlapTarget (h t : Nat) :
    (a.addOverlapTarget h t).heap.length = a.heap.length := by
  simp [addOverlapTarget]

theorem cell_join (h h' : Nat) (blockID : BlockId) :
    (a.join h blockID).cell h' =
      match a.blockSet.lookup blockID with
      | some t => ((a.addOverlapTarget h t).addOverlapTarget t h).cell h'
      | none => a.cell h' := by
  simp only [join]
  split <;> rfl

@[simp] theorem length_join (h : Nat) (blockID : BlockId) :
    (a.join h blockID).heap.length = a.heap.length := by
  simp only [join]
  split <;> simp

theorem blockSet_join (h : Nat) (blockID : BlockId) :
    (a.join h blockID).blockSet = a.blockSet.insert (a.cell h).block.blockId h := by
  simp only [join]
  split <;> rfl

@[simp] theorem calculationEntriesMap_join (h : Nat) (blockID : BlockId) :
    (a.join h blockID).calculationEntriesMap = a.calculationEntriesMap := by
  simp only [join]
  split <;> rfl

@[simp] theorem nextId_join (h : Nat) (blockID : BlockId) :
    (a.join h blockID).nextId = a.nextId := by
  simp only [join]
  split <;> rfl

@[simp] theorem fst_place (b : Block) (n : Int) (p : String) (ci : Option ContainerInfo)
    (blockID : BlockId) : (a.place b n p ci blockID).1 = a.heap.length := rfl

@[simp] theorem calculationEntriesMap_place (b : Block) (n : Int) (p : String)
    (ci : Option ContainerInfo) (blockID : BlockId) :
    (a.place b n p ci blockID).2.calculationEntriesMap = a.calculationEntriesMap := by
  simp [place, newInnerBlock]

@[simp] theorem nextId_place (b : Block) (n : Int) (p : String)
    (ci : Option ContainerInfo) (blockID : BlockId) :
    (a.place b n p ci blockID).2.nextId = a.nextId := by
  simp [place, newInnerBlock]

@[simp] theorem length_place (b : Block) (n : Int) (p : String)
    (ci : Option ContainerInfo) (blockID : BlockId) :
    (a.place b n p ci blockID).2.heap.length = a.heap.length + 1 := by
  simp [place]

theorem blockSet_place (b : Block) (n : Int) (p : String)
    (ci : Option ContainerInfo) (blockID : BlockId) :
    (a.place b n p ci blockID).2.blockSet = a.blockSet.insert b.blockId a.heap.length := by
  simp [place, blockSet_join, newInnerBlock, cell]

/-- What placing a block does to the heap, when the block set points into it: the new
block gets the block `blockID` resolves to as its one overlap target, and that block gets
the new one. -/
theorem cell_place (b : Block) (n : Int) (p : String) (ci : Option ContainerInfo)
    (blockID : BlockId) (hin : ∀ t, a.blockSet.lookup blockID = some t → t < a.heap.length)
    (h : Nat) :
    (a.place b n p ci blockID).2.cell h =
      if h = a.heap.length then
        ⟨{ b with overlapTargets := b.overlapTargets ++ (a.blockSet.lookup blockID).toList },
          n, p, ci⟩
      else if a.blockSet.lookup blockID = some h then (a.cell h).withTarget a.heap.length
      else a.cell h := by
  simp only [place]
  rw [cell_join]
  have hnew : (a.newInnerBlock b n p ci).2.blockSet = a.blockSet := rfl
  rw [hnew]
  cases hl : a.blockSet.lookup blockID with
  | none =>
    simp only [cell_newInnerBlock, Option.toList_none, List.append_nil, reduceCtorEq, if_false]
    split_ifs with h₁ h₂ h₃ <;> first | rfl | omega | exact (cell_eq_default (by omega)).symm
  | some t =>
    have ht := hin t hl
    simp only [cell_addOverlapTarget, cell_newInnerBlock, length_addOverlapTarget,
      length_newInnerBlock, fst_newInnerBlock, Option.toList_some, Option.some.injEq]
    have ht' : t < a.heap.length + 1 := by omega
    by_cases h₁ : h = a.heap.length
    · subst h₁
      simp [ht.ne', ht, InternalBlock.withTarget]
    · by_cases h₂ : t = h
      · subst h₂; simp [h₁, ht, ht']
      · simp only [h₁, h₂, Ne.symm h₂, false_and, if_false]
        split_ifs <;> first | rfl | omega | exact (cell_eq_default (by omega)).symm

@[simp] theorem calculationEntriesMap_placeFresh (size : UInt64) (n : Int) (p : String)
    (ci : Option ContainerInfo) :
    (a.placeFresh size n p ci).2.calculationEntriesMap = a.calculationEntriesMap := by
  simp [placeFresh, newBlock]

@[simp] theorem fst_placeFresh (size : UInt64) (n : Int) (p : String)
    (ci : Option ContainerInfo) : (a.placeFresh size n p ci).1 = a.heap.length := rfl

@[simp] theorem length_placeFresh (size : UInt64) (n : Int) (p : String)
    (ci : Option ContainerInfo) :
    (a.placeFresh size n p ci).2.heap.length = a.heap.length + 1 := by
  simp [placeFresh, newBlock]

@[simp] theorem nextId_placeFresh (size : UInt64) (n : Int) (p : String)
    (ci : Option ContainerInfo) : (a.placeFresh size n p ci).2.nextId = a.nextId + 1 := by
  simp [placeFresh, newBlock]

/-! ## Later in the same pass

A block, once placed, keeps its size, id, NUMA node and owner; its overlap targets only
grow.  `Extends a a'` says that of every block of `a`. -/

/-- `a'` is `a` later in the same pass. -/
structure Extends (a a' : Assembly) : Prop where
  length_le : a.heap.length ≤ a'.heap.length
  grows : ∀ h < a.heap.length, (a.cell h).Grows (a'.cell h)

@[refl] theorem Extends.refl (a : Assembly) : a.Extends a :=
  ⟨le_rfl, fun _ _ => InternalBlock.Grows.refl _⟩

theorem Extends.trans {a' a'' : Assembly} (h₁ : a.Extends a') (h₂ : a'.Extends a'') :
    a.Extends a'' :=
  ⟨h₁.length_le.trans h₂.length_le,
    fun h hh => (h₁.grows h hh).trans (h₂.grows h (lt_of_lt_of_le hh h₁.length_le))⟩

theorem extends_of_heap_eq {a' : Assembly} (h : a'.heap = a.heap) : a.Extends a' :=
  ⟨h ▸ le_rfl, fun i _ => by simp only [cell, h]; exact InternalBlock.Grows.refl _⟩

theorem extends_bumpId : a.Extends { a with nextId := a.nextId + 1 } := extends_of_heap_eq rfl

theorem extends_withMap (m : AList fun _ : String => CalculationEntries) :
    a.Extends { a with calculationEntriesMap := m } := extends_of_heap_eq rfl

theorem extends_addOverlapTarget (h t : Nat) : a.Extends (a.addOverlapTarget h t) := by
  refine ⟨by simp, fun i _ => ?_⟩
  rw [cell_addOverlapTarget]
  split_ifs with hi
  · rw [hi.1]; exact InternalBlock.grows_withTarget _ _
  · exact InternalBlock.Grows.refl _

theorem extends_newInnerBlock (b : Block) (n : Int) (p : String) (ci : Option ContainerInfo) :
    a.Extends (a.newInnerBlock b n p ci).2 :=
  ⟨by simp, fun i hi => by
    simp only [cell_newInnerBlock, if_pos hi]; exact InternalBlock.Grows.refl _⟩

theorem extends_join (h : Nat) (blockID : BlockId) : a.Extends (a.join h blockID) := by
  have hcell : ∀ i, (a.join h blockID).cell i = (match a.blockSet.lookup blockID with
      | some t => (a.addOverlapTarget h t).addOverlapTarget t h
      | none => a).cell i := fun i => by rw [cell_join]; split <;> rfl
  refine ⟨by simp, fun i hi => ?_⟩
  rw [hcell]
  split
  · exact ((extends_addOverlapTarget h _).trans (extends_addOverlapTarget _ h)).grows i hi
  · exact InternalBlock.Grows.refl _

theorem extends_place (b : Block) (n : Int) (p : String) (ci : Option ContainerInfo)
    (blockID : BlockId) : a.Extends (a.place b n p ci blockID).2 :=
  (extends_newInnerBlock b n p ci).trans (extends_join _ _)

theorem extends_placeFresh (size : UInt64) (n : Int) (p : String) (ci : Option ContainerInfo) :
    a.Extends (a.placeFresh size n p ci).2 :=
  extends_bumpId.trans (extends_place _ _ _ _ _)

/-! ## The invariant of a pass -/

/-- What holds of the block set and the heap between any two steps of a pass. -/
structure WellFormed (a : Assembly) : Prop where
  /-- the block set files a block under the block's own id -/
  registered : ∀ {id t}, a.blockSet.lookup id = some t →
    t < a.heap.length ∧ (a.cell t).block.blockId = id
  /-- every block is registered -/
  filed : ∀ h < a.heap.length, (a.cell h).block.blockId ∈ a.blockSet
  /-- a block with no overlap target is the block registered under its id -/
  unlinked : ∀ h < a.heap.length, (a.cell h).block.overlapTargets = [] →
    a.blockSet.lookup (a.cell h).block.blockId = some h
  /-- the counter is above every id -/
  idLt : ∀ h < a.heap.length, (a.cell h).block.blockId < a.nextId
  /-- overlap targets are blocks of the heap -/
  targetLt : ∀ h < a.heap.length, ∀ t ∈ (a.cell h).block.overlapTargets, t < a.heap.length

theorem wellFormed_empty : empty.WellFormed :=
  ⟨fun h => by simp [empty] at h, fun _ h => by simp [empty] at h,
    fun _ h => by simp [empty] at h, fun _ h => by simp [empty] at h,
    fun _ h => by simp [empty] at h⟩

theorem WellFormed.lookup_nextId (hw : a.WellFormed) : a.blockSet.lookup a.nextId = none := by
  cases hl : a.blockSet.lookup a.nextId with
  | none => rfl
  | some t =>
    obtain ⟨ht, hid⟩ := hw.registered hl
    exact absurd (hid ▸ hw.idLt t ht) (lt_irrefl _)

/-- Placing a block keeps the invariant, if the block has no overlap target yet, its id is
below the counter, and it is joined under its own id or its id is new. -/
theorem WellFormed.place (hw : a.WellFormed) {b : Block} (n : Int) (p : String)
    (ci : Option ContainerInfo) {blockID : BlockId} (hb : b.overlapTargets = [])
    (hlt : b.blockId < a.nextId)
    (hnew : b.blockId = blockID ∨ ∀ h < a.heap.length, (a.cell h).block.blockId ≠ b.blockId) :
    (a.place b n p ci blockID).2.WellFormed := by
  have hin : ∀ t, a.blockSet.lookup blockID = some t → t < a.heap.length :=
    fun t ht => (hw.registered ht).1
  have hcell := cell_place b n p ci blockID hin
  have hset := blockSet_place (a := a) b n p ci blockID
  -- every old block keeps its id
  have hid : ∀ h < a.heap.length, ((a.place b n p ci blockID).2.cell h).block.blockId =
      (a.cell h).block.blockId := fun h hh =>
    ((extends_place b n p ci blockID).grows h hh).blockId
  refine ⟨fun {id t} hl => ?_, fun h hh => ?_, fun h hh ht => ?_, fun h hh => ?_,
    fun h hh t ht => ?_⟩
  · -- registered
    rw [hset] at hl
    simp only [length_place]
    by_cases hib : id = b.blockId
    · subst hib
      rw [AList.lookup_insert, Option.some_inj] at hl
      subst hl
      simp [hcell]
    · rw [AList.lookup_insert_ne hib] at hl
      obtain ⟨ht, hid'⟩ := hw.registered hl
      exact ⟨by omega, by rw [hid t ht, hid']⟩
  · -- filed
    rw [hset, AList.mem_insert]
    simp only [length_place] at hh
    rcases Nat.lt_succ_iff_lt_or_eq.1 hh with hh | rfl
    · exact .inr (by rw [hid h hh]; exact hw.filed h hh)
    · exact .inl (by simp [hcell])
  · -- unlinked
    simp only [length_place] at hh
    rw [hset]
    rcases Nat.lt_succ_iff_lt_or_eq.1 hh with hh | rfl
    · rw [hid h hh]
      by_cases hlink : a.blockSet.lookup blockID = some h
      · simp [hcell, hh.ne, hlink, InternalBlock.withTarget] at ht
      · have hold : (a.cell h).block.overlapTargets = [] := by
          simpa [hcell, hh.ne, hlink] using ht
        have hreg := hw.unlinked h hh hold
        rw [AList.lookup_insert_ne]
        · exact hreg
        · intro heq
          rcases hnew with hX | hfresh
          · rw [← hX, ← heq] at hlink; exact hlink hreg
          · exact hfresh h hh heq
    · rw [hcell, if_pos rfl]
      exact AList.lookup_insert _
  · -- idLt
    simp only [length_place, nextId_place] at hh ⊢
    rcases Nat.lt_succ_iff_lt_or_eq.1 hh with hh | rfl
    · rw [hid h hh]; exact hw.idLt h hh
    · simpa [hcell] using hlt
  · -- targetLt
    simp only [length_place] at hh ⊢
    rcases Nat.lt_succ_iff_lt_or_eq.1 hh with hh | rfl
    · by_cases hlink : a.blockSet.lookup blockID = some h
      · simp only [hcell, hh.ne, hlink, if_false, if_true, InternalBlock.withTarget,
          List.mem_append, List.mem_singleton] at ht
        rcases ht with ht | rfl
        · exact Nat.lt_succ_of_lt (hw.targetLt h hh t ht)
        · exact Nat.lt_succ_self _
      · simp only [hcell, hh.ne, hlink, if_false] at ht
        exact Nat.lt_succ_of_lt (hw.targetLt h hh t ht)
    · simp only [hcell, if_true, hb, List.nil_append] at ht
      exact Nat.lt_succ_of_lt (hin t (Option.mem_toList.1 ht))

theorem WellFormed.bumpId (hw : a.WellFormed) : ({ a with nextId := a.nextId + 1 }).WellFormed :=
  ⟨hw.registered, hw.filed, hw.unlinked, fun h hh => Nat.lt_succ_of_lt (hw.idLt h hh),
    hw.targetLt⟩

theorem WellFormed.withMap (hw : a.WellFormed) (m : AList fun _ : String => CalculationEntries) :
    ({ a with calculationEntriesMap := m } : Assembly).WellFormed :=
  ⟨hw.registered, hw.filed, hw.unlinked, hw.idLt, hw.targetLt⟩

theorem WellFormed.placeFresh (hw : a.WellFormed) (size : UInt64) (n : Int) (p : String)
    (ci : Option ContainerInfo) : (a.placeFresh size n p ci).2.WellFormed :=
  hw.bumpId.place n p ci rfl (Nat.lt_succ_self _) (.inl rfl)

/-- A block placed fresh stands alone, and leaves every other block as it was. -/
theorem WellFormed.cell_placeFresh (hw : a.WellFormed) (size : UInt64) (n : Int) (p : String)
    (ci : Option ContainerInfo) (h : Nat) :
    (a.placeFresh size n p ci).2.cell h =
      if h = a.heap.length then ⟨⟨size, [], a.nextId⟩, n, p, ci⟩ else a.cell h := by
  have hw' := hw.bumpId
  have hnone : a.blockSet.lookup a.nextId = none := hw.lookup_nextId
  show (({ a with nextId := a.nextId + 1 } : Assembly).place ⟨size, [], a.nextId⟩ n p ci
    a.nextId).2.cell h = _
  rw [cell_place _ _ _ _ _ (fun t ht => (hw'.registered ht).1)]
  simp only [hnone, Option.toList_none, List.append_nil, reduceCtorEq, if_false]
  rfl


/-- The block placed last is the one given, with the overlap target its join found. -/
theorem grows_cell_place (b : Block) (n : Int) (p : String) (ci : Option ContainerInfo)
    (blockID : BlockId) :
    (⟨b, n, p, ci⟩ : InternalBlock).Grows ((a.place b n p ci blockID).2.cell a.heap.length) := by
  have h := (extends_join (a := (a.newInnerBlock b n p ci).2) a.heap.length blockID).grows
    a.heap.length (by simp)
  simpa using h

theorem heap_place_of_lookup_none {b : Block} {n : Int} {p : String}
    {ci : Option ContainerInfo} {blockID : BlockId} (hX : a.blockSet.lookup blockID = none) :
    (a.place b n p ci blockID).2.heap = a.heap ++ [⟨b, n, p, ci⟩] := by
  have hX' : (a.newInnerBlock b n p ci).2.blockSet.lookup blockID = none := hX
  simp only [place, join, hX']
  rfl

/-- A fresh block is appended, and changes no other block. -/
theorem WellFormed.heap_placeFresh (hw : a.WellFormed) (size : UInt64) (n : Int) (p : String)
    (ci : Option ContainerInfo) :
    (a.placeFresh size n p ci).2.heap = a.heap ++ [⟨⟨size, [], a.nextId⟩, n, p, ci⟩] :=
  heap_place_of_lookup_none (a := { a with nextId := a.nextId + 1 }) hw.lookup_nextId

/-! ## Distinct ids

Until a sidecar copies a block, every block of a pass has an id of its own, and the block
set resolves a block's id to the block itself. -/

/-- No two blocks share an id. -/
def IdsDistinct (a : Assembly) : Prop :=
  ∀ h₁ < a.heap.length, ∀ h₂ < a.heap.length,
    (a.cell h₁).block.blockId = (a.cell h₂).block.blockId → h₁ = h₂

theorem idsDistinct_empty : empty.IdsDistinct := fun _ h => by simp [empty] at h

theorem WellFormed.lookup_cell (hw : a.WellFormed) (hd : a.IdsDistinct) {h : Nat}
    (hh : h < a.heap.length) : a.blockSet.lookup (a.cell h).block.blockId = some h := by
  obtain ⟨t, ht⟩ := Option.isSome_iff_exists.1 (AList.lookup_isSome.2 (hw.filed h hh))
  obtain ⟨htl, hid⟩ := hw.registered ht
  rw [ht, hd t htl h hh hid]

/-- Placing a block whose id no block has keeps the ids distinct. -/
theorem IdsDistinct.place (hd : a.IdsDistinct) {b : Block} (n : Int) (p : String)
    (ci : Option ContainerInfo) (blockID : BlockId)
    (hfresh : ∀ h < a.heap.length, (a.cell h).block.blockId ≠ b.blockId) :
    (a.place b n p ci blockID).2.IdsDistinct := by
  have hold := (extends_place (a := a) b n p ci blockID).grows
  have hnew := (grows_cell_place (a := a) b n p ci blockID).blockId
  intro h₁ hh₁ h₂ hh₂ heq
  simp only [length_place] at hh₁ hh₂
  rcases Nat.lt_succ_iff_lt_or_eq.1 hh₁ with hh₁ | rfl <;>
    rcases Nat.lt_succ_iff_lt_or_eq.1 hh₂ with hh₂ | rfl
  · rw [(hold h₁ hh₁).blockId, (hold h₂ hh₂).blockId] at heq
    exact hd h₁ hh₁ h₂ hh₂ heq
  · rw [(hold h₁ hh₁).blockId, hnew] at heq
    exact absurd heq (hfresh h₁ hh₁)
  · rw [(hold h₂ hh₂).blockId, hnew] at heq
    exact absurd heq.symm (hfresh h₂ hh₂)
  · rfl

theorem WellFormed.idsDistinct_placeFresh (hw : a.WellFormed) (hd : a.IdsDistinct)
    (size : UInt64) (n : Int) (p : String) (ci : Option ContainerInfo) :
    (a.placeFresh size n p ci).2.IdsDistinct :=
  IdsDistinct.place (a := { a with nextId := a.nextId + 1 }) hd n p ci a.nextId
    fun h hh => (hw.idLt h hh).ne

end Assembly

end CpuServer

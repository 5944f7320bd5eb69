import CpuServer.PodEntries
import CpuServer.MetaCache

/-!
# The response (`assembleResponse`, `assembleHeadroom`)

`cpuServer.assembleResponse` and `cpuServer.assembleHeadroom` (`cpu_server.go` lines
220-300): pool entries, then an entry for every container of the cache, then the advisor's
extra entries merged by cgroup path, and last the per-NUMA headroom entry, under the empty
cgroup path, when the headroom manager answers.

The headroom manager and the JSON encoding are collaborators outside src/
(`HeadroomSource`); the encoder is given the allocatable value of each NUMA node and
covers the source's conversion to cores.
-/

set_option autoImplicit false

namespace CpuServer

variable (K : Consts) (σ : Schedule)

/-- `cpuadvisor.ListAndWatchResponse`.  The blocks the entries' handles point at are
`blocks`, by position. -/
structure ListAndWatchResponse where
  entries : AList fun _ : String => CalculationEntries
  blocks : List Block
  extraEntries : List ExtraEntry
  allowSharedCoresOverlapReclaimedCores : Bool

/-- The collaborators `assembleHeadroom` calls: the headroom manager's
`GetNumaAllocatable` (the value of each NUMA node's quantity) and `json.Marshal` of the
headroom map built from it. -/
structure HeadroomSource where
  getNumaAllocatable : Except String (AList fun _ : Int => Int)
  marshal : (AList fun _ : Int => Int) → Except String String

/-- `cpuServer.assembleHeadroom`: `nil` when either collaborator fails. -/
def assembleHeadroom (hs : HeadroomSource) : Option ExtraEntry :=
  match hs.getNumaAllocatable with
  | .error _ => none
  | .ok numaAllocatable =>
    match hs.marshal numaAllocatable with
    | .error _ => none
    | .ok data => some ⟨"", AList.singleton K.controlKnobKeyCPUNUMAHeadroom data⟩

/-- Lines 242-262 for the advisor's extra entry `retEntry` at position `i`: its values are
written over those of the first entry with the same cgroup path, or a copy of it is
appended when there is none. -/
def mergeExtraEntry (i : Nat) (retEntry : ExtraEntry) : List ExtraEntry → List ExtraEntry
  | [] => [⟨retEntry.cgroupPath, retEntry.values⟩]
  | respEntry :: rest =>
    if retEntry.cgroupPath = respEntry.cgroupPath then
      ⟨respEntry.cgroupPath, (σ.range (.extraEntryValues i) retEntry.values).foldl
        (fun values kv => values.insert kv.1 kv.2) respEntry.values⟩ :: rest
    else respEntry :: mergeExtraEntry i retEntry rest

/-- The loop of lines 242-262 over the advisor's extra entries, from position `i`. -/
def assembleExtraEntries : Nat → List ExtraEntry → List ExtraEntry → List ExtraEntry
  | _, [], respEntries => respEntries
  | i, retEntry :: rest, respEntries =>
    assembleExtraEntries (i + 1) rest (mergeExtraEntry σ i retEntry respEntries)

/-- The pool and container entries of `assembleResponse` (lines 221-233), with the blocks
they point at. -/
def assembleBlocks (R : InternalCPUCalculationResult) (mc : MetaCache) : Assembly :=
  assembleContainers K σ (σ.range .containers mc.podEntries) (assemblePoolEntries K σ R .empty)

/-- `cpuServer.assembleResponse`. -/
def assembleResponse (R : InternalCPUCalculationResult) (mc : MetaCache)
    (hs : HeadroomSource) : ListAndWatchResponse :=
  let a := assembleBlocks K σ R mc
  { entries := a.calculationEntriesMap
    blocks := a.heap.map (·.block)
    extraEntries := assembleExtraEntries σ 0 R.extraEntries [] ++ (assembleHeadroom K hs).toList
    allowSharedCoresOverlapReclaimedCores := R.allowSharedCoresOverlapReclaimedCores }

@[simp] theorem entries_assembleResponse (R : InternalCPUCalculationResult) (mc : MetaCache)
    (hs : HeadroomSource) :
    (assembleResponse K σ R mc hs).entries = (assembleBlocks K σ R mc).calculationEntriesMap := rfl

/-- The id and the size of the block a handle of the response points at. -/
def ListAndWatchResponse.blockView (resp : ListAndWatchResponse) (h : Nat) : BlockId × UInt64 :=
  ((resp.blocks.getD h default).blockId, (resp.blocks.getD h default).result)

theorem blockView_assembleResponse (R : InternalCPUCalculationResult) (mc : MetaCache)
    (hs : HeadroomSource) :
    (assembleResponse K σ R mc hs).blockView = (assembleBlocks K σ R mc).blockView := by
  funext h
  simp only [ListAndWatchResponse.blockView, assembleResponse, Assembly.blockView, Assembly.cell,
    List.getD_eq_getElem?_getD, List.getElem?_map]
  cases (assembleBlocks K σ R mc).heap[h]? <;> rfl

/-! ## Cgroup paths of the extra entries -/

section ExtraEntries

variable {σ}

/-- Merging an extra entry adds its cgroup path when no entry has it, and changes no path
otherwise. -/
theorem cgroupPaths_mergeExtraEntry (i : Nat) (retEntry : ExtraEntry) (l : List ExtraEntry) :
    (mergeExtraEntry σ i retEntry l).map (·.cgroupPath) =
      if retEntry.cgroupPath ∈ l.map (·.cgroupPath) then l.map (·.cgroupPath)
      else l.map (·.cgroupPath) ++ [retEntry.cgroupPath] := by
  induction l with
  | nil => simp [mergeExtraEntry]
  | cons respEntry rest ih =>
    by_cases h : retEntry.cgroupPath = respEntry.cgroupPath
    · simp [mergeExtraEntry, h]
    · rw [mergeExtraEntry, if_neg h, List.map_cons, ih]
      simp only [List.map_cons, List.mem_cons, h, false_or]
      split_ifs <;> rfl

theorem nodup_cgroupPaths_mergeExtraEntry (i : Nat) (retEntry : ExtraEntry) {l : List ExtraEntry}
    (hl : (l.map (·.cgroupPath)).Nodup) :
    ((mergeExtraEntry σ i retEntry l).map (·.cgroupPath)).Nodup := by
  rw [cgroupPaths_mergeExtraEntry]
  split_ifs with h
  · exact hl
  · exact hl.append (List.nodup_singleton _) (List.disjoint_singleton.2 h)

/-- The merged extra entries have one entry per cgroup path: those of the entries merged
so far and of the advisor's extra entries still to merge. -/
theorem assembleExtraEntries_cgroupPaths (i : Nat) (L acc : List ExtraEntry)
    (hacc : (acc.map (·.cgroupPath)).Nodup) :
    ((assembleExtraEntries σ i L acc).map (·.cgroupPath)).Nodup ∧
      ∀ p, p ∈ (assembleExtraEntries σ i L acc).map (·.cgroupPath) ↔
        p ∈ acc.map (·.cgroupPath) ∨ ∃ e ∈ L, e.cgroupPath = p := by
  induction L generalizing i acc with
  | nil => simp [assembleExtraEntries, hacc]
  | cons e L ih =>
    obtain ⟨hnd, hmem⟩ := ih (i + 1) _ (nodup_cgroupPaths_mergeExtraEntry i e hacc)
    refine ⟨hnd, fun p => ?_⟩
    rw [assembleExtraEntries, hmem, cgroupPaths_mergeExtraEntry]
    simp only [List.mem_cons, exists_eq_or_imp]
    split_ifs with h
    · constructor
      · rintro (hp | hp)
        · exact .inl hp
        · exact .inr (.inr hp)
      · rintro (hp | rfl | hp)
        · exact .inl hp
        · exact .inl h
        · exact .inr hp
    · rw [List.mem_append, List.mem_singleton, eq_comm (a := p), or_assoc]

/-- The headroom entry sits at the root cgroup path. -/
theorem cgroupPath_of_assembleHeadroom {hs : HeadroomSource} {e : ExtraEntry}
    (h : assembleHeadroom K hs = some e) : e.cgroupPath = "" := by
  unfold assembleHeadroom at h
  split at h
  · cases h
  · split at h
    · cases h
    · cases h; rfl

/-- The response's extra entries have pairwise distinct cgroup paths exactly when no
headroom entry is appended or no advisor extra entry is at the root path: the merge keeps
the advisor's paths distinct, and the headroom entry is appended after it without a look at
the paths already there. -/
theorem assembleResponse_extraEntries_nodup (R : InternalCPUCalculationResult) (mc : MetaCache)
    (hs : HeadroomSource) :
    ((assembleResponse K σ R mc hs).extraEntries.map (·.cgroupPath)).Nodup ↔
      assembleHeadroom K hs = none ∨ ∀ e ∈ R.extraEntries, e.cgroupPath ≠ "" := by
  obtain ⟨hnd, hmem⟩ := assembleExtraEntries_cgroupPaths (σ := σ) 0 R.extraEntries [] (by simp)
  simp only [assembleResponse, List.map_append]
  cases hh : assembleHeadroom K hs with
  | none => simpa using hnd
  | some e =>
    have hroot : "" ∈ (assembleExtraEntries σ 0 R.extraEntries []).map (·.cgroupPath) ↔
        ∃ e ∈ R.extraEntries, e.cgroupPath = "" := by simpa using hmem ""
    simp only [Option.toList_some, List.map_cons, List.map_nil, cgroupPath_of_assembleHeadroom K hh,
      List.nodup_append, hnd, List.nodup_singleton, List.disjoint_singleton, hroot, true_and,
      reduceCtorEq, false_or]
    simp

/-! ## Values of the merged extra entries -/

/-- One step of the override union at key `k`: the next map's value for `k`, if it has one,
replaces the value so far. -/
def overrideStep (k : String) (v : Option String) (m : AList fun _ : String => String) :
    Option String :=
  (m.lookup k).or v

/-- The left-to-right override union of `maps` at key `k`: the value of the last of them that
has `k`.  Modelled from the spec: its merge rule for the values of entries with one cgroup
path, stated for comparison with `assembleExtraEntries`. -/
def overrideUnion (maps : List (AList fun _ : String => String)) (k : String) : Option String :=
  maps.foldl (overrideStep k) none

/-- The value maps of the entries of `l` at cgroup path `p`, in order. -/
def valuesAt (p : String) (l : List ExtraEntry) : List (AList fun _ : String => String) :=
  (l.filter (·.cgroupPath = p)).map (·.values)

@[simp] theorem valuesAt_nil (p : String) : valuesAt p [] = [] := rfl

theorem valuesAt_cons_of_eq {p : String} {e : ExtraEntry} (l : List ExtraEntry)
    (h : e.cgroupPath = p) : valuesAt p (e :: l) = e.values :: valuesAt p l := by
  simp [valuesAt, List.filter_cons, h]

theorem valuesAt_cons_of_ne {p : String} {e : ExtraEntry} (l : List ExtraEntry)
    (h : e.cgroupPath ≠ p) : valuesAt p (e :: l) = valuesAt p l := by
  simp [valuesAt, List.filter_cons, h]

theorem valuesAt_cons (p : String) (e : ExtraEntry) (l : List ExtraEntry) :
    valuesAt p (e :: l) = valuesAt p [e] ++ valuesAt p l := by
  by_cases h : e.cgroupPath = p <;> simp [valuesAt, List.filter_cons, h]

theorem valuesAt_of_not_mem {p : String} {l : List ExtraEntry} (hp : p ∉ l.map (·.cgroupPath)) :
    valuesAt p l = [] := by
  simpa [valuesAt, List.filter_eq_nil_iff] using hp

/-- In a list with one entry per path, the entry of `x`'s path is `x`. -/
theorem valuesAt_of_mem {l : List ExtraEntry} (hl : (l.map (·.cgroupPath)).Nodup) {x : ExtraEntry}
    (hx : x ∈ l) : valuesAt x.cgroupPath l = [x.values] := by
  induction l with
  | nil => simp at hx
  | cons y l ih =>
    rw [List.map_cons, List.nodup_cons] at hl
    rcases List.mem_cons.1 hx with rfl | hx
    · rw [valuesAt_cons_of_eq _ rfl, valuesAt_of_not_mem hl.1]
    · have hy : y.cgroupPath ≠ x.cgroupPath := fun h => hl.1 (h ▸ List.mem_map_of_mem _ hx)
      rw [valuesAt_cons_of_ne _ hy, ih hl.2 hx]

/-- Writing a map's entries one by one into `values`, in any order: the map's values win. -/
theorem lookup_foldl_insert {L : List (Σ _ : String, String)} (hL : L.NodupKeys)
    (values : AList fun _ : String => String) (k : String) :
    (L.foldl (fun values kv => values.insert kv.1 kv.2) values).lookup k =
      (L.dlookup k).or (values.lookup k) := by
  induction L generalizing values with
  | nil => simp
  | cons kv L ih =>
    obtain ⟨k', v'⟩ := kv
    rw [List.nodupKeys_cons] at hL
    rw [List.foldl_cons, ih hL.2]
    by_cases hk : k = k'
    · subst hk
      simp [List.dlookup_eq_none.2 hL.1, List.dlookup_cons_eq]
    · simp [AList.lookup_insert_ne hk, List.dlookup_cons_ne L ⟨k', v'⟩ hk]

/-- Merging an entry adds its values at its path after those already there, as the override
union sees them, from every start value. -/
theorem foldl_valuesAt_mergeExtraEntry (i : Nat) (e : ExtraEntry) {acc : List ExtraEntry}
    (hacc : (acc.map (·.cgroupPath)).Nodup) (p k : String) (v : Option String) :
    (valuesAt p (mergeExtraEntry σ i e acc)).foldl (overrideStep k) v =
      (valuesAt p acc ++ valuesAt p [e]).foldl (overrideStep k) v := by
  induction acc generalizing v with
  | nil => rfl
  | cons r rest ih =>
    rw [List.map_cons, List.nodup_cons] at hacc
    by_cases h : e.cgroupPath = r.cgroupPath
    · -- the values are written over `r`'s
      rw [mergeExtraEntry, if_pos h]
      by_cases hp : r.cgroupPath = p
      · subst hp
        simp only [valuesAt_cons_of_eq, h, valuesAt_of_not_mem hacc.1, valuesAt_nil, List.foldl_cons,
          List.foldl_nil, List.cons_append, List.nil_append, overrideStep,
          lookup_foldl_insert (σ.nodupKeys_range _ _), Schedule.dlookup_range, Option.or_assoc]
      · simp only [valuesAt_cons_of_ne, ne_eq, h, hp, not_false_eq_true, valuesAt_nil,
          List.append_nil]
    · rw [mergeExtraEntry, if_neg h]
      by_cases hp : r.cgroupPath = p
      · simpa only [valuesAt_cons_of_eq _ hp, List.cons_append, List.foldl_cons] using ih hacc.2 _
      · simpa only [valuesAt_cons_of_ne _ hp] using ih hacc.2 v

/-- The merged entries' values at a path are, as the override union sees them, those of the
entries merged so far followed by those of the advisor's entries still to merge. -/
theorem foldl_valuesAt_assembleExtraEntries (i : Nat) (L acc : List ExtraEntry)
    (hacc : (acc.map (·.cgroupPath)).Nodup) (p k : String) (v : Option String) :
    (valuesAt p (assembleExtraEntries σ i L acc)).foldl (overrideStep k) v =
      (valuesAt p acc ++ valuesAt p L).foldl (overrideStep k) v := by
  induction L generalizing i acc v with
  | nil => simp [assembleExtraEntries]
  | cons e L ih =>
    rw [assembleExtraEntries, ih _ _ (nodup_cgroupPaths_mergeExtraEntry i e hacc),
      List.foldl_append, foldl_valuesAt_mergeExtraEntry i e hacc, ← List.foldl_append,
      valuesAt_cons p e L, List.append_assoc]

/-- The merge loop keeps the first occurrence of every path, as `List.eraseDups` does, from
the paths merged so far. -/
theorem cgroupPaths_assembleExtraEntries (i : Nat) (L acc : List ExtraEntry) :
    (assembleExtraEntries σ i L acc).map (·.cgroupPath) =
      List.eraseDups.loop (L.map (·.cgroupPath)) (acc.map (·.cgroupPath)).reverse := by
  induction L generalizing i acc with
  | nil => simp [assembleExtraEntries, List.eraseDups.loop]
  | cons e L ih =>
    rw [assembleExtraEntries, ih, cgroupPaths_mergeExtraEntry, List.map_cons,
      List.eraseDups.loop]
    by_cases h : e.cgroupPath ∈ acc.map (·.cgroupPath) <;> simp [h]

end ExtraEntries

/-- An advisor result whose one extra entry is at the root cgroup path. -/
def rootExtraEntryResult : InternalCPUCalculationResult := ⟨∅, ∅, [⟨"", ∅⟩], false⟩

/-- A headroom manager and encoder that both answer. -/
def answeringHeadroom : HeadroomSource := ⟨.ok ∅, fun _ => .ok "null"⟩

/-- An advisor extra entry at the root path and a headroom read that succeeds give two
entries for the root path. -/
theorem assembleResponse_extraEntries_root_twice :
    (assembleResponse katalystConsts Schedule.listOrder rootExtraEntryResult MetaCache.empty
      answeringHeadroom).extraEntries.map (·.cgroupPath) = ["", ""] ∧
    ¬ ((assembleResponse katalystConsts Schedule.listOrder rootExtraEntryResult MetaCache.empty
      answeringHeadroom).extraEntries.map (·.cgroupPath)).Nodup := by
  decide

/-- The advisor's extra entries as the response carries them before the headroom entry: one
entry per cgroup path of the advisor's entries, in the order of the paths' first
occurrences, whose values are the override union, left to right, of the values of every
advisor entry at that path; for every order the value maps are ranged over in. -/
theorem assembleResponse_extraEntries_merged (R : InternalCPUCalculationResult)
    (mc : MetaCache) (hs : HeadroomSource) :
    (assembleResponse K σ R mc hs).extraEntries =
      assembleExtraEntries σ 0 R.extraEntries [] ++ (assembleHeadroom K hs).toList ∧
    (assembleExtraEntries σ 0 R.extraEntries []).map (·.cgroupPath) =
      (R.extraEntries.map (·.cgroupPath)).eraseDups ∧
    ((assembleExtraEntries σ 0 R.extraEntries []).map (·.cgroupPath)).Nodup ∧
    (∀ p, p ∈ (assembleExtraEntries σ 0 R.extraEntries []).map (·.cgroupPath) ↔
      ∃ e ∈ R.extraEntries, e.cgroupPath = p) ∧
    ∀ e ∈ assembleExtraEntries σ 0 R.extraEntries [], ∀ k,
      e.values.lookup k =
        overrideUnion ((R.extraEntries.filter (·.cgroupPath = e.cgroupPath)).map (·.values)) k := by
  obtain ⟨hnd, hmem⟩ := assembleExtraEntries_cgroupPaths (σ := σ) 0 R.extraEntries [] List.nodup_nil
  refine ⟨rfl, cgroupPaths_assembleExtraEntries 0 R.extraEntries [], hnd,
    fun p => by simpa using hmem p, fun e he k => ?_⟩
  have h := foldl_valuesAt_assembleExtraEntries (σ := σ) 0 R.extraEntries [] List.nodup_nil
    e.cgroupPath k none
  rw [valuesAt_of_mem hnd he, valuesAt_nil, List.nil_append] at h
  calc e.values.lookup k = overrideStep k none e.values := Option.or_none.symm
    _ = overrideUnion (valuesAt e.cgroupPath R.extraEntries) k := h

end CpuServer

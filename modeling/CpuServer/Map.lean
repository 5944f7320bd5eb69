import Mathlib.Data.List.AList

/-!
# Go maps and the order of `range`

Every `map[K]V` of the server is an `AList`: a list of entries whose keys are distinct, so
that a map with two values under one key cannot be built.

Go fixes no order for `range` over a map and draws a new one at every `range`.  A
`Schedule` therefore names each place where the server ranges over a map (a `Site`) and
gives the order used there; the models below read every such order from the schedule,
and the theorems hold for every schedule.  Each site is visited at most once in one run,
so a schedule can realise any combination of orders Go may pick.
-/

set_option autoImplicit false

namespace AList

variable {α : Type} [DecidableEq α] {β : α → Type}

/-- The entries of `s` that satisfy `p` (the deleting loops of the metadata cache). -/
def filter (p : (a : α) → β a → Bool) (s : AList β) : AList β :=
  ⟨s.entries.filter fun e => p e.1 e.2, s.nodupKeys.sublist (List.filter_sublist _)⟩

theorem lookup_filter_eq_some {p : (a : α) → β a → Bool} {s : AList β} {a : α} {b : β a} :
    (s.filter p).lookup a = some b ↔ s.lookup a = some b ∧ p a b = true := by
  rw [← Option.mem_def, ← Option.mem_def, mem_lookup_iff, mem_lookup_iff]
  simp [filter]

theorem lookup_filter (p : (a : α) → β a → Bool) (s : AList β) (a : α) :
    (s.filter p).lookup a = (s.lookup a).filter (p a) := by
  apply Option.ext
  intro b
  rw [Option.mem_def, lookup_filter_eq_some]
  cases s.lookup a <;> simp [Option.filter]
  constructor
  · rintro ⟨rfl, h⟩; exact ⟨h, rfl⟩
  · rintro ⟨h, rfl⟩; exact ⟨rfl, h⟩

theorem mem_filter {p : (a : α) → β a → Bool} {s : AList β} {a : α} :
    a ∈ s.filter p ↔ ∃ b, s.lookup a = some b ∧ p a b = true := by
  rw [← lookup_isSome, Option.isSome_iff_exists]
  simp only [lookup_filter_eq_some]

end AList

namespace CpuServer

/-- A place where the server ranges over a map. -/
inductive Site where
  /-- `syncCheckpoint`: the first `range resp.Entries` (pool rows). -/
  | poolRows
  /-- `syncCheckpoint`: the second `range resp.Entries` (container rows). -/
  | containerRows
  /-- `syncCheckpoint`: `range entry.Entries` of the row of pod `podUID`. -/
  | containerEntries (podUID : String)
  /-- `syncCheckpoint`: the `RangeContainer` that collects living pool names. -/
  | livingPools
  /-- `assemblePoolEntries`: `range advisorResp.PoolEntries`. -/
  | poolEntries
  /-- `assemblePoolEntries`: `range entries` of pool `poolName`. -/
  | poolNumas (poolName : String)
  /-- `assemblePoolEntries`: `range reclaimEntries`. -/
  | reclaimNumas
  /-- `assemblePoolEntries`: `range overlapSize` on NUMA node `numaID`. -/
  | overlapPools (numaID : Int)
  /-- `assembleResponse`: `RangeContainer`. -/
  | containers
  /-- `assemblePodEntries`: `range ci.TopologyAwareAssignments`. -/
  | containerNumas (podUID containerName : String)
  /-- `assemblePodEntries`: `range podEntries.Entries` while the container looks for
  NUMA node `numaID` among its siblings. -/
  | siblings (podUID containerName : String) (numaID : Int)
  /-- `assembleResponse`: `range retEntry.Values` of the advisor's extra entry at
  position `i`. -/
  | extraEntryValues (i : Nat)
  deriving DecidableEq, Repr

/-- The order of every `range` over a map in one run. -/
structure Schedule where
  order : {α : Type} → Site → List α → List α
  perm : ∀ {α : Type} (site : Site) (l : List α), (order site l).Perm l

namespace Schedule

variable {α : Type} {β : α → Type}

/-- The entries of `m` in the order `range` visits them at `site`. -/
def range (σ : Schedule) (site : Site) (m : AList β) : List (Sigma β) :=
  σ.order site m.entries

theorem mem_range {σ : Schedule} {site : Site} {m : AList β} {e : Sigma β} :
    e ∈ σ.range site m ↔ e ∈ m.entries :=
  (σ.perm site _).mem_iff

theorem nodupKeys_range (σ : Schedule) (site : Site) (m : AList β) :
    (σ.range site m).NodupKeys :=
  (List.perm_nodupKeys (σ.perm site _)).2 m.nodupKeys

theorem dlookup_range [DecidableEq α] (σ : Schedule) (site : Site) (m : AList β) (a : α) :
    (σ.range site m).dlookup a = m.lookup a :=
  List.perm_dlookup a (σ.nodupKeys_range site m) m.nodupKeys (σ.perm site _)

/-- Visit every map in the order its entries are stored. -/
def listOrder : Schedule := ⟨fun _ l => l, fun _ l => List.Perm.refl l⟩

/-- Visit every map in the reverse of the order its entries are stored. -/
def reverseOrder : Schedule := ⟨fun _ l => l.reverse, fun _ l => List.reverse_perm l⟩

end Schedule

end CpuServer

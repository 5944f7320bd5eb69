import Mathlib.Logic.Function.Basic

/-!
# The single-flight `ListAndWatch` loop

`cpuServer.ListAndWatch` (`cpu_server.go` lines 98-145) and the part of `NewCPUServer`
(lines 59-76) that sets up its flag.  A call swaps `hasListAndWatchLoop` to true; if the
flag was already true it returns "another ListAndWatch loop is running".  Otherwise it
defers `Store(false)`, creates the QRM client (returning if that fails) and runs the timer
loop until the stream's context is done or the server's stop channel fires; every return
after the swap runs the deferred store.

CONCURRENCY.  Calls run concurrently, so the state is the flag together with the phase
of every call (callers are numbered; any number of them may call), and a step is one
atomic action of one call.  The flag is a `sync/atomic` value: its swap and its store are
atomic steps.  A tick of the loop does not touch the flag, so here it is one step that
changes nothing; what a tick does to the cache is the subject of the other modules.
-/

set_option autoImplicit false

namespace CpuServer

/-- Where one `ListAndWatch` call stands. -/
inductive Phase where
  /-- called, has not swapped the flag yet -/
  | calling
  /-- won the swap; `createQRMClient` has not returned -/
  | creatingClient
  /-- in the timer loop -/
  | streaming
  /-- lost the swap and returned the "another ListAndWatch loop is running" error -/
  | rejected
  /-- returned the error `err` (`none` for nil) after winning the swap; the deferred
  `Store(false)` has run -/
  | returned (err : Option String)
  deriving DecidableEq, Repr

/-- A call holds the loop between its successful swap and its return. -/
def Phase.admitted : Phase → Bool
  | .creatingClient | .streaming => true
  | _ => false

/-- The flag and the phase of every call. -/
structure Server where
  hasListAndWatchLoop : Bool
  calls : Nat → Phase

/-- `NewCPUServer`: `hasListAndWatchLoop.Store(false)`, and no call has been made. -/
def newCPUServer : Server := ⟨false, fun _ => .calling⟩

/-- One atomic action of call `i`. -/
inductive Event where
  /-- `hasListAndWatchLoop.Swap(true)` -/
  | swap (i : Nat)
  /-- `createQRMClient` fails with `err` -/
  | clientFailed (i : Nat) (err : String)
  /-- `createQRMClient` succeeds -/
  | clientCreated (i : Nat)
  /-- a timer tick; `getAndPushAdvice` succeeds or fails, the loop goes on -/
  | tick (i : Nat) (ok : Bool)
  /-- `server.Context().Done()` -/
  | contextDone (i : Nat)
  /-- `cs.stopCh` -/
  | stop (i : Nat)
  deriving DecidableEq, Repr

/-- The phase a call must be in to take the event. -/
def Enabled (s : Server) : Event → Prop
  | .swap i => s.calls i = .calling
  | .clientFailed i _ | .clientCreated i => s.calls i = .creatingClient
  | .tick i _ | .contextDone i | .stop i => s.calls i = .streaming

/-- The effect of an event. -/
def next (s : Server) : Event → Server
  | .swap i =>
    ⟨true, Function.update s.calls i (if s.hasListAndWatchLoop then .rejected else .creatingClient)⟩
  | .clientFailed i err =>
    ⟨false, Function.update s.calls i (.returned (some s!"create cpu plugin client failed: {err}"))⟩
  | .clientCreated i => { s with calls := Function.update s.calls i .streaming }
  | .tick _ _ => s
  | .contextDone i | .stop i => ⟨false, Function.update s.calls i (.returned none)⟩

/-- Runs from the state `NewCPUServer` creates, in any interleaving of the calls. -/
inductive Reachable : Server → Prop where
  | init : Reachable newCPUServer
  | step {s : Server} {e : Event} : Reachable s → Enabled s e → Reachable (next s e)

/-! ## The invariant -/

/-- At most one call holds the loop, and the flag says whether one does. -/
structure SingleFlight (s : Server) : Prop where
  single : ∀ i j, (s.calls i).admitted → (s.calls j).admitted → i = j
  flag : s.hasListAndWatchLoop = true ↔ ∃ i, (s.calls i).admitted

theorem singleFlight_newCPUServer : SingleFlight newCPUServer :=
  ⟨fun _ _ h => by simp [newCPUServer, Phase.admitted] at h, by simp [newCPUServer, Phase.admitted]⟩

/-- A call that stops holding the loop leaves no holder behind. -/
theorem singleFlight_release {s : Server} (h : SingleFlight s) {i : Nat}
    (hi : (s.calls i).admitted) (p : Phase) (hp : p.admitted = false) :
    SingleFlight ⟨false, Function.update s.calls i p⟩ := by
  have hnone : ∀ j, (Function.update s.calls i p j).admitted = false := by
    intro j
    by_cases hj : j = i
    · subst hj; simpa using hp
    · rw [Function.update_noteq hj]
      by_contra hja
      exact hj (h.single j i (by simpa using hja) hi)
  exact ⟨fun j _ hj => by simp [hnone] at hj, by simp [hnone]⟩

theorem singleFlight_next {s : Server} (h : SingleFlight s) {e : Event} (he : Enabled s e) :
    SingleFlight (next s e) := by
  cases e with
  | swap i =>
    have hi : (s.calls i).admitted = false := by simp [Enabled] at he; simp [he, Phase.admitted]
    cases hflag : s.hasListAndWatchLoop
    · -- no call holds the loop: `i` takes it
      have hnone : ∀ j, (s.calls j).admitted = false := by
        intro j; by_contra hj
        exact absurd (h.flag.2 ⟨j, by simpa using hj⟩) (by simp [hflag])
      refine ⟨fun j k hj hk => ?_, ?_⟩
      · simp only [next, hflag, Bool.false_eq_true, if_false, Function.update_apply] at hj hk
        split_ifs at hj hk with h₁ h₂ h₂ <;> simp_all
      · simp only [next, hflag, Bool.false_eq_true, if_false, true_iff]
        exact ⟨i, by simp [Phase.admitted]⟩
    · -- another call holds the loop: `i` is rejected and the flag stays true
      obtain ⟨j, hj⟩ := h.flag.1 hflag
      have hji : j ≠ i := fun hji => by simp_all
      refine ⟨fun k l hk hl => ?_, ?_⟩
      · simp only [next, hflag, if_true, Function.update_apply] at hk hl
        split_ifs at hk hl <;> simp_all [Phase.admitted, h.single k l]
      · simp only [next, hflag, if_true, true_iff]
        exact ⟨j, by rw [Function.update_noteq hji]; exact hj⟩
  | clientFailed i err =>
    exact singleFlight_release h (by simp_all [Enabled, Phase.admitted]) _ rfl
  | clientCreated i =>
    refine ⟨fun j k hj hk => ?_, ?_⟩
    · simp only [next, Function.update_apply] at hj hk
      split_ifs at hj hk <;> simp_all [Enabled, Phase.admitted, h.single j k]
    · simp only [next]
      rw [h.flag]
      constructor <;> rintro ⟨j, hj⟩ <;> refine ⟨j, ?_⟩ <;>
        by_cases hji : j = i <;> simp_all [Enabled, Phase.admitted, Function.update_apply]
  | tick i ok => exact h
  | contextDone i => exact singleFlight_release h (by simp_all [Enabled, Phase.admitted]) _ rfl
  | stop i => exact singleFlight_release h (by simp_all [Enabled, Phase.admitted]) _ rfl

theorem Reachable.singleFlight {s : Server} (hs : Reachable s) : SingleFlight s := by
  induction hs with
  | init => exact singleFlight_newCPUServer
  | step _ he ih => exact singleFlight_next ih he

end CpuServer

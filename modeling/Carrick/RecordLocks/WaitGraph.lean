import Carrick.RecordLocks.Table
import Carrick.Foundation.Run

namespace Carrick
namespace RecordLocks

open Foundation Relation

/-!
# The wait-for graph

Every blocked request publishes one edge.  An edge between two processes is
published only after the search found no way from the blocking owner back to
the waiting one, over all edges published at that moment; retractions and
changes of the locks add no edge.  So the edges between processes never close a
cycle, although edges from and to open file descriptions are published without
a search.
-/

namespace LogicalRecordLockState

/-- Some wait has published that `waiter` is blocked on `holder`. -/
def Published (state : LogicalRecordLockState) (waiter holder : LogicalRecordLockOwner) : Prop :=
  (waiter, holder) ∈ state.edges

/-- A published edge between two processes. -/
def ProcessEdge (state : LogicalRecordLockState) (waiter holder : LogicalRecordLockOwner) : Prop :=
  state.Published waiter holder ∧ waiter.isProcess = true ∧ holder.isProcess = true

/-- The search over any listing of the published edges ends, and answers
reachability along them. -/
theorem search_answers_published (state : LogicalRecordLockState) {listing : List WaitEdge}
    (listed : listing.Perm state.edges) (me blocker : LogicalRecordLockOwner) {fuel : Nat}
    (enough : listing.length + 2 <= fuel) :
    ∃ answer, search (targets listing) me fuel [] [blocker] = some answer ∧
      (answer = true <-> ReflTransGen state.Published blocker me) := by
  rcases search_targets_ends listing me blocker enough with ⟨answer, ended⟩
  have same : Follows (targets listing) = state.Published := by
    funext source target
    unfold Follows Published
    rw [mem_targets, listed.mem_iff]
  refine ⟨answer, ended, ?_⟩
  rw [search_iff_reaches ended, same]

theorem wouldDeadlock_iff (state : LogicalRecordLockState) (me blocker : LogicalRecordLockOwner) :
    state.wouldDeadlock me blocker = true <-> ReflTransGen state.Published blocker me := by
  rcases state.search_answers_published (List.Perm.refl _) me blocker le_rfl with
    ⟨answer, ended, correct⟩
  unfold wouldDeadlock
  rw [ended]
  exact correct

/-! ## Edges after a step -/

variable {state : LogicalRecordLockState}

theorem published_retractWait {wait : RecordLockWaitId}
    {waiter holder : LogicalRecordLockOwner}
    (published : (state.retractWait wait).Published waiter holder) :
    state.Published waiter holder := by
  rcases List.mem_map.mp published with ⟨entry, listed, same⟩
  exact List.mem_map.mpr ⟨entry, (List.mem_filter.mp listed).1, same⟩

theorem published_publishWait {wait : RecordLockWaitId}
    {edge : WaitEdge} {waiter holder : LogicalRecordLockOwner}
    (published : (state.publishWait wait edge).Published waiter holder) :
    state.Published waiter holder ∨ (waiter = edge.1 ∧ holder = edge.2) := by
  rcases List.mem_map.mp published with ⟨entry, listed, same⟩
  rcases List.mem_append.mp listed with kept | new
  · exact .inl (published_retractWait (List.mem_map.mpr ⟨entry, kept, same⟩))
  · rw [List.mem_singleton.mp new] at same
    exact .inr ⟨congrArg Prod.fst same.symm, congrArg Prod.snd same.symm⟩

/-- What a poll does to the edges: it adds at most one, and between processes
only one whose holder does not lead back to its waiter. -/
theorem published_pollSetLocked (state : LogicalRecordLockState)
    (request : LogicalRecordLockRequest) (wait : RecordLockWaitId) :
    (∀ waiter holder, (state.pollSetLocked request wait).1.Published waiter holder ->
      state.Published waiter holder) ∨
    ∃ source target,
      (source.isProcess = true -> target.isProcess = true ->
        ¬ ReflTransGen state.Published target source) ∧
      ∀ waiter holder, (state.pollSetLocked request wait).1.Published waiter holder ->
        state.Published waiter holder ∨ (waiter = source ∧ holder = target) := by
  rcases state.pollSetLocked_cases request wait with
    ⟨_, outcome⟩ | ⟨blocker, _, ⟨_, _, _, outcome⟩ | ⟨unreached, outcome⟩⟩
  · left
    intro waiter holder published
    rw [outcome] at published
    exact published_retractWait published
  · left
    intro waiter holder published
    rw [outcome] at published
    exact published_retractWait published
  right
  refine ⟨request.owner, blocker.owner, ?_, ?_⟩
  · intro source target path
    have found := (state.wouldDeadlock_iff request.owner blocker.owner).mpr path
    rw [unreached source target] at found
    cases found
  · intro waiter holder published
    rw [outcome] at published
    exact published_publishWait published

theorem acyclic_of_published {before after : LogicalRecordLockState}
    (acyclic : Acyclic before.ProcessEdge)
    (kept : ∀ waiter holder, after.Published waiter holder -> before.Published waiter holder) :
    Acyclic after.ProcessEdge :=
  acyclic.mono (fun waiter holder edge => ⟨kept waiter holder edge.1, edge.2⟩)

theorem acyclic_pollSetLocked
    (acyclic : Acyclic state.ProcessEdge) (request : LogicalRecordLockRequest)
    (wait : RecordLockWaitId) : Acyclic (state.pollSetLocked request wait).1.ProcessEdge := by
  rcases state.published_pollSetLocked request wait with kept | ⟨source, target, unreached, added⟩
  · exact acyclic_of_published acyclic kept
  by_cases processes : source.isProcess = true ∧ target.isProcess = true
  · have apart : ¬ ReflTransGen state.ProcessEdge target source := by
      intro path
      exact unreached processes.1 processes.2
        (ReflTransGen.mono (fun _ _ edge => edge.1) _ _ path)
    refine (acyclic.add_edge apart).mono ?_
    intro waiter holder edge
    rcases added waiter holder edge.1 with old | new
    · exact .inl ⟨old, edge.2⟩
    · exact .inr new
  · refine acyclic.mono ?_
    intro waiter holder edge
    rcases added waiter holder edge.1 with old | ⟨atSource, atTarget⟩
    · exact ⟨old, edge.2⟩
    · subst atSource atTarget
      exact absurd edge.2 processes

end LogicalRecordLockState

/-! ## Whole runs -/

namespace LogicalRecordLocks

def Step (before : LogicalRecordLocks) (event : Event) (after : LogicalRecordLocks) : Prop :=
  before.step event = some after

theorem step_published {before after : LogicalRecordLocks} {event : Event}
    (taken : before.Step event after) :
    (∃ wait, event = .poll wait ∧
      after.state = (before.state.pollSetLocked wait.request wait.id).1) ∨
    ∀ waiter holder, after.state.Published waiter holder ->
      before.state.Published waiter holder := by
  cases event with
  | poll wait =>
    rcases step_poll taken with ⟨_, same⟩
    subst same
    exact .inl ⟨wait, rfl, before.poll_state wait⟩
  | retract wait =>
    rcases step_retract taken with ⟨_, same⟩
    subst same
    exact .inr (fun _ _ => LogicalRecordLockState.published_retractWait)
  | trySet request =>
    cases taken
    refine .inr ?_
    intro waiter holder published
    simp only [LogicalRecordLockState.trySet] at published
    split at published
    · exact published
    · exact published
  | tryFlock file owner write =>
    cases taken
    refine .inr ?_
    intro waiter holder published
    simp only [LogicalRecordLockState.tryFlock] at published
    split_ifs at published
    · exact published
    · exact published
  | _ =>
    cases taken
    exact .inr (fun _ _ published => published)

/-- In every run the published edges between processes have no cycle, and the
search over the published edges, listed in any order, ends and finds the
requester exactly when the blocking owner leads to it along them. -/
theorem wait_graph_acyclic_and_searched {history : List Event} {table : LogicalRecordLocks}
    (run : Run (fun start => start = default) Step history table) :
    Acyclic table.state.ProcessEdge ∧
    ∀ (me blocker : LogicalRecordLockOwner),
      (∀ (listing : List WaitEdge), listing.Perm table.state.edges ->
        ∀ fuel, listing.length + 2 <= fuel ->
          ∃ answer, search (targets listing) me fuel [] [blocker] = some answer ∧
            (answer = true <-> ReflTransGen table.state.Published blocker me)) ∧
      (table.state.wouldDeadlock me blocker = true <->
        ReflTransGen table.state.Published blocker me) := by
  refine ⟨?_, ?_⟩
  · refine run.state_invariant (fun table => Acyclic table.state.ProcessEdge) ?_ ?_
    · intro start starts
      subst starts
      intro owner cycle
      rcases TransGen.head'_iff.mp cycle with ⟨next, edge, _⟩
      cases edge.1
    intro before event after acyclic taken
    rcases step_published taken with ⟨wait, _, same⟩ | kept
    · rw [same]
      exact LogicalRecordLockState.acyclic_pollSetLocked acyclic wait.request wait.id
    · exact LogicalRecordLockState.acyclic_of_published acyclic kept
  · intro me blocker
    refine ⟨?_, table.state.wouldDeadlock_iff me blocker⟩
    intro listing listed fuel enough
    exact table.state.search_answers_published listed me blocker enough

/-- A write request of one byte by a process. -/
def byteRequest (pid : Int) (byte : Nat) : LogicalRecordLockRequest :=
  ⟨.path "data", .process pid 1, ⟨byte, byte + 1⟩, true⟩

/-- Each of two processes holds one byte and the first waits for the other's. -/
def crossed : LogicalRecordLocks where
  state := ⟨[(byteRequest 2 0).lock, (byteRequest 1 10).lock], [],
    [(0, (.process 1 1, .process 2 1))]⟩
  nextWaitId := 2
  waits := [⟨0, byteRequest 1 0⟩, ⟨1, byteRequest 2 10⟩]

def crossing : List Event :=
  [.mintWait (byteRequest 2 10), .poll ⟨0, byteRequest 1 0⟩, .mintWait (byteRequest 1 0),
    .trySet (byteRequest 1 10), .trySet (byteRequest 2 0)]

theorem run_crossed : Run (fun start => start = default) Step crossing crossed :=
  .next (.next (.next (.next (.next (.initial rfl) rfl) rfl) rfl) rfl) (by unfold Step; decide)

/-- There the first process leads to the second. -/
theorem crossed_search_finds_the_waiter :
    Acyclic crossed.state.ProcessEdge ∧
      crossed.state.wouldDeadlock (.process 2 1) (.process 1 1) = true ∧
      ReflTransGen crossed.state.Published (.process 1 1) (.process 2 1) := by
  rcases wait_graph_acyclic_and_searched run_crossed with ⟨acyclic, searched⟩
  have found : crossed.state.wouldDeadlock (.process 2 1) (.process 1 1) = true := by decide
  exact ⟨acyclic, found, (searched (.process 2 1) (.process 1 1)).2.mp found⟩

end LogicalRecordLocks

end RecordLocks
end Carrick

import Carrick.Reservation.Steps

namespace Carrick
namespace Reservation

open Foundation
open Command

/-!
# Cloning a root

A fork fills an empty, unadmitted root with the committed nodes of its parent,
except those marked `MADV_DONTFORK`.  The walk reads each parent node before
its subtrees, copies it and counts its bytes against the child's own index;
the copies are then built into a balanced tree.  The child inherits the layout
and the incarnation counters and keeps its own generation.
-/

/-- Copy one node and count its bytes in the child. -/
def copyNode (node : Node) : Guarded Unit := do
  let _ ← hostNode
  registerSource node.hostBacking
  chargeSource node

def copyNodes : List Node -> Guarded Unit
  | [] => pure ()
  | node :: rest => do
      copyNode node
      copyNodes rest

/-- The nodes a child inherits, in address order. -/
def Root.inherited (parent : Root) : List Node := parent.tree.toList.filter Node.inherits

def Root.forkReady (parent : Root) : Bool :=
  parent.pending.isNone && !parent.forkPending && parent.around.prepared.isEmpty

/-- A refused copy throws the child's index away. -/
def discardingSources (command : Guarded Unit) : Guarded Unit := fun root =>
  match command root with
  | (.ok _, after) => (.ok (), after)
  | (.error reason, after) =>
    (.error reason, { after with sources := .leaf, retired := [], familyHeader := false })

/-- Populate the child root this command runs on from its parent, another root
of the same table. -/
def cloneInto (parent : Root) : Guarded Unit := do
  require (← observe (fun child => decide (parent.around.table = child.around.table) &&
    decide (parent.around.index ≠ child.around.index))) .invalid
  require parent.admitted .stale
  require parent.forkReady .busy
  require (← observe (fun child =>
    !child.admitted && decide (child.tree = .leaf) && child.pending.isNone)) .stale
  let generation ← demand (Root.checkedNext (← observe Root.generation)) .stale
  secureHostNodes
  discardingSources (do
    copyNodes (parent.tree.preorder.filter Node.inherits)
    secureHostNodes
    admitNotifications)
  edit (fun child =>
    { child with
      tree := (SearchTree.build mappingSummary parent.inherited.length parent.inherited).1
      layout := parent.layout
      minted := parent.minted
      retiredBelow := parent.retiredBelow
      admitted := true
      generation := generation })

/-! ## Counting the copies -/

/-- The bytes a list of nodes maps from a source. -/
def weights (nodes : List Node) (name : SourceName) : Nat :=
  (nodes.map (fun node => node.weight name)).sum

/-- What copying nodes does to the child's index. -/
structure Copied (nodes : List Node) (before after : Root) : Prop where
  index : IndexOk after
  counts : ∀ name, after.sourceRefCount name = weights nodes name + before.sourceRefCount name
  awaits : ∀ name, after.awaitsRetirement name <->
    after.sourceRefCount name = 0 ∧ before.awaitsRetirement name

theorem Copied.trans {first second third : Root} {earlierNodes laterNodes : List Node}
    (earlier : Copied earlierNodes first second) (later : Copied laterNodes second third) :
    Copied (earlierNodes ++ laterNodes) first third := by
  refine ⟨later.index, fun name => ?_, fun name => ?_⟩
  · have first := earlier.counts name
    have second := later.counts name
    unfold weights at *
    rw [List.map_append, List.sum_append]
    omega
  have counts := later.counts name
  rw [later.awaits, earlier.awaits]
  constructor
  · rintro ⟨none, _, waiting⟩
    exact ⟨none, waiting⟩
  · rintro ⟨none, waiting⟩
    exact ⟨none, by omega, waiting⟩

variable {after : Root}

theorem sourceAdd_eq_ok {root : Root} {name : SourceName} {bytes : Nat}
    (ran : sourceAdd name bytes root = (.ok (), after)) :
    ∃ entry, root.sourceFind name = some entry ∧ entry.count + bytes < wordLimit := by
  rcases bind_eq_ok ran with ⟨found, first, observed, rest⟩
  cases observed
  rcases bind_eq_ok rest with ⟨entry, second, demanded, counting⟩
  rcases bind_eq_ok counting with ⟨count, third, counted, _⟩
  refine ⟨entry, (demand_eq_ok demanded).1, ?_⟩
  have bounds := checkedAdd_eq_some_iff.mp (demand_eq_ok counted).1
  omega

theorem copyNode_spec {root : Root} (index : IndexOk root) (node : Node)
    (positive : 0 < node.len) (ran : copyNode node root = (.ok (), after)) :
    Copied [node] root after := by
  rcases bind_eq_ok ran with ⟨spare, first, allocated, rest⟩
  rcases bind_eq_ok rest with ⟨done, middle, registering, charging⟩
  have taken := hostNode_untouched root
  rw [allocated] at taken
  have indexFirst := index.congr taken.same_index
  have single : ∀ name, weights [node] name = node.weight name := by
    intro name
    unfold weights
    simp
  cases has : node.hostBacking with
  | none =>
    rw [has] at registering
    cases registering
    unfold chargeSource at charging
    rw [has] at charging
    cases charging
    refine ⟨indexFirst, fun name => ?_, fun name => ?_⟩
    · rw [single, taken.same_index.refCount]
      unfold Node.weight
      rw [has]
      simp
    rw [awaitsRetirement_congr (taken.same_index.find name)]
    constructor
    · intro waiting
      exact ⟨(taken.same_index.refCount name).trans (refCount_of_awaitsRetirement waiting),
        waiting⟩
    · exact fun both => both.2
  | some backing =>
    rw [has] at registering
    have reserved : sourceReserve backing.name first = (.ok done, middle) := registering
    have registered := (sourceReserve_spec indexFirst backing.name).1
    rw [reserved] at registered
    have adding : sourceAdd backing.name node.len middle = (.ok (), after) := by
      unfold chargeSource at charging
      rw [has] at charging
      exact charging
    rcases sourceAdd_eq_ok adding with ⟨entry, found, fits⟩
    rcases sourceAdd_spec registered.index found fits with
      ⟨final, again, indexAfter, _, entries⟩
    rw [adding] at again
    cases again
    have weight : ∀ name, node.weight name = if name = backing.name then node.len else 0 := by
      intro name
      unfold Node.weight
      rw [has, Option.map_some]
      refine if_congr ?_ rfl rfl
      rw [Option.some.injEq]
      exact eq_comm
    have counts : ∀ name, after.sourceRefCount name =
        node.weight name + root.sourceRefCount name := by
      intro name
      have before : middle.sourceRefCount name = root.sourceRefCount name :=
        (registered.refCount name).trans (taken.same_index.refCount name)
      rw [weight]
      by_cases asked : name = backing.name
      · rw [if_pos asked, refCount_of_find ((entries name).trans (if_pos asked)), <- before, asked,
          refCount_of_find found]
        exact Nat.add_comm _ _
      · rw [if_neg asked, <- before, Nat.zero_add]
        exact refCount_congr (congrArg _ ((entries name).trans (if_neg asked)))
    refine ⟨indexAfter, fun name => ?_, fun name => ?_⟩
    · rw [single]
      exact counts name
    have before : middle.awaitsRetirement name <-> root.awaitsRetirement name :=
      (registered.awaitsRetirement name).trans
        (awaitsRetirement_congr (taken.same_index.find name))
    have grown := counts name
    rw [weight] at grown
    by_cases asked : name = backing.name
    · rw [if_pos asked] at grown
      constructor
      · intro waiting
        have none := refCount_of_awaitsRetirement waiting
        omega
      · rintro ⟨none, _⟩
        omega
    rw [awaitsRetirement_congr ((entries name).trans (if_neg asked)), before]
    rw [if_neg asked] at grown
    constructor
    · intro waiting
      have none := refCount_of_awaitsRetirement waiting
      exact ⟨by omega, waiting⟩
    · exact fun both => both.2

theorem copyNodes_spec {root : Root} (index : IndexOk root) (nodes : List Node)
    (positive : ∀ node ∈ nodes, 0 < node.len)
    (ran : copyNodes nodes root = (.ok (), after)) : Copied nodes root after := by
  induction nodes generalizing root with
  | nil =>
    cases ran
    refine ⟨index, fun name => ?_, fun name => ?_⟩
    · unfold weights
      simp
    · constructor
      · exact fun waiting => ⟨refCount_of_awaitsRetirement waiting, waiting⟩
      · exact fun both => both.2
  | cons node rest ih =>
    rcases bind_eq_ok ran with ⟨done, middle, copied, others⟩
    have first := copyNode_spec index node (positive node List.mem_cons_self) copied
    have second := ih first.index
      (fun other member => positive other (List.mem_cons_of_mem _ member)) others
    exact first.trans second

theorem copyNodes_sameMap (nodes : List Node) : Relates SameMap (copyNodes nodes) := by
  induction nodes with
  | nil => exact Relates.pure _
  | cons node rest ih =>
    refine Relates.bind ?_ (fun _ => ih)
    refine Relates.bind hostNode_sameMap (fun _ => ?_)
    refine Relates.bind ?_ (fun _ => SameMap.kept.charge node)
    cases node.hostBacking with
    | none => exact Relates.pure _
    | some backing => exact sourceReserve_sameMap backing.name

/-! ## The child -/

/-- What a successful clone makes of the child: the parent's inherited nodes and
counters, an index that counts them, and nothing pending. -/
structure Cloned (parent child after : Root) : Prop where
  parent_admitted : parent.admitted = true
  child_empty : child.tree = .leaf
  nodes : after.tree.toList = parent.inherited
  minted : after.minted = parent.minted
  retiredBelow : after.retiredBelow = parent.retiredBelow
  admitted : after.admitted = true
  pending : after.pending = none
  sources : IndexOk child -> (∀ node ∈ parent.tree.toList, 0 < node.len) ->
    IndexOk after ∧
    (∀ name, after.sourceRefCount name =
      weights parent.inherited name + child.sourceRefCount name) ∧
    ∀ name, after.awaitsRetirement name <->
      after.sourceRefCount name = 0 ∧ child.awaitsRetirement name

theorem weights_perm {first second : List Node} (perm : first.Perm second) (name : SourceName) :
    weights first name = weights second name :=
  (perm.map _).sum_nat

theorem secureHostNodes_eq {root : Root} {answer : Except Refusal Unit}
    (ran : secureHostNodes root = (answer, after)) : after = root := by
  unfold secureHostNodes at ran
  rw [observe_bind_apply] at ran
  unfold require at ran
  split at ran
  · cases ran
    rfl
  · cases ran
    rfl

section Relates

variable {relation : Root -> Root -> Prop} [IsPreorder Root relation]

theorem secureHostNodes_relates : Relates relation secureHostNodes :=
  Relates.observing (fun _ => Relates.require _ _)

theorem admitNotifications_relates : Relates relation admitNotifications :=
  fun state => refl_of relation state

end Relates

theorem admitNotifications_eq {root : Root} {answer : Except Refusal Unit}
    (ran : admitNotifications root = (answer, after)) : after = root :=
  (congrArg Prod.snd ran).symm

theorem discardingSources_eq_ok {command : Guarded Unit} {root : Root}
    (ran : discardingSources command root = (.ok (), after)) : command root = (.ok (), after) := by
  unfold discardingSources at ran
  cases answered : command root with
  | mk answer last =>
    rw [answered] at ran
    cases answer with
    | error reason => cases ran
    | ok done =>
      cases ran
      rfl

theorem cloneInto_cloned (parent child : Root) :
    Ends (fun answer after => answer = .ok () -> Cloned parent child after) (cloneInto parent)
      child := by
  have refused : ∀ {after : Root} (reason : Refusal),
      (.error reason : Except Refusal Unit) = .ok () -> Cloned parent child after :=
    nofun
  refine Ends.observe (Ends.require (refused _) (fun _ => ?_))
  refine Ends.require (refused _) (fun parentAdmitted => Ends.require (refused _) (fun _ => ?_))
  refine Ends.observe (Ends.require (refused _) (fun empty => Ends.observe ?_))
  refine Ends.demand (refused _) (fun generation _ => ?_)
  refine Ends.bind (fun _ _ _ => refused _) (fun _ secured ranSecure => ?_)
  cases secureHostNodes_eq ranSecure
  refine Ends.bind (fun _ _ _ => refused _) (fun _ copiedRoot ranDiscard => ?_)
  rcases bind_eq_ok (discardingSources_eq_ok ranDiscard) with ⟨_, middle, copying, rest⟩
  rcases bind_eq_ok rest with ⟨_, after, securing, notifying⟩
  cases secureHostNodes_eq securing
  cases admitNotifications_eq notifying
  intro _
  rw [Bool.and_eq_true, Bool.and_eq_true, decide_eq_true_eq, Option.isNone_iff_eq_none] at empty
  have listed := (SearchTree.build_spec mappingSummary parent.inherited.length
    (Nat.le_refl parent.inherited.length)).1
  rw [List.take_length] at listed
  have same := copyNodes_sameMap (parent.tree.preorder.filter Node.inherits) child
  rw [copying] at same
  refine ⟨parentAdmitted, empty.1.2, listed, rfl, rfl, rfl, same.pending.trans empty.2, ?_⟩
  intro index positive
  have members : ∀ node ∈ parent.tree.preorder.filter Node.inherits, 0 < node.len := by
    intro node member
    exact positive node ((parent.tree.preorder_perm).mem_iff.mp (List.mem_filter.mp member).1)
  have copied := copyNodes_spec index _ members copying
  have perm : (parent.tree.preorder.filter Node.inherits).Perm parent.inherited :=
    parent.tree.preorder_perm.filter Node.inherits
  refine ⟨copied.index.congr ⟨rfl, rfl⟩, fun name => ?_, copied.awaits⟩
  rw [<- weights_perm perm]
  exact copied.counts name

theorem Cloned.mem_parent {parent child : Root} (cloned : Cloned parent child after)
    {node : Node} (member : node ∈ after.tree.toList) : node ∈ parent.tree.toList := by
  rw [cloned.nodes] at member
  exact (List.mem_filter.mp member).1

theorem Cloned.tidy {parent child : Root} (cloned : Cloned parent child after)
    (tidyParent : Tidy parent.tree) : Tidy after.tree := by
  refine ⟨?_, fun node member => tidyParent.formed node (cloned.mem_parent member)⟩
  rw [cloned.nodes]
  exact List.Pairwise.filter _ tidyParent.apart

theorem Cloned.sound {parent child : Root} (cloned : Cloned parent child after)
    (soundParent : Sound parent) (soundChild : Sound child) :
    Sound after ∧ Settled child after := by
  have positive : ∀ node ∈ parent.tree.toList, 0 < node.len := by
    intro node member
    have ordered := (soundParent.tidy.formed node member).ordered
    unfold Node.len
    omega
  rcases cloned.sources soundChild.counted.index positive with ⟨index, counts, awaits⟩
  have empty : ∀ name, child.sourceRefCount name = 0 := by
    intro name
    rw [soundChild.counted.counts, cloned.child_empty]
    rfl
  have counted : Counted after := by
    refine ⟨index, fun node member => soundParent.counted.reaching node (cloned.mem_parent member),
      fun name => ?_⟩
    rw [counts, empty, Nat.add_zero]
    unfold weights total
    rw [cloned.nodes]
  refine ⟨⟨cloned.tidy soundParent.tidy, counted, fun pending has => ?_⟩, counted, fun name => ?_⟩
  · rw [cloned.pending] at has
    cases has
  · rw [awaits name, empty name]
    simp

end Reservation
end Carrick

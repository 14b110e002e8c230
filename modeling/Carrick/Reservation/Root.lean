import Carrick.Foundation.Command
import Carrick.Reservation.Node

namespace Carrick
namespace Reservation

open Foundation

/-!
# The reservation root and its guarded edits

One root holds the committed mapping tree of an address space, at most one
pending proposal, and the index that counts the bytes mapped from each
retained byte source.  Every call runs under the root's guard, so it is one
command on the state.  The commands keep what they did when they refuse: a
completion that fails half way leaves the tree half edited.

Metadata nodes come from a pool that all roots share.  A node is handed out
with whatever its last owner left in it, and the only part of that ever read
back is the byte source field, so a spare is modelled by this field.  What the
guard sees of the shared tables during one call is its `Surroundings`.
-/

/-- A metadata node outside the trees, with the byte source field it still holds. -/
structure SpareNode where
  hostBacking : Option HostBackingIdentity
  deriving DecidableEq

/-- The shared tables as one guarded call finds them: the nodes the pool (and,
for a host call, the root's reserve) will hand out, the unsettled prepared
copies as start and length, the extents whose physical return is owed, the
table and the place in it that the root stands at, and what the scheduler
answers a root that asks for its notifications. -/
structure Surroundings where
  supply : List SpareNode
  prepared : List (Nat × Nat)
  owed : List ReservationRange
  table : Nat
  index : Nat
  notifications : Except Refusal Unit
  deriving DecidableEq

/-- An uncommitted edit.  `nodes` are the spares reserved for it: one for every
split it may need and one for the node it creates. -/
structure Pending where
  request : ReservationRequest
  result : Nat
  policyValue : Nat
  flags : ReservationNodeFlags
  nodes : List SpareNode
  deriving DecidableEq

/-- The mapped bytes of one byte source, and whether it waits in the
retirement queue. -/
structure SourceEntry where
  name : SourceName
  count : Nat
  queued : Bool
  deriving DecidableEq

def SourceEntry.rank (entry : SourceEntry) : Nat ×ₗ Nat := entry.name.rank

def sourceSummary : Summary SourceEntry Nat :=
  ⟨fun left _ right => 1 + max (left.getD 0) (right.getD 0), id⟩

abbrev SourceTree := SearchTree SourceEntry Nat

/-- The guarded state of one root.  The retirement queue is the list of queued
sources, newest first. -/
structure Root where
  mm : Nat
  generation : Nat
  sequence : Nat
  familyHeader : Bool
  forkCertificate : Nat
  tree : MappingTree
  sources : SourceTree
  retired : List SourceName
  layout : Layout
  pending : Option Pending
  admitted : Bool
  forkPending : Bool
  minted : Nat
  retiredBelow : Nat
  around : Surroundings
  deriving DecidableEq

abbrev Guarded := Command Refusal Root

namespace Root

def brk (root : Root) : Nat := root.layout.policy.brk

/-- A counter's next value, unless it would wrap. -/
def checkedNext (counter : Nat) : Option Nat := checkedAdd counter 1

def preparedOverlaps (root : Root) (range : ReservationRange) : Bool :=
  root.around.prepared.any (fun copy =>
    decide (copy.1 < range.stop) && decide (range.start < copy.1 + copy.2))

def returnOwedWithin (root : Root) (range : ReservationRange) : Bool :=
  root.around.owed.any (fun owed => owed.overlaps range)

/-- The first node that ends after the address. -/
def next (root : Root) (address : Nat) : Option Node :=
  root.tree.first (fun node => decide (address < node.stop))

/-- Whether one node straddles the address, so that an edit boundary splits it. -/
def straddles (root : Root) (address : Nat) : Bool :=
  (root.next address).any (fun node => decide (node.start < address))

def splitsNeeded (root : Root) (range : ReservationRange) : Nat :=
  (root.straddles range.start).toNat + (root.straddles range.stop).toNat

def sourceFind (root : Root) (name : SourceName) : Option SourceEntry :=
  root.sources.lookup SourceEntry.rank name.rank

/-- The bytes counted for a source; an unindexed source has none. -/
def sourceRefCount (root : Root) (name : SourceName) : Nat :=
  ((root.sourceFind name).map SourceEntry.count).getD 0

end Root

open Command

/-! ## Metadata nodes -/

/-- One node of the shared pool. -/
def hostNode : Guarded SpareNode := fun root =>
  match root.around.supply with
  | [] => (.error .metadataRequired, root)
  | node :: rest => (.ok node, { root with around := { root.around with supply := rest } })

/-- The spares of an edit; a failure returns the ones already taken. -/
def allocateSpares : Nat -> Guarded (List SpareNode)
  | 0 => pure []
  | needed + 1 => do
      let node ← hostNode
      let others ← allocateSpares needed
      pure (node :: others)

/-- The first spare not used yet. -/
def takeSpare : List SpareNode -> Guarded (List SpareNode)
  | [] => refuse .stale
  | _ :: rest => pure rest

/-! ## Byte sources -/

/-- The header that holds the source index and the fork certificate. -/
def ensureFamilyHeader : Guarded Unit := do
  if (← observe Root.familyHeader) then pure ()
  else do
    let _ ← hostNode
    edit (fun root => { root with familyHeader := true })

/-- Make sure that a source has an entry; a new one counts no bytes. -/
def sourceReserve (name : SourceName) : Guarded Unit := do
  if (← observe (fun root => (root.sourceFind name).isSome)) then pure ()
  else do
    ensureFamilyHeader
    let _ ← hostNode
    edit (fun root =>
      { root with sources := root.sources.insert sourceSummary SourceEntry.rank ⟨name, 0, false⟩ })

/-- Overwrite the entry of a source in place. -/
def writeSource (entry : SourceEntry) : Guarded Unit :=
  edit (fun root =>
    { root with
      sources := root.sources.modify SourceEntry.rank entry.rank
        (fun old => { old with count := entry.count, queued := entry.queued }) })

/-- Put a source at the head of the retirement queue. -/
def queueSource (name : SourceName) : Guarded Unit :=
  edit (fun root => { root with retired := name :: root.retired })

def sourceAdd (name : SourceName) (bytes : Nat) : Guarded Unit := do
  let entry ← demand (← observe (fun root => root.sourceFind name)) .stale
  let count ← demand (checkedAdd entry.count bytes) .stale
  writeSource { entry with count := count }

/-- Count bytes of a source off; a source whose last byte goes is queued. -/
def sourceSub (name : SourceName) (bytes : Nat) : Guarded Unit := do
  let entry ← demand (← observe (fun root => root.sourceFind name)) .stale
  let count ← demand (checkedSub entry.count bytes) .stale
  if count = 0 ∧ entry.queued = false then do
    queueSource name
    writeSource { entry with count := 0, queued := true }
  else writeSource { entry with count := count }

/-- Queue a source that no node holds; one that is held or queued is left alone. -/
def retireUnusedSource (name : SourceName) : Guarded Unit := do
  sourceReserve name
  let entry ← demand (← observe (fun root => root.sourceFind name)) .stale
  if entry.count = 0 ∧ entry.queued = false then do
    queueSource name
    writeSource { entry with queued := true }
  else pure ()

/-- Pop the queue down to the first source without bytes and drop its entry.
A source that was mapped again while it was queued is only unqueued. -/
def takeRetiredFrom : List SourceName -> Guarded (Option SourceName)
  | [] => pure none
  | name :: rest => do
      edit (fun root => { root with retired := rest })
      let entry ← demand (← observe (fun root => root.sourceFind name)) .stale
      if entry.count ≠ 0 then do
        writeSource { entry with queued := false }
        takeRetiredFrom rest
      else do
        edit (fun root =>
          { root with sources := root.sources.unlink sourceSummary SourceEntry.rank name.rank })
        pure (some name)

def takeRetiredHostBacking : Guarded (Option SourceName) := do
  takeRetiredFrom (← observe Root.retired)

/-! ## Edits of the mapping tree -/

def insertNode (node : Node) (tree : MappingTree) : MappingTree :=
  tree.insert mappingSummary Node.start node

def eraseNode (start : Nat) (tree : MappingTree) : MappingTree :=
  tree.erase mappingSummary Node.start start

/-- The two halves of a node cut at an address: both keep its attributes, and
the byte source of the upper half is advanced. -/
def Node.lowHalf (node : Node) (address : Nat) : Node := { node with stop := address }

def Node.highHalf (node : Node) (address : Nat) : Node :=
  { node with
    start := address
    hostBacking := node.hostBacking.bind (fun backing => backing.advance (address - node.start)) }

/-- Split the node that straddles the address, if there is one. -/
def splitAt (address : Nat) (spares : List SpareNode) : Guarded (List SpareNode) := do
  match (← observe (fun root => root.next address)).filter (fun node => decide (node.start < address))
    with
  | none => pure spares
  | some node => do
      let rest ← takeSpare spares
      edit (fun root =>
        { root with
          tree := insertNode (node.highHalf address)
            (insertNode (node.lowHalf address) (eraseNode node.start root.tree)) })
      pure rest

/-- Cut the tree at both bounds of a range. -/
def splitBounds (range : ReservationRange) (spares : List SpareNode) :
    Guarded (List SpareNode) := do
  let afterStart ← splitAt range.start spares
  splitAt range.stop afterStart

/-- Take a node out of the tree.  Once anonymous memory is gone, no incarnation
minted so far may be joined again. -/
def forgetNode (node : Node) : Guarded Unit :=
  edit (fun root =>
    { root with
      retiredBelow := if node.isAnonymous then root.minted else root.retiredBelow
      tree := eraseNode node.start root.tree })

/-- Count a removed node's bytes off its source. -/
def releaseSource (node : Node) : Guarded Unit :=
  match node.hostBacking with
  | none => pure ()
  | some source => sourceSub source.name node.len

/-- Erase the nodes of a range one after the other. -/
def removeNodes (range : ReservationRange) : Nat -> Guarded Unit
  | 0 => pure ()
  | fuel + 1 => do
      match (← observe (fun root => root.next range.start)) with
      | none => pure ()
      | some node =>
        if range.stop <= node.start then pure ()
        else do
          forgetNode node
          releaseSource node
          removeNodes range fuel

/-- Remove every node inside the range, keeping the outside pieces of nodes
that straddle its bounds. -/
def removeRange (range : ReservationRange) (spares : List SpareNode) :
    Guarded (List SpareNode) := do
  let rest ← splitBounds range spares
  removeNodes range (← observe (fun root => root.tree.toList.length))
  pure rest

/-- The neighbour a node coalesces with on its left, if any. -/
def Root.leftNeighbour (root : Root) (node : Node) : Option Node :=
  if node.start = 0 then none
  else (root.next (node.start - 1)).filter (fun left => decide (left.stop = node.start))

def Root.rightNeighbour (root : Root) (node : Node) : Option Node :=
  (root.next node.stop).filter (fun right => decide (right.start = node.stop))

/-- Whether a neighbour is the same mapping of the same incarnation. -/
def Node.joins (neighbour node : Node) : Bool :=
  neighbour.sameMapping node && decide (neighbour.incarnation = node.incarnation)

/-- Absorb the left neighbour, which then gives the node its start and source. -/
def joinLeft (node : Node) : Guarded Node := do
  match (← observe (fun root => root.leftNeighbour node)).filter (fun left => left.joins node) with
  | none => pure node
  | some left => do
      edit (fun root => { root with tree := eraseNode left.start root.tree })
      pure { node with start := left.start, hostBacking := left.hostBacking }

def joinRight (node : Node) : Guarded Node := do
  match (← observe (fun root => root.rightNeighbour node)).filter (fun right => right.joins node)
    with
  | none => pure node
  | some right => do
      edit (fun root => { root with tree := eraseNode right.start root.tree })
      pure { node with stop := right.stop }

def insertCoalescing (node : Node) : Guarded Unit := do
  let widened ← joinLeft node
  let complete ← joinRight widened
  edit (fun root => { root with tree := insertNode complete root.tree })

/-- Set the protection of the nodes from the cursor up to the range's end. -/
def reprotectNodes (range : ReservationRange) (prot : ReservationProtection) :
    Nat -> Nat -> Guarded Unit
  | 0, _ => pure ()
  | fuel + 1, cursor =>
    if cursor < range.stop then do
      match (← observe (fun root => root.next cursor)).filter
          (fun node => decide (node.start < range.stop)) with
      | none => pure ()
      | some node => do
          edit (fun root => { root with tree := eraseNode node.start root.tree })
          insertCoalescing { node with prot := prot }
          reprotectNodes range prot fuel node.stop
    else pure ()

def reprotectRange (range : ReservationRange) (prot : ReservationProtection)
    (spares : List SpareNode) : Guarded (List SpareNode) := do
  let rest ← splitBounds range spares
  reprotectNodes range prot range.pages range.start
  pure rest

/-- A younger adjacent incarnation of the same mapping, if the node may join it. -/
def Root.joinable (root : Root) (node neighbour : Node) : Bool :=
  neighbour.sameMapping node && decide (root.retiredBelow < neighbour.incarnation)

/-- The incarnation a created node takes: that of an adjacent node of the same
mapping none of whose memory was ever retired, else a fresh one. -/
def incarnationFor (node : Node) : Guarded Nat := do
  match (← observe (fun root => (root.leftNeighbour node).filter (root.joinable node))) with
  | some left => pure left.incarnation
  | none =>
    match (← observe (fun root => (root.rightNeighbour node).filter (root.joinable node))) with
    | some right => pure right.incarnation
    | none => do
        edit (fun root => { root with minted := root.minted + 1 })
        observe Root.minted

/-- Count a created node's bytes against its source. -/
def chargeSource (node : Node) : Guarded Unit :=
  match node.hostBacking with
  | none => pure ()
  | some source => sourceAdd source.name node.len

/-- Put a created node into a free range: choose its incarnation, count its
bytes against its source, and coalesce it with its neighbours. -/
def createNode (node : Node) : Guarded Unit := do
  let incarnation ← incarnationFor node
  chargeSource node
  insertCoalescing { node with incarnation := incarnation }

/-! ## Completion and refusal of the pending proposal -/

/-- Whether an operation leaves nodes in its range. -/
def ReservationOperation.creates : ReservationOperation -> Bool
  | .retire => false
  | _ => true

/-- Whether an operation only rewrites the protection of what is mapped. -/
def ReservationOperation.reprotects : ReservationOperation -> Bool
  | .protect => true
  | .decommit => true
  | _ => false

/-- Whether an operation puts a new node into its range. -/
def ReservationOperation.installs : ReservationOperation -> Bool
  | .prepare => true
  | .move => true
  | _ => false

/-- The attributes of the node a completion creates. -/
def Pending.createdFlags (pending : Pending) (hostOwned : Bool) : ReservationNodeFlags :=
  if hostOwned then pending.flags.difference .anonymous else pending.flags

/-- The byte source field of the first spare. -/
def Pending.firstSpare (pending : Pending) : Option HostBackingIdentity :=
  pending.nodes.head?.bind SpareNode.hostBacking

/-- Whether a completion reads the byte source of the node it creates. -/
def Pending.readsBacking (pending : Pending) (hostOwned : Bool) : Bool :=
  (pending.createdFlags hostOwned).contains .file && pending.request.operation.installs

/-- The splits and nodes that the pending edit takes from its spares. -/
def Root.sparesRequired (root : Root) (request : ReservationRequest) : Nat :=
  (request.source.map root.splitsNeeded).getD 0 + root.splitsNeeded request.range +
    request.operation.creates.toNat

/-- The node a request creates, before its incarnation is chosen. -/
def ReservationRequest.createdNode (request : ReservationRequest) (flags : ReservationNodeFlags)
    (backing : Option HostBackingIdentity) : Node :=
  ⟨request.range.start, request.range.stop, request.protection, flags, 0, backing⟩

/-- The committed effect of a request whose spares suffice, in three stages:
unmap the source of a move, unmap or reprotect the range, create the node. -/
def removeSource (source : Option ReservationRange) (spares : List SpareNode) :
    Guarded (List SpareNode) :=
  match source with
  | none => pure spares
  | some range => removeRange range spares

def editRange (request : ReservationRequest) (spares : List SpareNode) :
    Guarded (List SpareNode) :=
  if request.operation.reprotects then reprotectRange request.range request.protection spares
  else removeRange request.range spares

def installNode (request : ReservationRequest) (flags : ReservationNodeFlags)
    (backing : Option HostBackingIdentity) (spares : List SpareNode) : Guarded Unit :=
  if request.operation.installs then do
    let _ ← takeSpare spares
    createNode (request.createdNode flags backing)
  else pure ()

def applyEdit (request : ReservationRequest) (flags : ReservationNodeFlags)
    (backing : Option HostBackingIdentity) (spares : List SpareNode) : Guarded Unit := do
  let afterSource ← removeSource request.source spares
  let afterRange ← editRange request afterSource
  installNode request flags backing afterRange

/-- Commit the byte break and the new generation and drop the proposal. -/
def settlePending (pending : Pending) : Guarded Nat := do
  edit (fun root =>
    { root with
      layout := { root.layout with
        policy := { root.layout.policy with brk := pending.policyValue } } })
  let generation ← demand (Root.checkedNext (← observe Root.generation)) .stale
  edit (fun root => { root with generation := generation, pending := none })
  pure pending.result

/-- Whether a completion answers the pending request of this root. -/
def Root.authenticates (root : Root) (pending : Pending) (request : ReservationRequest) : Bool :=
  decide (request = pending.request) && decide (pending.request.mm = root.mm) &&
    decide (pending.request.generation = root.generation)

/-- The byte source of the node a completion creates. -/
def createdBacking (pending : Pending) (hostOwned : Bool) :
    Guarded (Option HostBackingIdentity) :=
  if pending.readsBacking hostOwned then do
    let found ← demand pending.firstSpare .stale
    pure (some found)
  else pure none

def completeAs (request : ReservationRequest) (hostOwned : Bool) : Guarded Nat := do
  let pending ← demand (← observe Root.pending) .stale
  require (← observe (fun root => root.authenticates pending request)) .stale
  let backing ← createdBacking pending hostOwned
  let required ← observe (fun root => root.sparesRequired pending.request)
  require (decide (required <= pending.nodes.length)) .stale
  applyEdit pending.request (pending.createdFlags hostOwned) backing pending.nodes
  settlePending pending

def complete (request : ReservationRequest) : Guarded Nat := completeAs request false

/-- Complete a pending `Prepare` as one opaque, host-owned node. -/
def completeHostOwned (request : ReservationRequest) : Guarded Nat := do
  let prepares ← observe (fun root =>
    root.pending.any (fun pending => decide (pending.request.operation = .prepare)))
  require prepares .invalid
  completeAs request true

def refusePending (request : ReservationRequest) : Guarded Unit := do
  let pending ← demand (← observe Root.pending) .stale
  require (decide (pending.request = request)) .stale
  edit (fun root => { root with pending := none })

/-- Record the byte source of the node the pending proposal will create. -/
def writePendingBacking (backing : HostBackingIdentity) : Guarded Unit := do
  let pending ← demand (← observe Root.pending) .stale
  match pending.nodes with
  | [] => refuse .stale
  | _ :: others => do
      sourceReserve backing.name
      edit (fun root =>
        { root with pending := some { pending with nodes := ⟨some backing⟩ :: others } })

end Reservation
end Carrick

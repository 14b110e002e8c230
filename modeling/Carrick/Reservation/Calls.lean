import Carrick.Reservation.Root

namespace Carrick
namespace Reservation

open Foundation
open Command

/-!
# The calls on a reservation root

Placement and admission of proposals, the Linux client's `mmap`, `mremap` and
`brk`, the host's opaque edits, the import of a root and the publication of a
fork.  A proposal leaves the tree alone: it records a pending request together
with the spares that its completion will use.  `Call` collects everything that
can be done to one root under its guard.
-/

/-! ## Placement -/

/-- The lowest gap of `len` bytes below `stop`, guided by the cached aggregates;
the cursor moves over the nodes passed on the way. -/
def gap (len stop : Nat) : MappingTree -> Nat -> Option Nat × Nat
  | .leaf, cursor => (none, cursor)
  | .node left node cached right, cursor =>
    if cached.last <= cursor then (none, cursor)
    else if cursor <= cached.first ∧ len <= min cached.first stop - cursor then
      (some cursor, cursor)
    else if cursor <= cached.first ∧ cached.gap < len then (none, cached.last)
    else
      match gap len stop left cursor with
      | (some found, moved) => (some found, moved)
      | (none, moved) =>
        if len <= min node.start stop - moved then (some moved, moved)
        else gap len stop right (max moved node.stop)

namespace Root

/-- Search for a hole from an address on, stepping over owed extents; each one
moves the search forward, so their number bounds the rounds. -/
def firstFitFrom (root : Root) (len : Nat) : Nat -> Nat -> Option Nat
  | 0, _ => none
  | rounds + 1, start =>
    let arena := root.layout.arena
    let candidate :=
      match gap len arena.stop root.tree start with
      | (some found, _) => some found
      | (none, cursor) => if len <= arena.stop - cursor then some cursor else none
    match candidate with
    | none => none
    | some found =>
      match checkedAdd found len with
      | none => none
      | some stop =>
        let met := root.around.owed.filter (fun owed =>
          decide (owed.start < stop) && decide (found < owed.stop))
        match (met.map ReservationRange.stop).max? with
        | none => some found
        | some owedStop => firstFitFrom root len rounds owedStop

def firstFit (root : Root) (len : Nat) : Option Nat :=
  root.firstFitFrom len (root.around.owed.length + 1) root.layout.arena.start

def inLayout (root : Root) (range : ReservationRange) : Bool :=
  [root.layout.heap, root.layout.arena].any (fun area =>
    decide (area.start <= range.start) && decide (range.stop <= area.stop))

/-- Whether no node meets the range. -/
def isFree (root : Root) (range : ReservationRange) : Bool :=
  (root.next range.start).all (fun node => decide (range.stop <= node.start))

/-- Whether editable image nodes cover the range from the cursor on. -/
def imageCoverFrom (root : Root) (range : ReservationRange) : Nat -> Nat -> Bool
  | 0, _ => false
  | fuel + 1, cursor =>
    match root.next cursor with
    | none => false
    | some node =>
      if cursor < node.start ∨ node.flags.contains .image = false ∨ node.rootEditable = false then
        false
      else if range.stop <= node.stop then true
      else imageCoverFrom root range fuel node.stop

def imageCover (root : Root) (range : ReservationRange) : Bool :=
  root.imageCoverFrom range range.pages range.start

/-- The node that holds an address of an admitted root. -/
def nodeAt (root : Root) (address : Nat) : Option Node :=
  if root.admitted then holding root.tree else none
where
  holding : MappingTree -> Option Node
    | .leaf => none
    | .node left node _ right =>
      if address < node.start then holding left
      else if node.stop <= address then holding right
      else some node

/-- Extend a run of adjacent nodes of one mapping until it reaches `stop`. -/
def extendRun (root : Root) (stop : Nat) : Nat -> Node -> Option Node
  | 0, run => if run.stop < stop then none else some run
  | fuel + 1, run =>
    if run.stop < stop then
      match (root.next run.stop).filter (fun node =>
          decide (node.start = run.stop) && node.sameMapping run) with
      | none => none
      | some node => extendRun root stop fuel { run with stop := node.stop }
    else some run

/-- The mapping around a range: the run of nodes that starts with the one
holding its start and covers its end. -/
def runCovering (root : Root) (range : ReservationRange) : Option Node :=
  match (root.next range.start).filter (fun node => decide (node.start <= range.start)) with
  | none => none
  | some node => root.extendRun range.stop range.pages node

end Root

/-- Round a length up to whole pages. -/
def roundPages (len : Nat) : Option Nat :=
  (checkedAdd len (pageSize - 1)).map (fun padded => padded - padded % pageSize)

def orRefuse {α : Type} (found : Option α) (reason : Refusal) : Except Refusal α :=
  match found with
  | none => .error reason
  | some value => .ok value

def Placement.misaligned : Placement -> Bool
  | .fixed address => decide (address % pageSize ≠ 0)
  | .noReplace address => decide (address % pageSize ≠ 0)
  | _ => false

/-- The address of a mapping of whole pages.  A hint inside the layout that is
taken falls back to the first hole; one outside it is not this root's. -/
def placeAddress (root : Root) (rounded : Nat) : Placement -> Except Refusal Nat
  | .fixed address => .ok address
  | .noReplace address => .ok address
  | .anywhere => orRefuse (root.firstFit rounded) .limit
  | .hint address =>
    let hinted := address - address % pageSize
    match (checkedAdd hinted rounded).bind (ReservationRange.new hinted) with
    | none => .error .foreignMapping
    | some range =>
      if root.inLayout range then
        if root.isFree range && !root.returnOwedWithin range then .ok hinted
        else orRefuse (root.firstFit rounded) .limit
      else .error .foreignMapping

/-- The range at an address; `MAP_FIXED_NOREPLACE` wants it free. -/
def placeRange (root : Root) (placement : Placement) (address rounded : Nat) :
    Except Refusal ReservationRange := do
  let stop ← orRefuse (checkedAdd address rounded) .limit
  let range ← orRefuse (ReservationRange.new address stop) .invalid
  match placement with
  | .noReplace _ => if root.isFree range then .ok range else .error .collision
  | _ => .ok range

/-- Where a mapping of `len` bytes goes. -/
def place (root : Root) (placement : Placement) (len : Nat) : Except Refusal ReservationRange :=
  if root.admitted = false then .error .stale
  else if len = 0 ∨ placement.misaligned = true then .error .invalid
  else do
    let rounded ← orRefuse (roundPages len) .limit
    let address ← placeAddress root rounded placement
    placeRange root placement address rounded

/-! ## Proposals -/

/-- The bytes a proposal's range already holds, and how far nodes cover it.  The
walk over the range adds to it node by node. -/
structure Survey where
  cursor : Nat
  bytes : Nat
  data : Nat

/-- Walk the nodes of a range, refusing host-owned nodes and, where the edit
needs a fully mapped range, holes. -/
def surveyFrom (root : Root) (range : ReservationRange) (requireCoverage : Bool) :
    Nat -> Survey -> Except Refusal Survey
  | 0, survey => .ok survey
  | fuel + 1, survey =>
    match root.next survey.cursor with
    | none => .ok survey
    | some node =>
      if range.stop <= node.start then .ok survey
      else if node.rootEditable = false then .error .foreignMapping
      else if requireCoverage = true ∧ survey.cursor < node.start then .error .hole
      else
        let overlap := min node.stop range.stop - max node.start survey.cursor
        let moved : Survey :=
          { cursor := min node.stop range.stop
            bytes := survey.bytes + overlap
            data := survey.data + if node.flags.chargesData node.prot then overlap else 0 }
        if moved.cursor = range.stop then .ok moved
        else surveyFrom root range requireCoverage fuel moved

def survey (root : Root) (proposal : ReservationProposal) : Except Refusal Survey := do
  let found ← surveyFrom root proposal.range proposal.requireCoverage
    proposal.range.pages ⟨proposal.range.start, 0, 0⟩
  if proposal.requireCoverage = true ∧ found.cursor ≠ proposal.range.stop then throw .hole
  pure found

/-- The charge test of a proposal. -/
def admitProposal (root : Root) (proposal : ReservationProposal) (found : Survey) :
    Except Refusal Unit :=
  let dataCharged := ReservationNodeFlags.anonymousPrivate.chargesData proposal.protection
  let moved := (proposal.source.map ReservationRange.len).getD 0
  let added := if proposal.operation = .retire then 0 else proposal.range.len
  let total := (root.tree.cached?).getD .none
  admitsCharges root.layout.policy ⟨total.bytes, total.data⟩
    ⟨found.bytes + moved, found.data + if dataCharged then moved else 0⟩
    ⟨added, if dataCharged then added else 0⟩

/-- Everything a proposal must pass before it is recorded. -/
def checkProposal (root : Root) (proposal : ReservationProposal) : Except Refusal Unit := do
  if root.admitted = false then throw .stale
  if root.pending.isSome || root.forkPending then throw .busy
  if root.preparedOverlaps proposal.range || proposal.source.any root.preparedOverlaps then
    throw .preparedConflict
  if proposal.flags.contains .image then throw .invalid
  let imageEdit := (proposal.operation.reprotects || decide (proposal.operation = .retire)) &&
    root.imageCover proposal.range
  if !imageEdit && !root.inLayout proposal.range then throw .foreignMapping
  if proposal.operation ≠ .retire ∧ root.returnOwedWithin proposal.range = true then throw .busy
  admitProposal root proposal (← survey root proposal)

/-- The spares reserved for a proposal. -/
def Root.sparesFor (root : Root) (proposal : ReservationProposal) : Nat :=
  if proposal.source.isSome then 5
  else root.splitsNeeded proposal.range + (decide (proposal.operation ≠ .retire)).toNat

/-- Admit an edit: check it, reserve its spares and record it as pending. -/
def propose (proposal : ReservationProposal) : Guarded Decision := do
  let checked ← observe (fun root => checkProposal root proposal)
  ofExcept checked
  let sequence ← demand (Root.checkedNext (← observe Root.sequence)) .stale
  let _ ← demand (Root.checkedNext (← observe Root.generation)) .stale
  let needed ← observe (fun root => root.sparesFor proposal)
  let nodes ← allocateSpares needed
  let request ← observe (fun root =>
    ({ mm := root.mm
       generation := root.generation
       sequence := sequence
       range := proposal.range
       protection := proposal.protection
       operation := proposal.operation
       source := proposal.source } : ReservationRequest))
  edit (fun root =>
    { root with
      sequence := sequence
      pending := some ⟨request, proposal.result, proposal.policyValue, proposal.flags, nodes⟩ })
  pure (.work request)

def Root.editExcluded (root : Root) : Bool := root.pending.isSome || root.forkPending

def mmap (placement : Placement) (len : Nat) (prot : ReservationProtection) :
    Guarded Decision := do
  require (!(← observe Root.editExcluded)) .busy
  let range ← ofExcept (← observe (fun root => place root placement len))
  propose
    { range := range
      protection := prot
      operation := .prepare
      result := range.start
      policyValue := (← observe Root.brk)
      requireCoverage := false
      source := none
      flags := .anonymousPrivate }

/-- Record the byte source of a proposal; one that cannot be registered takes
the proposal back. -/
def writeOrRefuse (backing : HostBackingIdentity) (request : ReservationRequest) :
    Guarded Unit := fun root =>
  match writePendingBacking backing root with
  | (.ok _, written) => (.ok (), written)
  | (.error refusal, failed) => (do refusePending request; refuse refusal) failed

/-- A private file mapping whose bytes come from a retained source. -/
def mmapPrivateFile (placement : Placement) (len : Nat) (prot : ReservationProtection)
    (backing : HostBackingIdentity) : Guarded Decision := do
  require (!(← observe Root.editExcluded)) .busy
  require (backing.advance len).isSome .invalid
  let range ← ofExcept (← observe (fun root => place root placement len))
  let decision ← propose
    { range := range
      protection := prot
      operation := .prepare
      result := range.start
      policyValue := (← observe Root.brk)
      requireCoverage := false
      source := none
      flags := ReservationNodeFlags.privateMap.union .file }
  match decision with
  | .complete _ => pure decision
  | .work request => do
      writeOrRefuse backing request
      pure decision

def munmap (range : ReservationRange) : Guarded Decision := do
  propose
    { range := range
      protection := .none
      operation := .retire
      result := 0
      policyValue := (← observe Root.brk)
      requireCoverage := false
      source := none
      flags := .empty }

def mprotect (range : ReservationRange) (prot : ReservationProtection) : Guarded Decision := do
  propose
    { range := range
      protection := prot
      operation := .protect
      result := 0
      policyValue := (← observe Root.brk)
      requireCoverage := true
      source := none
      flags := .empty }

/-- Reserve address space without access. -/
def reserveRange (range : ReservationRange) : Guarded Decision := do
  propose
    { range := range
      protection := .none
      operation := .prepare
      result := range.start
      policyValue := (← observe Root.brk)
      requireCoverage := false
      source := none
      flags := .anonymousPrivate }

/-- Revoke access and return backing while keeping the reservation. -/
def decommitRange (range : ReservationRange) : Guarded Decision := do
  propose
    { range := range
      protection := .none
      operation := .decommit
      result := 0
      policyValue := (← observe Root.brk)
      requireCoverage := true
      source := none
      flags := .empty }

/-- The destination an `mremap` target fixes. -/
def MoveTarget.fixedAddress : MoveTarget -> Option Nat
  | .fixed address => some address
  | .keepSource address => address
  | _ => none

def MoveTarget.keepsSource : MoveTarget -> Bool
  | .keepSource _ => true
  | _ => false

/-- The range an in-place growth would add, if it lies in the layout and
nothing is in the way. -/
def Root.growthRange (root : Root) (source : ReservationRange) (newLen : Nat) :
    Option ReservationRange :=
  (((checkedAdd source.start newLen).bind (fun stop => ReservationRange.new source.stop stop)).filter
    (fun range => root.inLayout range)).filter (fun range => root.isFree range)

/-- A relocation: one move, or a preparation that keeps the source. -/
def moveProposal (source : ReservationRange) (node : Node) (brk : Nat) (target : MoveTarget)
    (range : ReservationRange) : ReservationProposal where
  range := range
  protection := node.prot
  operation := if target.keepsSource then .prepare else .move
  result := range.start
  policyValue := brk
  requireCoverage := false
  source := if target.keepsSource then none else some source
  flags := node.flags

def mremapInner (source : ReservationRange) (newLen : Nat) (target : MoveTarget) :
    Guarded Decision := do
  require (← observe Root.admitted) .stale
  require (!(← observe Root.editExcluded)) .busy
  require (decide (newLen ≠ 0) && target.fixedAddress.all (fun address =>
    decide (address % pageSize = 0))) .invalid
  let newLen ← demand (roundPages newLen) .limit
  require (!target.keepsSource || decide (newLen = source.len)) .invalid
  let node ← demand (← observe (fun root => root.runCovering source)) .hole
  require node.rootEditable .foreignMapping
  let brk ← observe Root.brk
  match target.fixedAddress with
  | some address => do
      let range ← demand ((checkedAdd address newLen).bind (ReservationRange.new address)) .invalid
      require (!range.overlaps source) .invalid
      propose (moveProposal source node brk target range)
  | none => do
      if target.keepsSource = false ∧ newLen = source.len then pure (.complete source.start)
      else if target.keepsSource = false ∧ newLen < source.len then do
        let tail ← demand (ReservationRange.new (source.start + newLen) source.stop) .invalid
        propose
          { range := tail
            protection := .none
            operation := .retire
            result := source.start
            policyValue := brk
            requireCoverage := false
            source := none
            flags := .empty }
      else
        match (← observe (fun root => root.growthRange source newLen)).filter
            (fun _ => !target.keepsSource) with
        | some extension =>
          propose
            { range := extension
              protection := node.prot
              operation := .prepare
              result := source.start
              policyValue := brk
              requireCoverage := false
              source := none
              flags := node.flags }
        | none => do
            require (decide (target ≠ .inPlace)) .limit
            let address ← demand (← observe (fun root => root.firstFit newLen)) .limit
            let range ← demand (ReservationRange.new address (address + newLen)) .invalid
            propose (moveProposal source node brk target range)

/-- The byte source a range's first page has. -/
def Root.sourceOf (root : Root) (source : ReservationRange) : Option HostBackingIdentity :=
  (root.nodeAt source.start).bind (fun node =>
    node.hostBacking.bind (fun backing => backing.advance (source.start - node.start)))

/-- The byte source of the node an `mremap` will create: growth in place
continues the source behind the old end. -/
def carriedBacking (source : ReservationRange) (backing : HostBackingIdentity) (result : Nat)
    (request : ReservationRequest) : Option HostBackingIdentity :=
  if result = source.start ∧ request.range.start = source.stop then backing.advance source.len
  else some backing

/-- Give the node that an `mremap` will create its byte source.  When growth in
place overflows, the refusal leaves the proposal pending. -/
def carryBacking (source : ReservationRange) (backing : HostBackingIdentity)
    (request : ReservationRequest) : Guarded Unit := do
  let result ← demand (← observe (fun root => root.pending.map Pending.result)) .stale
  let carried ← demand (carriedBacking source backing result request) .invalid
  if (carried.advance request.range.len).isNone then do
    refusePending request
    refuse .invalid
  else writePendingBacking carried

def mremap (source : ReservationRange) (newLen : Nat) (target : MoveTarget) :
    Guarded Decision := do
  let backing ← observe (fun root => root.sourceOf source)
  let decision ← mremapInner source newLen target
  match backing, decision with
  | some backing, .work request =>
    if request.operation.installs then do
      carryBacking source backing request
      pure decision
    else pure decision
  | _, _ => pure decision

/-- Move the byte break inside its last page. -/
def setByteBreak (requested : Nat) : Guarded Unit := do
  let generation ← demand (Root.checkedNext (← observe Root.generation)) .stale
  edit (fun root =>
    { root with
      layout := { root.layout with policy := { root.layout.policy with brk := requested } }
      generation := generation })

/-- A refused heap edit answers with the old break. -/
def answerOldBreak (old : Nat) (command : Guarded Decision) : Guarded Decision := fun root =>
  match command root with
  | (.error .limit, after) => (.ok (.complete old), after)
  | (.error .foreignMapping, after) => (.ok (.complete old), after)
  | answer => answer

def brk (requested : Nat) : Guarded Decision := do
  require (← observe Root.admitted) .stale
  require (!(← observe Root.editExcluded)) .busy
  let old ← observe Root.brk
  let heap ← observe (fun root => root.layout.heap)
  if requested = 0 ∨ requested < heap.start ∨ heap.stop < requested then pure (.complete old)
  else do
    let oldStop ← demand (roundPages old) .invalid
    let newStop ← demand (roundPages requested) .invalid
    if oldStop = newStop then do
      if old ≠ requested then setByteBreak requested
      pure (.complete requested)
    else if oldStop < newStop ∧ (← observe (fun root =>
        (root.next oldStop).any (fun node => decide (node.start < newStop)))) = true then
      pure (.complete old)
    else do
      let range ← demand (ReservationRange.new (min oldStop newStop) (max oldStop newStop)) .invalid
      answerOldBreak old (propose
        { range := range
          protection := if oldStop < newStop then .readWrite else .none
          operation := if oldStop < newStop then .prepare else .retire
          result := requested
          policyValue := requested
          requireCoverage := false
          source := none
          flags := .anonymousPrivate })

/-! ## Import and host edits -/

/-- Register the byte source of a node to insert, if it has one. -/
def registerSource : Option HostBackingIdentity -> Guarded Unit
  | none => pure ()
  | some source => sourceReserve source.name

/-- Insert a node into a free range, registering its byte source first. -/
def insertBackedNode (range : ReservationRange) (prot : ReservationProtection)
    (flags : ReservationNodeFlags) (backing : Option HostBackingIdentity) : Guarded Unit := do
  require (backing.all (fun source => (source.advance range.len).isSome)) .invalid
  require (!(flags.contains .image && (← observe Root.admitted))) .invalid
  require (!(← observe Root.editExcluded)) .busy
  require (← observe (fun root => root.isFree range)) .collision
  let _ ← hostNode
  registerSource backing
  createNode ⟨range.start, range.stop, prot, flags, 0, backing⟩

/-- A row of the image that is imported before admission. -/
def importRow (range : ReservationRange) (prot : ReservationProtection)
    (flags : ReservationNodeFlags) (backing : Option HostBackingIdentity) : Guarded Unit := do
  require (!(← observe Root.admitted)) .stale
  insertBackedNode range prot flags backing

def configureImport (layout : Layout) : Guarded Unit := do
  require (← observe (fun root => !root.admitted && decide (root.tree.toList = []))) .stale
  edit (fun root => { root with layout := layout })

/-- The nodes kept aside for the host's own edits. -/
def hostReserve : Nat := 8

/-- Fill the host reserve of an unadmitted root. -/
def secureHostNodes : Guarded Unit := do
  require (← observe (fun root => decide (hostReserve <= root.around.supply.length)))
    .metadataRequired

/-- Ask for the notifications of the address space. -/
def admitNotifications : Guarded Unit := fun root => (root.around.notifications, root)

/-- Seal the import, once the host's reserve can be filled. -/
def finishImport : Guarded Unit := do
  require (!(← observe Root.admitted)) .stale
  secureHostNodes
  admitNotifications
  edit (fun root => { root with admitted := true })

/-- The generation a host edit will commit. -/
def hostEditAdmitted : Guarded Nat := do
  require (← observe Root.admitted) .stale
  require (!(← observe Root.editExcluded)) .busy
  demand (Root.checkedNext (← observe Root.generation)) .stale

/-- Host commit of a mapping it served itself: an opaque obstacle. -/
def insertOpaqueBacked (range : ReservationRange) (prot : ReservationProtection)
    (flags : ReservationNodeFlags) (backing : Option HostBackingIdentity) : Guarded Unit := do
  require (!(← observe (fun root => root.preparedOverlaps range))) .preparedConflict
  let generation ← hostEditAdmitted
  insertBackedNode range prot (flags.difference .anonymous) backing
  edit (fun root => { root with generation := generation })

/-- Host commit of a retirement it served itself, whatever the nodes are. -/
def retireOpaque (range : ReservationRange) : Guarded Unit := do
  require (!(← observe (fun root => root.preparedOverlaps range))) .preparedConflict
  let generation ← hostEditAdmitted
  let spares ← allocateSpares (← observe (fun root => root.splitsNeeded range))
  let _ ← removeRange range spares
  edit (fun root => { root with generation := generation })

/-- Check an attribute edit from the cursor on: every node may take the
attributes, and no hole is met. -/
def attributesCheckedFrom (root : Root) (range : ReservationRange) (set : ReservationNodeFlags) :
    Nat -> Nat -> Except Refusal Nat
  | 0, cursor => .ok cursor
  | fuel + 1, cursor =>
    match (root.next cursor).filter (fun node => decide (node.start < range.stop)) with
    | none => .ok cursor
    | some node =>
      if node.validatesAttributes set = false then .error .invalid
      else if cursor < node.start then .error .hole
      else if min node.stop range.stop = range.stop then .ok range.stop
      else attributesCheckedFrom root range set fuel (min node.stop range.stop)

def attributesChecked (root : Root) (range : ReservationRange) (set : ReservationNodeFlags) :
    Except Refusal Unit := do
  let cursor ← attributesCheckedFrom root range set range.pages range.start
  if cursor ≠ range.stop then throw .hole

/-- Rewrite the attributes of the nodes from the cursor up to the range's end. -/
def rewriteFlags (range : ReservationRange) (set clear : ReservationNodeFlags) :
    Nat -> Nat -> Guarded Unit
  | 0, _ => pure ()
  | fuel + 1, cursor =>
    if cursor < range.stop then do
      match (← observe (fun root => root.next cursor)) with
      | none => pure ()
      | some node => do
          let flags := (node.flags.union set).difference clear
          if flags ≠ node.flags then do
            edit (fun root => { root with tree := eraseNode node.start root.tree })
            insertCoalescing { node with flags := flags }
          rewriteFlags range set clear fuel (min node.stop range.stop)
    else pure ()

/-- Host commit of an attribute edit over a fully mapped range. -/
def setFlags (range : ReservationRange) (set clear : ReservationNodeFlags) : Guarded Unit := do
  require (ReservationNodeFlags.attributes.contains set &&
    ReservationNodeFlags.attributes.contains clear && !set.intersects clear) .invalid
  let generation ← hostEditAdmitted
  ofExcept (← observe (fun root => attributesChecked root range set))
  let spares ← allocateSpares (← observe (fun root => root.splitsNeeded range))
  let _ ← splitBounds range spares
  rewriteFlags range set clear range.pages range.start
  edit (fun root => { root with generation := generation })

/-! ## Limits and fork publication -/

def setLimits (addressLimit dataLimit : Nat) : Guarded Unit :=
  edit (fun root =>
    { root with
      layout := { root.layout with
        policy := { root.layout.policy with addressLimit := addressLimit, dataLimit := dataLimit } } })

def setExternalCharges (addressBytes dataBytes : Nat) : Guarded Unit :=
  edit (fun root =>
    { root with
      layout := { root.layout with
        policy := { root.layout.policy with
          externalAddressBytes := addressBytes, externalDataBytes := dataBytes } } })

def nextTransferSequence : Guarded Nat := do
  require (!(← observe Root.forkPending)) .busy
  let sequence ← demand (Root.checkedNext (← observe Root.sequence)) .stale
  edit (fun root => { root with sequence := sequence })
  pure sequence

/-- Whether a caller holds the certificate of the fork being published. -/
def Root.forkWriteAuthorized (root : Root) (sequence : Nat) : Bool :=
  root.forkPending && root.familyHeader && decide (root.forkCertificate = sequence)

def beginForkPublication (sequence : Nat) : Guarded Unit := do
  require (← observe (fun root =>
    root.around.prepared.isEmpty && !root.editExcluded && root.around.owed.isEmpty)) .busy
  ensureFamilyHeader
  edit (fun root =>
    { root with forkCertificate := sequence, forkPending := true, sequence := sequence })

def publishForkParent (sequence : Nat) : Guarded Nat := do
  require (!(← observe Root.editExcluded)) .stale
  let generation ← demand (Root.checkedNext (← observe Root.generation)) .stale
  edit (fun root =>
    { root with forkPending := true, sequence := sequence, generation := generation })
  pure generation

def publishForkChild (sequence : Nat) : Guarded Unit := do
  require (← observe (fun root => root.admitted && !root.editExcluded)) .stale
  edit (fun root => { root with forkPending := true, sequence := sequence })

def finishForkPublication (sequence : Nat) : Guarded Unit := do
  require (← observe (fun root => root.forkWriteAuthorized sequence)) .stale
  edit (fun root => { root with forkPending := false })

def commitForkGeneration : Guarded Nat := do
  let generation ← demand (Root.checkedNext (← observe Root.generation)) .stale
  edit (fun root => { root with generation := generation })
  pure generation

/-! ## One call -/

/-- What can be done to one root under its guard. -/
inductive Call where
  | configureImport (layout : Layout)
  | importRow (range : ReservationRange) (prot : ReservationProtection)
      (flags : ReservationNodeFlags) (backing : Option HostBackingIdentity)
  | finishImport
  | mmap (placement : Placement) (len : Nat) (prot : ReservationProtection)
  | mmapPrivateFile (placement : Placement) (len : Nat) (prot : ReservationProtection)
      (backing : HostBackingIdentity)
  | munmap (range : ReservationRange)
  | mprotect (range : ReservationRange) (prot : ReservationProtection)
  | reserveRange (range : ReservationRange)
  | decommitRange (range : ReservationRange)
  | mremap (source : ReservationRange) (newLen : Nat) (target : MoveTarget)
  | brk (requested : Nat)
  | complete (request : ReservationRequest)
  | completeHostOwned (request : ReservationRequest)
  | refusePending (request : ReservationRequest)
  | insertOpaqueBacked (range : ReservationRange) (prot : ReservationProtection)
      (flags : ReservationNodeFlags) (backing : Option HostBackingIdentity)
  | retireOpaque (range : ReservationRange)
  | setFlags (range : ReservationRange) (set clear : ReservationNodeFlags)
  | writePendingBacking (backing : HostBackingIdentity)
  | retireUnusedSource (name : SourceName)
  | takeRetiredHostBacking
  | setLimits (addressLimit dataLimit : Nat)
  | setExternalCharges (addressBytes dataBytes : Nat)
  | nextTransferSequence
  | beginForkPublication (sequence : Nat)
  | publishForkParent (sequence : Nat)
  | publishForkChild (sequence : Nat)
  | finishForkPublication (sequence : Nat)
  | commitForkGeneration
  deriving DecidableEq

inductive Answer where
  | done
  | value (value : Nat)
  | decision (decision : Decision)
  | retired (name : Option SourceName)
  deriving DecidableEq

/-- Replace the value a command returns. -/
def answering {α : Type} (answer : α -> Answer) (command : Guarded α) : Guarded Answer := do
  let value ← command
  pure (answer value)

def Call.run : Call -> Guarded Answer
  | configureImport layout => answering (fun _ => .done) (Reservation.configureImport layout)
  | importRow range prot flags backing =>
    answering (fun _ => .done) (Reservation.importRow range prot flags backing)
  | finishImport => answering (fun _ => .done) Reservation.finishImport
  | mmap placement len prot => answering .decision (Reservation.mmap placement len prot)
  | mmapPrivateFile placement len prot backing =>
    answering .decision (Reservation.mmapPrivateFile placement len prot backing)
  | munmap range => answering .decision (Reservation.munmap range)
  | mprotect range prot => answering .decision (Reservation.mprotect range prot)
  | reserveRange range => answering .decision (Reservation.reserveRange range)
  | decommitRange range => answering .decision (Reservation.decommitRange range)
  | mremap source newLen target => answering .decision (Reservation.mremap source newLen target)
  | brk requested => answering .decision (Reservation.brk requested)
  | complete request => answering .value (Reservation.complete request)
  | completeHostOwned request => answering .value (Reservation.completeHostOwned request)
  | refusePending request => answering (fun _ => .done) (Reservation.refusePending request)
  | insertOpaqueBacked range prot flags backing =>
    answering (fun _ => .done) (Reservation.insertOpaqueBacked range prot flags backing)
  | retireOpaque range => answering (fun _ => .done) (Reservation.retireOpaque range)
  | setFlags range set clear => answering (fun _ => .done) (Reservation.setFlags range set clear)
  | writePendingBacking backing =>
    answering (fun _ => .done) (Reservation.writePendingBacking backing)
  | retireUnusedSource name => answering (fun _ => .done) (Reservation.retireUnusedSource name)
  | takeRetiredHostBacking => answering .retired Reservation.takeRetiredHostBacking
  | setLimits addressLimit dataLimit =>
    answering (fun _ => .done) (Reservation.setLimits addressLimit dataLimit)
  | setExternalCharges addressBytes dataBytes =>
    answering (fun _ => .done) (Reservation.setExternalCharges addressBytes dataBytes)
  | nextTransferSequence => answering .value Reservation.nextTransferSequence
  | beginForkPublication sequence =>
    answering (fun _ => .done) (Reservation.beginForkPublication sequence)
  | publishForkParent sequence => answering .value (Reservation.publishForkParent sequence)
  | publishForkChild sequence => answering (fun _ => .done) (Reservation.publishForkChild sequence)
  | finishForkPublication sequence =>
    answering (fun _ => .done) (Reservation.finishForkPublication sequence)
  | commitForkGeneration => answering .value Reservation.commitForkGeneration

/-- One call in the surroundings it finds. -/
structure Event where
  call : Call
  around : Surroundings
  deriving DecidableEq

def Root.within (root : Root) (around : Surroundings) : Root := { root with around := around }

def Event.run (event : Event) (root : Root) : Except Refusal Answer × Root :=
  event.call.run (root.within event.around)

end Reservation
end Carrick

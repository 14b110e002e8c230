import Carrick.Reservation.Charges

namespace Carrick
namespace Reservation

open Foundation
open Command

/-!
# Admission is exact

From the call that proposes an edit to the completion that commits it, other
calls may run.  While the proposal is pending none of them edits the tree,
except completions that are refused half way, and those only unmap pages that
the edit replaces anyway.  So the completed edit leaves the totals that the
proposal was admitted for.
-/

/-! ## While a proposal is pending -/

/-- Nothing but the spares of a pending proposal changed, unless it is gone. -/
structure Repends (before after : Root) : Prop where
  tree : after.tree = before.tree
  pending : ∀ later, after.pending = some later -> ∃ earlier, before.pending = some earlier ∧
    later.request = earlier.request ∧ later.flags = earlier.flags

theorem Repends.refl (root : Root) : Repends root root :=
  ⟨rfl, fun later has => ⟨later, has, rfl, rfl⟩⟩

theorem Repends.trans (first second third : Root) (earlier : Repends first second)
    (later : Repends second third) : Repends first third := by
  refine ⟨later.tree.trans earlier.tree, fun last has => ?_⟩
  rcases later.pending last has with ⟨middle, hasMiddle, request, flags⟩
  rcases earlier.pending middle hasMiddle with ⟨original, hasOriginal, sameRequest, sameFlags⟩
  exact ⟨original, hasOriginal, request.trans sameRequest, flags.trans sameFlags⟩

instance : IsPreorder Root Repends where
  refl := Repends.refl
  trans := Repends.trans

variable {before after : Root}

theorem Repends.of_same (tree : after.tree = before.tree)
    (pending : after.pending = before.pending) : Repends before after :=
  ⟨tree, fun later has => ⟨later, pending ▸ has, rfl, rfl⟩⟩

variable {α : Type}

theorem Repends.of_untouched (untouched : Untouched before after) : Repends before after :=
  Repends.of_same untouched.tree untouched.pending

theorem Repends.of_sameMap {command : Guarded α} {answer : α -> Answer}
    (same : Relates SameMap command) : Relates Repends (answering answer command) :=
  answering_relates (fun root => Repends.of_same (same root).tree (same root).pending)

theorem refusePending_repends (request : ReservationRequest) :
    Relates Repends (refusePending request) := by
  refine Relates.observing (fun found => ?_)
  refine Relates.demanding (fun pending => ?_)
  refine Relates.requiring ?_
  exact fun root => ⟨rfl, nofun⟩

theorem writePendingBacking_repends (backing : HostBackingIdentity) :
    Relates Repends (writePendingBacking backing) := by
  intro root
  unfold writePendingBacking
  rw [observe_bind_apply]
  cases has : root.pending with
  | none => exact Repends.refl root
  | some pending =>
    rw [demand_bind_some rfl]
    cases pending.nodes with
    | nil => exact Repends.refl root
    | cons first others =>
      have same := sourceReserve_sameMap backing.name root
      cases reserved : sourceReserve backing.name root with
      | mk answer middle =>
        rw [reserved] at same
        cases answer with
        | error reason =>
          dsimp only
          rw [bind_of_error reserved]
          exact Repends.of_same same.tree same.pending
        | ok done =>
          dsimp only
          rw [bind_of_ok reserved]
          refine ⟨same.tree, ?_⟩
          rintro later ⟨rfl⟩
          exact ⟨pending, has, rfl, rfl⟩

theorem writeOrRefuse_repends (backing : HostBackingIdentity) (request : ReservationRequest) :
    Relates Repends (writeOrRefuse backing request) := by
  intro root
  have written := writePendingBacking_repends backing root
  unfold writeOrRefuse
  cases ran : writePendingBacking backing root with
  | mk answer middle =>
    rw [ran] at written
    cases answer with
    | ok done => exact written
    | error reason =>
      have refused : Relates Repends (do refusePending request; refuse reason : Guarded Unit) :=
        Relates.bind (refusePending_repends request)
          (fun _ => Relates.refuse _)
      exact Repends.trans _ _ _ written (refused middle)

theorem carryBacking_repends (source : ReservationRange) (backing : HostBackingIdentity)
    (request : ReservationRequest) : Relates Repends (carryBacking source backing request) := by
  refine Relates.observing (fun found => ?_)
  refine Relates.demanding (fun result => ?_)
  refine Relates.demanding (fun carried => ?_)
  split
  · refine Relates.bind (refusePending_repends request) (fun _ => ?_)
    exact Relates.refuse _
  · exact writePendingBacking_repends carried

/-! ## Host edits do not meet a pending proposal -/

/-- A pending proposal is neither dropped nor edited under. -/
structure Excludes (before after : Root) : Prop where
  pending : after.pending = before.pending
  tree : before.pending ≠ none -> after.tree = before.tree

theorem Excludes.of_same (tree : after.tree = before.tree)
    (pending : after.pending = before.pending) : Excludes before after :=
  ⟨pending, fun _ => tree⟩

variable {range : ReservationRange}

variable {root : Root} {flags : ReservationNodeFlags}

theorem Inserted.excludes (tidy : Tidy root.tree) {prot : ReservationProtection}
    {backing : Option HostBackingIdentity}
    {answer : Except Refusal Unit}
    (inserted : Inserted ⟨range.start, range.stop, prot, flags, 0, backing⟩ root answer after) :
    Excludes root after := by
  rcases inserted with ⟨steady, same, _⟩ | ⟨middle, inserting, ran⟩
  · exact Excludes.of_same steady.tree same
  have tree := inserting.tree
  have pending : after.pending = root.pending := by
    rw [inserting.idle]
    rcases createNode_spec (tree ▸ tidy) (range_formed range prot flags 0 backing)
      (tree ▸ inserting.free) with ⟨_, _, ranOther, created⟩ | ⟨_, ranOther, created⟩
    · rw [ran] at ranOther
      cases ranOther
      exact created.pending.trans inserting.still_idle
    · rw [ran] at ranOther
      cases ranOther
      exact created.pending.trans inserting.still_idle
  exact ⟨pending, fun busy => absurd inserting.idle busy⟩

theorem importRow_excludes (tidy : Tidy root.tree) (range : ReservationRange)
    (prot : ReservationProtection) (flags : ReservationNodeFlags)
    (backing : Option HostBackingIdentity) :
    Ends (fun _ => Excludes root) (importRow range prot flags backing) root := by
  refine Ends.observe (Ends.require (Excludes.of_same rfl rfl) (fun _ => ?_))
  exact (insertBackedNode_inserted tidy range prot flags backing).excludes tidy

theorem insertOpaqueBacked_excludes (tidy : Tidy root.tree) (range : ReservationRange)
    (prot : ReservationProtection) (flags : ReservationNodeFlags)
    (backing : Option HostBackingIdentity) :
    Ends (fun _ => Excludes root) (insertOpaqueBacked range prot flags backing) root := by
  refine Ends.observe (Ends.require (Excludes.of_same rfl rfl) (fun _ => ?_))
  refine hostEditAdmitted_bind_ends (fun _ => Excludes.of_same rfl rfl) (fun _ generation => ?_)
  have inserting := insertBackedNode_inserted tidy range prot (flags.difference .anonymous) backing
  refine Ends.bind (fun reason after ran => (inserting.of_eq ran).excludes tidy)
    (fun _ after ran => ?_)
  have excludes := (inserting.of_eq ran).excludes tidy
  exact ⟨excludes.pending, excludes.tree⟩

theorem retireOpaque_excludes (tidy : Tidy root.tree) (range : ReservationRange) :
    Ends (fun _ => Excludes root) (retireOpaque range) root := by
  refine Ends.observe (Ends.require (Excludes.of_same rfl rfl) (fun _ => ?_))
  refine hostEditAdmitted_bind_ends (fun _ => Excludes.of_same rfl rfl) (fun idle generation => ?_)
  refine Ends.observe ?_
  have taken := allocateSpares_untouched (root.splitsNeeded range) root
  refine Ends.bind (fun reason middle ran => ?_) (fun spares middle ran => ?_)
  · rw [ran] at taken
    exact Excludes.of_same taken.tree taken.pending
  rw [ran] at taken
  rcases removeRange_spec range spares (taken.tree ▸ tidy) with ⟨answer, removed, ranRemove, emptied, _⟩
  have pending : removed.pending = root.pending := emptied.pending.trans taken.pending
  refine Ends.bind (fun reason last ranLast => ?_) (fun rest last ranLast => ?_)
  · rw [ranRemove] at ranLast
    cases ranLast
    exact ⟨pending, fun busy => absurd idle busy⟩
  · rw [ranRemove] at ranLast
    cases ranLast
    exact ⟨pending, fun busy => absurd idle busy⟩

theorem setFlags_excludes (tidy : Tidy root.tree) (range : ReservationRange)
    (set clear : ReservationNodeFlags) :
    Ends (fun _ => Excludes root) (setFlags range set clear) root := by
  have attributed := setFlags_attributed tidy range set clear
  unfold Ends at attributed ⊢
  rcases attributed with ⟨untouched, _⟩ | ⟨middle, edited, _, taken, idle, recoloured, _, _, _, _, same⟩
  · exact Excludes.of_same untouched.tree untouched.pending
  · rw [same]
    refine ⟨?_, fun busy => absurd (taken.pending.symm.trans idle) busy⟩
    exact recoloured.pending.trans taken.pending

/-! ## Completions that stop half way -/

/-- Some of the pages that a request replaces are unmapped, and nothing else
changed. -/
def PartlyDone (request : ReservationRequest) (before after : Nat -> Option Page) : Prop :=
  ∀ address, after address = before address ∨
    request.operation.reprotects = false ∧ after address = none ∧
      (request.range.contains address = true ∨ inSource request.source address = true)

theorem PartlyDone.refl (request : ReservationRequest) (map : Nat -> Option Page) :
    PartlyDone request map map := fun _ => .inl rfl

variable {request : ReservationRequest}

theorem PartlyDone.trans {first second third : Nat -> Option Page}
    (earlier : PartlyDone request first second) (later : PartlyDone request second third) :
    PartlyDone request first third := by
  intro address
  rcases later address with same | gone
  · rcases earlier address with kept | ⟨removes, gone, inside⟩
    · exact .inl (same.trans kept)
    · exact .inr ⟨removes, same.trans gone, inside⟩
  · exact .inr gone

theorem PartlyDone.of_tree (tree : after.tree = before.tree) :
    PartlyDone request (pages before.tree) (pages after.tree) := by
  rw [tree]
  exact PartlyDone.refl request _

theorem Emptied.partly (emptied : Emptied range before after)
    (removes : request.operation.reprotects = false)
    (inside : ∀ address, range.contains address = true -> request.range.contains address =
      true ∨ inSource request.source address = true) :
    PartlyDone request (pages before.tree) (pages after.tree) := by
  intro address
  rcases emptied.cells_or address with same | ⟨within, gone⟩
  · exact .inl (pages_of_cells same)
  · refine .inr ⟨removes, ?_, inside address within⟩
    unfold pages
    rw [gone]
    rfl

variable {spares : List SpareNode}

theorem removeSource_partly (tidy : Tidy root.tree)
    (only : request.operation.reprotects = true -> request.source = none) :
    Ends (fun _ after => Tidy after.tree ∧
        PartlyDone request (pages root.tree) (pages after.tree))
      (removeSource request.source spares) root := by
  cases source : request.source with
  | none => exact ⟨tidy, PartlyDone.refl request _⟩
  | some range =>
    have removes : request.operation.reprotects = false := by
      by_contra reprotects
      rw [only (by simpa using reprotects)] at source
      cases source
    rcases removeRange_spec range spares tidy with ⟨answer, after, ran, emptied, _⟩
    have removing : removeSource (some range) spares root = (answer, after) := ran
    unfold Ends
    rw [removing]
    refine ⟨emptied.tidy, emptied.partly removes (fun address within => .inr ?_)⟩
    unfold inSource
    rw [source, Option.any_some]
    exact within

theorem editRange_partly (tidy : Tidy root.tree) :
    Ends (fun answer after => Tidy after.tree ∧
        ((request.operation.reprotects = false ∨ ∃ reason, answer = .error reason) ->
          PartlyDone request (pages root.tree) (pages after.tree)))
      (editRange request spares) root := by
  unfold editRange
  cases reprotects : request.operation.reprotects with
  | true =>
    rcases reprotectRange_spec request.range request.protection spares tidy with
      ⟨answer, tree, ran, tidyAfter, failed, _⟩
    unfold Ends
    rw [if_pos rfl, ran]
    refine ⟨tidyAfter, ?_⟩
    rintro (wrong | ⟨reason, refused⟩)
    · cases wrong
    · exact fun address => .inl (pages_of_cells (failed reason refused address))
  | false =>
    rcases removeRange_spec request.range spares tidy with ⟨answer, after, ran, emptied, _⟩
    unfold Ends
    rw [if_neg Bool.false_ne_true, ran]
    exact ⟨emptied.tidy, fun _ => emptied.partly reprotects (fun address within => .inl within)⟩

variable {reason : Refusal}

/-- An edit that is refused has unmapped some of what it replaces. -/
theorem applyEdit_partly
    {backing : Option HostBackingIdentity} (tidy : Tidy root.tree)
    (only : request.operation.reprotects = true -> request.source = none)
    (ran : applyEdit request flags backing spares root = (.error reason, after)) :
    PartlyDone request (pages root.tree) (pages after.tree) := by
  have outcome : Ends (fun answer after => (∃ reason, answer = .error reason) ->
      PartlyDone request (pages root.tree) (pages after.tree))
      (applyEdit request flags backing spares) root := by
    refine Ends.bind (fun reason first ranSource _ => ?_) (fun rest first ranSource => ?_)
    · exact ((removeSource_partly tidy only).of_eq ranSource).2
    rcases (removeSource_partly tidy only).of_eq ranSource with ⟨tidyFirst, firstDone⟩
    refine Ends.bind (fun reason second ranRange _ => ?_) (fun last second ranRange => ?_)
    · exact firstDone.trans (((editRange_partly tidyFirst).of_eq ranRange).2 (.inr ⟨reason, rfl⟩))
    rcases (editRange_partly tidyFirst).of_eq ranRange with ⟨tidySecond, secondDone⟩
    unfold Ends installNode
    cases installs : request.operation.installs with
    | false =>
      rw [if_neg Bool.false_ne_true]
      rintro ⟨_, wrong⟩
      cases wrong
    | true =>
      rw [if_pos rfl]
      intro failed
      have removes : request.operation.reprotects = false := by
        by_contra reprotects
        rw [ReservationOperation.installs_of_reprotects (by simpa using reprotects)] at installs
        cases installs
      have both := firstDone.trans (secondDone (.inl removes))
      cases last with
      | nil => exact both
      | cons spare others =>
        have cleared : ∀ address, request.range.contains address = true ->
            cells second.tree address = none := by
          unfold editRange at ranRange
          rw [removes, if_neg Bool.false_ne_true] at ranRange
          rcases removeRange_spec request.range rest tidyFirst with ⟨_, _, ranSpec, _, done, _⟩
          rw [ranRange] at ranSpec
          cases ranSpec
          exact (done _ rfl).1
        rcases createNode_spec tidySecond
          (range_formed request.range request.protection flags 0 backing)
          (free_of_cells tidySecond cleared) with ⟨_, last, ranCreate, created⟩ | ⟨last, ranCreate, _⟩
        · have step : (do
              let _ <- takeSpare (spare :: others)
              createNode (request.createdNode flags backing) : Guarded Unit) second =
              (.error _, last) := ranCreate
          rw [step]
          exact both.trans (PartlyDone.of_tree created.tree)
        have step : (do
            let _ <- takeSpare (spare :: others)
            createNode (request.createdNode flags backing) : Guarded Unit) second =
            (.ok (), last) := ranCreate
        rw [step] at failed
        rcases failed with ⟨_, wrong⟩
        cases wrong
  exact outcome.of_eq ran ⟨reason, rfl⟩

/-- A completion that is refused, on a root whose generation can go on. -/
theorem completeAs_partly (tidy : Tidy root.tree)
    {hostOwned : Bool} (counter : (Root.checkedNext request.generation).isSome = true)
    (only : request.operation.reprotects = true -> request.source = none)
    (ran : completeAs request hostOwned root = (.error reason, after)) :
    after.pending = root.pending ∧ PartlyDone request (pages root.tree) (pages after.tree) := by
  rcases completeAs_cases request hostOwned root with
    ⟨_, refused, _⟩ | ⟨pending, has, authentic, shape⟩
  · rw [ran] at refused
    cases refused
    exact ⟨rfl, PartlyDone.refl request _⟩
  rcases authenticates_iff.mp authentic with ⟨isRequest, _, generation⟩
  rcases applyEdit_spec pending.request (pending.createdFlags hostOwned)
    (pending.created hostOwned) pending.nodes tidy with ⟨answer, edited, ranEdit, effects, _⟩
  rw [shape] at ran
  cases answer with
  | error refusal =>
    rw [bind_of_error ranEdit] at ran
    cases ran
    rw [isRequest] at only ⊢
    exact ⟨effects.frame.pending, applyEdit_partly tidy only ranEdit⟩
  | ok done =>
    rw [bind_of_ok ranEdit] at ran
    have next : (Root.checkedNext edited.generation).isSome = true := by
      rw [effects.frame.generation, <- generation, <- isRequest]
      exact counter
    have settled := (settlePending_of_next pending next).1
    rw [ran] at settled
    cases settled

/-! ## Waiting for the completion -/

/-- A call that finds the request pending leaves it so, or ends it. -/
structure Waiting (request : ReservationRequest) (flags : ReservationNodeFlags) (before after : Root) :
    Prop where
  pending : ∀ later, after.pending = some later -> later.request = request ∧ later.flags = flags
  partly : after.pending ≠ none -> PartlyDone request (pages before.tree) (pages after.tree)

/-- The request is pending, with the attributes it was proposed with. -/
def Held (request : ReservationRequest) (flags : ReservationNodeFlags) (root : Root) : Prop :=
  ∃ pending, root.pending = some pending ∧ pending.request = request ∧ pending.flags = flags

section Wait

theorem Held.busy (held : Held request flags root) : root.pending ≠ none := by
  rcases held with ⟨pending, has, _⟩
  rw [has]
  exact Option.some_ne_none _

theorem Repends.waiting (held : Held request flags root) (repends : Repends root after) :
    Waiting request flags root after := by
  refine ⟨fun later has => ?_, fun _ => PartlyDone.of_tree repends.tree⟩
  rcases held with ⟨pending, hasPending, sameRequest, sameFlags⟩
  rcases repends.pending later has with ⟨earlier, hasEarlier, keptRequest, keptFlags⟩
  rw [hasPending] at hasEarlier
  cases hasEarlier
  exact ⟨keptRequest.trans sameRequest, keptFlags.trans sameFlags⟩

theorem Excludes.waiting (held : Held request flags root) (excludes : Excludes root after) :
    Waiting request flags root after :=
  Repends.waiting held (Repends.of_same (excludes.tree held.busy) excludes.pending)

/-- Nothing happens while a proposal is pending. -/
def Stalls (before after : Root) : Prop :=
  before.pending ≠ none -> after.pending = before.pending ∧ after.tree = before.tree

theorem Stalls.waiting (held : Held request flags root) (stalls : Stalls root after) :
    Waiting request flags root after :=
  Repends.waiting held (Repends.of_same (stalls held.busy).2 (stalls held.busy).1)

theorem Tolerant.stalls : Tolerant Stalls := by
  refine ⟨fun _ _ => ⟨rfl, rfl⟩, ?_, fun _ _ untouched _ => ⟨untouched.pending, untouched.tree⟩, ?_⟩
  · intro first second third earlier later busy
    rcases earlier busy with ⟨pending, tree⟩
    rcases later (pending.symm ▸ busy) with ⟨lastPending, lastTree⟩
    exact ⟨lastPending.trans pending, lastTree.trans tree⟩
  intro proposal _ root busy
  rcases propose_cases proposal root with ⟨_, _, ran, untouched⟩ | ⟨_, _, _, proposed⟩
  · rw [ran]
    exact ⟨untouched.pending, untouched.tree⟩
  · exact absurd proposed.excluded busy

instance : IsPreorder Root Stalls where
  refl := Tolerant.stalls.refl
  trans := Tolerant.stalls.trans

theorem editExcluded_of_busy (busy : root.pending ≠ none) : (!root.editExcluded) = false := by
  unfold Root.editExcluded
  rw [Option.isSome_iff_ne_none.mpr busy]
  rfl

theorem mmapPrivateFile_stalls (placement : Placement) (len : Nat) (prot : ReservationProtection)
    (backing : HostBackingIdentity) : Relates Stalls (mmapPrivateFile placement len prot backing) := by
  intro root busy
  unfold mmapPrivateFile
  rw [observe_bind_apply, require_bind_false (editExcluded_of_busy busy)]
  exact ⟨rfl, rfl⟩

theorem mremap_stalls (source : ReservationRange) (newLen : Nat) (target : MoveTarget) :
    Relates Stalls (mremap source newLen target) := by
  intro root busy
  have refused : ∃ reason, mremapInner source newLen target root = (.error reason, root) := by
    unfold mremapInner
    rw [observe_bind_apply]
    cases root.admitted with
    | false => exact ⟨.stale, rfl⟩
    | true =>
      rw [require_bind_true rfl, observe_bind_apply,
        require_bind_false (editExcluded_of_busy busy)]
      exact ⟨.busy, rfl⟩
  rcases refused with ⟨reason, ran⟩
  unfold mremap
  rw [observe_bind_apply, bind_of_error ran]
  exact ⟨rfl, rfl⟩

section Held

variable (tidy : Tidy root.tree) (held : Held request flags root)
  (counter : (Root.checkedNext request.generation).isSome = true)
  (only : request.operation.reprotects = true -> request.source = none)

include tidy held counter only

theorem completeAs_waiting (asked : ReservationRequest) (hostOwned : Bool) :
    Ends (fun _ => Waiting request flags root) (completeAs asked hostOwned) root := by
  unfold Ends
  rcases completeAs_cases asked hostOwned root with ⟨_, refused, _⟩ | ⟨pending, has, authentic, shape⟩
  · rw [refused]
    exact Repends.waiting held (Repends.refl root)
  rcases held with ⟨other, hasOther, sameRequest, sameFlags⟩
  rw [has] at hasOther
  cases hasOther
  have asks : asked = request := (authenticates_iff.mp authentic).1.trans sameRequest
  subst asks
  cases ran : completeAs asked hostOwned root with
  | mk answer after =>
    cases answer with
    | error reason =>
      rcases completeAs_partly tidy counter only ran with ⟨same, partly⟩
      refine ⟨fun later hasLater => ?_, fun _ => partly⟩
      rw [same, has] at hasLater
      cases hasLater
      exact ⟨sameRequest, sameFlags⟩
    | ok result =>
      rw [shape] at ran
      rcases bind_eq_ok ran with ⟨_, edited, _, settling⟩
      unfold settlePending at settling
      rw [edit_bind_apply, observe_bind_apply] at settling
      rcases bind_eq_ok settling with ⟨_, _, demanded, finished⟩
      cases finished
      exact ⟨nofun, fun wrong => absurd rfl wrong⟩

theorem run_waiting (call : Call) :
    Waiting request flags root (call.run root).2 := by
  have stalled : ∀ {α : Type} {command : Guarded α} {answer : α -> Answer},
      Relates Stalls command -> Waiting request flags root (answering answer command root).2 := by
    intro α command answer stalls
    refine Stalls.waiting held (Relates.bind stalls (fun _ => ?_) root)
    exact Relates.pure _
  have ended : ∀ {α : Type} {command : Guarded α} {answer : α -> Answer},
      Ends (fun _ => Waiting request flags root) command root ->
        Waiting request flags root (answering answer command root).2 := by
    intro α command answer ends
    exact Ends.answer ends
  have excluded : ∀ {α : Type} {command : Guarded α} {answer : α -> Answer},
      Ends (fun _ => Excludes root) command root ->
        Waiting request flags root (answering answer command root).2 := by
    intro α command answer ends
    exact Excludes.waiting held (Ends.answer ends)
  by_cases aside : call.aside = true
  · exact Repends.waiting held (Repends.of_untouched (run_untouched aside root))
  by_cases proposes : call.proposes = true
  · exact Stalls.waiting held (run_tolerant Tolerant.stalls proposes root)
  cases call with
  | importRow range prot flags backing => exact excluded (importRow_excludes tidy range prot flags backing)
  | mmapPrivateFile placement len prot backing =>
    exact stalled (mmapPrivateFile_stalls placement len prot backing)
  | mremap source newLen target => exact stalled (mremap_stalls source newLen target)
  | complete asked => exact ended (completeAs_waiting tidy held counter only asked false)
  | completeHostOwned asked =>
    refine ended (Ends.observe (Ends.require ?_ (fun _ => ?_)))
    · exact Repends.waiting held (Repends.refl root)
    · exact completeAs_waiting tidy held counter only asked true
  | refusePending asked => exact ended (Repends.waiting held (refusePending_repends asked root))
  | insertOpaqueBacked range prot flags backing =>
    exact excluded (insertOpaqueBacked_excludes tidy range prot flags backing)
  | retireOpaque range => exact excluded (retireOpaque_excludes tidy range)
  | setFlags range set clear => exact excluded (setFlags_excludes tidy range set clear)
  | writePendingBacking backing =>
    exact ended (Repends.waiting held (writePendingBacking_repends backing root))
  | retireUnusedSource name =>
    exact Repends.waiting held (Repends.of_sameMap (retireUnusedSource_sameMap name) root)
  | takeRetiredHostBacking =>
    exact Repends.waiting held (Repends.of_sameMap takeRetiredHostBacking_sameMap root)
  | _ => first | exact absurd rfl aside | exact absurd rfl proposes

end Held

end Wait

/-- The request stays pending through all of the events. -/
def Awaits (request : ReservationRequest) : List Event -> Root -> Prop
  | [], _ => True
  | event :: rest, root =>
    (event.run root).2.pending.map Pending.request = some request ∧
      Awaits request rest (event.run root).2

theorem awaits_held
    (aged : Aged root) (held : Held request flags root)
    (counter : (Root.checkedNext request.generation).isSome = true)
    (only : request.operation.reprotects = true -> request.source = none) {events : List Event}
    (awaits : Awaits request events root) :
    Held request flags (runAll events root) ∧ Aged (runAll events root) ∧
      PartlyDone request (pages root.tree) (pages (runAll events root).tree) := by
  induction events generalizing root with
  | nil => exact ⟨held, aged, PartlyDone.refl request _⟩
  | cons event rest ih =>
    have heldHere : Held request flags (root.within event.around) := held
    have tidyHere : Tidy (root.within event.around).tree := aged.tidy
    have waiting : Waiting request flags (root.within event.around) (event.run root).2 :=
      run_waiting tidyHere heldHere counter only event.call
    rcases Option.map_eq_some_iff.mp awaits.1 with ⟨later, has, _⟩
    have stillHeld : Held request flags (event.run root).2 :=
      ⟨later, has, (waiting.pending later has).1, (waiting.pending later has).2⟩
    rcases ih (Event.ages aged event).aged stillHeld awaits.2 with
      ⟨heldLast, agedLast, partly⟩
    exact ⟨heldLast, agedLast, (waiting.partly stillHeld.busy).trans partly⟩

/-! ## The calls that propose -/

/-- The request that a proposal makes. -/
structure Asks (proposal : ReservationProposal) (request : ReservationRequest) : Prop where
  range : request.range = proposal.range
  protection : request.protection = proposal.protection
  operation : request.operation = proposal.operation
  source : request.source = proposal.source
  counter : (Root.checkedNext request.generation).isSome = true

/-- Whatever is pending after a call was admitted by it, for the map it found. -/
def Admitted (root after : Root) : Prop :=
  ∀ pending, after.pending = some pending -> after.tree = root.tree ∧
    ∃ proposal, Honest root proposal ∧ checkProposal root proposal = .ok () ∧
      Asks proposal pending.request ∧ pending.flags = proposal.flags

theorem Admitted.of_idle {root after : Root} (idle : after.pending = none) : Admitted root after := by
  intro pending has
  rw [idle] at has
  cases has

theorem Admitted.repends {middle : Root} (admitted : Admitted root middle)
    (repends : Repends middle after) : Admitted root after := by
  intro later has
  rcases repends.pending later has with ⟨earlier, hasEarlier, request, flags⟩
  rcases admitted earlier hasEarlier with ⟨tree, proposal, honest, checked, asks, sameFlags⟩
  exact ⟨repends.tree.trans tree, proposal, honest, checked, request ▸ asks, flags.trans sameFlags⟩

variable {proposal : ReservationProposal}

theorem propose_checked {decision : Decision}
    (ran : propose proposal root = (.ok decision, after)) :
    checkProposal root proposal = .ok () := by
  unfold propose at ran
  rw [observe_bind_apply] at ran
  rcases bind_eq_ok ran with ⟨_, _, checked, _⟩
  exact congrArg Prod.fst checked

theorem propose_admitted (idle : root.pending = none)
    (honest : Honest root proposal) : Ends (fun _ => Admitted root) (propose proposal) root := by
  unfold Ends
  rcases propose_cases proposal root with ⟨_, _, ran, untouched⟩ | ⟨request, after, ran, proposed⟩
  · rw [ran]
    exact Admitted.of_idle (untouched.pending.trans idle)
  have checked := propose_checked ran
  rw [ran]
  intro pending has
  rcases proposed.recorded with ⟨nodes, _, recorded⟩
  rw [recorded] at has
  cases has
  exact ⟨proposed.tree, proposal, honest, checked,
    ⟨proposed.range, proposed.protection, proposed.operation, proposed.source, proposed.counter⟩, rfl⟩

theorem Honest.of_simple (source : proposal.source = none)
    (installs : proposal.operation.installs = true -> proposal.flags.plain = true)
    (coverage : proposal.operation.reprotects = true -> proposal.requireCoverage = true) :
    Honest root proposal := by
  refine ⟨installs, coverage, fun range isSource => ?_⟩
  rw [source] at isSource
  cases isSource

theorem anonymousPrivate_plain : ReservationNodeFlags.anonymousPrivate.plain = true := by decide

theorem privateFile_plain :
    (ReservationNodeFlags.privateMap.union .file).plain = true := by decide

/-- The pages from an address up to the end of a run are those of its mapping. -/
def Painted (root : Root) (low : Nat) (run : Node) : Prop :=
  ∀ address, low <= address -> address < run.stop -> ∃ page,
    pages root.tree address = some page ∧ page.prot = run.prot ∧ page.flags = run.flags

theorem extendRun_painted (tidy : Tidy root.tree) {low stop fuel : Nat}
    {run found : Node} (painted : Painted root low run)
    (extended : root.extendRun stop fuel run = some found) :
    stop <= found.stop ∧ Painted root low found := by
  induction fuel generalizing run with
  | zero =>
    unfold Root.extendRun at extended
    split at extended
    · cases extended
    · rename_i reached
      cases extended
      exact ⟨Nat.le_of_not_lt reached, painted⟩
  | succ fuel ih =>
    unfold Root.extendRun at extended
    split at extended
    · split at extended
      · cases extended
      rename_i node searched
      rcases Option.filter_eq_some_iff.mp searched with ⟨next, same⟩
      have member := (next_eq_some tidy next).1
      unfold Node.sameMapping at same
      simp only [Bool.and_eq_true, decide_eq_true_eq] at same
      refine ih ?_ extended
      intro address above below
      by_cases earlier : address < run.stop
      · exact painted address above earlier
      · have meet := same.1
        have covers : node.covers address := ⟨by omega, below⟩
        rcases pages_of_mem tidy member covers with ⟨page, here, prot, flags⟩
        exact ⟨page, here, prot.trans same.2.1.1, flags.trans same.2.1.2⟩
    · rename_i reached
      cases extended
      exact ⟨Nat.le_of_not_lt reached, painted⟩

theorem runCovering_painted (tidy : Tidy root.tree) {source : ReservationRange}
    {run : Node} (found : root.runCovering source = some run) {address : Nat}
    (inside : source.contains address = true) : ∃ page,
      pages root.tree address = some page ∧ page.prot = run.prot ∧ page.flags = run.flags := by
  have bounds := ReservationRange.contains_iff.mp inside
  unfold Root.runCovering at found
  split at found
  · cases found
  rename_i node searched
  rcases Option.filter_eq_some_iff.mp searched with ⟨next, starts⟩
  have member := (next_eq_some tidy next).1
  have low := of_decide_eq_true starts
  have painted : Painted root source.start node := by
    intro other above below
    have covers : node.covers other := ⟨by omega, below⟩
    exact pages_of_mem tidy member covers
  rcases extendRun_painted tidy painted found with ⟨reaches, whole⟩
  exact whole address bounds.1 (by omega)

theorem moveProposal_honest (tidy : Tidy root.tree) {source : ReservationRange}
    {node : Node} (covering : root.runCovering source = some node)
    (editable : node.rootEditable = true) (brk : Nat) (target : MoveTarget)
    (apart : ∀ address, source.contains address = true -> range.contains address = false) :
    Honest root (moveProposal source node brk target range) := by
  have plain : node.flags.plain = true := by
    unfold Node.rootEditable at editable
    exact plain_of_rootEditable _ (Bool.and_eq_true_iff.mp editable).1
  refine ⟨fun _ => plain, ?_, ?_⟩
  · unfold moveProposal
    cases target.keepsSource with
    | true => exact nofun
    | false => exact nofun
  intro moved isSource
  unfold moveProposal at isSource ⊢
  dsimp only at isSource ⊢
  cases keeps : target.keepsSource with
  | true =>
    rw [keeps, if_pos rfl] at isSource
    cases isSource
  | false =>
    rw [keeps, if_neg Bool.false_ne_true] at isSource
    cases isSource
    refine ⟨rfl, fun address inside => ⟨apart address inside, ?_⟩⟩
    exact runCovering_painted tidy covering inside

theorem roundPages_pos {len rounded : Nat} (isRounded : roundPages len = some rounded)
    (positive : len ≠ 0) : 0 < rounded := by
  unfold roundPages at isRounded
  rcases Option.map_eq_some_iff.mp isRounded with ⟨padded, added, rfl⟩
  have sum := (checkedAdd_eq_some_iff.mp added).1
  unfold pageSize at *
  omega

section Propose

theorem answerOldBreak_ends {good : Root -> Prop} {command : Guarded Decision} (old : Nat)
    (ends : Ends (fun _ => good) command root) :
    Ends (fun _ => good) (answerOldBreak old command) root := by
  unfold Ends at ends
  unfold Ends answerOldBreak
  split
  · rename_i ran
    rw [ran] at ends
    exact ends
  · rename_i ran
    rw [ran] at ends
    exact ends
  · exact ends

theorem Repends.admitted {after : Root} (idle : root.pending = none) (repends : Repends root after) :
    Admitted root after := by
  intro later has
  rcases repends.pending later has with ⟨earlier, hasEarlier, _⟩
  rw [idle] at hasEarlier
  cases hasEarlier

variable (idle : root.pending = none) (tidy : Tidy root.tree)
  (balanced : root.tree.Balanced mappingSummary)

include idle

theorem mmap_admitted (placement : Placement) (len : Nat) (prot : ReservationProtection) :
    Ends (fun _ => Admitted root) (mmap placement len prot) root := by
  refine Ends.observe (Ends.require (Admitted.of_idle idle) (fun _ => Ends.observe ?_))
  refine Ends.ofExcept (fun _ => Admitted.of_idle idle) (fun range _ => Ends.observe ?_)
  exact propose_admitted idle (Honest.of_simple rfl (fun _ => anonymousPrivate_plain)
    (fun wrong => by cases wrong))

theorem mmapPrivateFile_admitted (placement : Placement) (len : Nat) (prot : ReservationProtection)
    (backing : HostBackingIdentity) :
    Ends (fun _ => Admitted root) (mmapPrivateFile placement len prot backing) root := by
  refine Ends.observe (Ends.require (Admitted.of_idle idle) (fun _ => ?_))
  refine Ends.require (Admitted.of_idle idle) (fun _ => Ends.observe ?_)
  refine Ends.ofExcept (fun _ => Admitted.of_idle idle) (fun range _ => Ends.observe ?_)
  have honest : Honest root
      { range := range
        protection := prot
        operation := .prepare
        result := range.start
        policyValue := root.brk
        requireCoverage := false
        source := none
        flags := ReservationNodeFlags.privateMap.union .file } :=
    Honest.of_simple rfl (fun _ => privateFile_plain) nofun
  have proposing := propose_admitted idle honest
  refine Ends.bind (fun _ _ ran => proposing.of_eq ran) (fun decision middle ran => ?_)
  have admitted := proposing.of_eq ran
  cases decision with
  | complete value => exact admitted
  | work request =>
    refine Ends.answer ?_
    exact admitted.repends (writeOrRefuse_repends backing request middle)

theorem munmap_admitted (range : ReservationRange) :
    Ends (fun _ => Admitted root) (munmap range) root :=
  Ends.observe (propose_admitted idle (Honest.of_simple rfl nofun
    (fun wrong => by cases wrong)))

theorem mprotect_admitted (range : ReservationRange) (prot : ReservationProtection) :
    Ends (fun _ => Admitted root) (mprotect range prot) root :=
  Ends.observe (propose_admitted idle (Honest.of_simple rfl nofun
    (fun _ => rfl)))

theorem reserveRange_admitted (range : ReservationRange) :
    Ends (fun _ => Admitted root) (reserveRange range) root :=
  Ends.observe (propose_admitted idle (Honest.of_simple rfl (fun _ => anonymousPrivate_plain)
    (fun wrong => by cases wrong)))

theorem decommitRange_admitted (range : ReservationRange) :
    Ends (fun _ => Admitted root) (decommitRange range) root :=
  Ends.observe (propose_admitted idle (Honest.of_simple rfl nofun
    (fun _ => rfl)))

theorem brk_admitted (requested : Nat) : Ends (fun _ => Admitted root) (brk requested) root := by
  have refused := @Admitted.of_idle root root idle
  refine Ends.observe (Ends.require refused (fun _ => Ends.observe ?_))
  refine Ends.require refused (fun _ => Ends.observe (Ends.observe ?_))
  split
  · exact refused
  refine Ends.demand refused (fun oldStop _ => Ends.demand refused (fun newStop _ => ?_))
  split
  · split
    · refine Ends.answer ?_
      refine Ends.observe (Ends.demand refused (fun generation _ => ?_))
      exact Admitted.of_idle idle
    · exact refused
  refine Ends.observe ?_
  split
  · exact refused
  refine Ends.demand refused (fun range _ => ?_)
  have proposing : Ends (fun _ => Admitted root) (propose
      { range := range
        protection := if oldStop < newStop then .readWrite else .none
        operation := if oldStop < newStop then .prepare else .retire
        result := requested
        policyValue := requested
        requireCoverage := false
        source := none
        flags := .anonymousPrivate }) root := by
    refine propose_admitted idle (Honest.of_simple rfl (fun _ => anonymousPrivate_plain) ?_)
    split
    · exact nofun
    · exact nofun
  exact answerOldBreak_ends root.brk proposing

include tidy balanced

theorem mremapInner_admitted (source : ReservationRange) (newLen : Nat) (target : MoveTarget) :
    Ends (fun _ => Admitted root) (mremapInner source newLen target) root := by
  have refused := @Admitted.of_idle root root idle
  refine Ends.observe (Ends.require refused (fun _ => Ends.observe ?_))
  refine Ends.require refused (fun _ => Ends.require refused (fun nonzero => ?_))
  refine Ends.demand refused (fun rounded isRounded => Ends.require refused (fun _ => ?_))
  refine Ends.observe (Ends.demand refused (fun node covering => ?_))
  refine Ends.require refused (fun editable => Ends.observe ?_)
  have plain : node.flags.plain = true := by
    unfold Node.rootEditable at editable
    exact plain_of_rootEditable _ (Bool.and_eq_true_iff.mp editable).1
  cases fixed : target.fixedAddress with
  | some address =>
    refine Ends.demand refused (fun range _ => Ends.require refused (fun disjoint => ?_))
    refine propose_admitted idle (moveProposal_honest tidy covering editable _ _ ?_)
    intro other inSource
    by_contra inRange
    have ofSource := ReservationRange.contains_iff.mp inSource
    have ofRange := ReservationRange.contains_iff.mp (by simpa using inRange)
    unfold ReservationRange.overlaps at disjoint
    simp only [Bool.not_eq_true', Bool.and_eq_false_iff, decide_eq_false_iff_not] at disjoint
    omega
  | none =>
    dsimp only
    split
    · exact refused
    split
    · refine Ends.demand refused (fun tail _ => propose_admitted idle ?_)
      exact Honest.of_simple rfl nofun nofun
    refine Ends.observe ?_
    cases (root.growthRange source rounded).filter (fun _ => !target.keepsSource) with
    | some extension =>
      exact propose_admitted idle (Honest.of_simple rfl (fun _ => plain)
        (fun wrong => by cases wrong))
    | none =>
      refine Ends.require refused (fun _ => Ends.observe (Ends.demand refused ?_))
      intro address placed
      refine Ends.demand refused (fun range isRange => ?_)
      refine propose_admitted idle (moveProposal_honest tidy covering editable _ _ ?_)
      have positive : 0 < rounded := by
        rw [Bool.and_eq_true, decide_eq_true_eq] at nonzero
        exact roundPages_pos isRounded nonzero.1
      have least := firstFitFrom_spec positive tidy balanced (root.around.owed.length + 1)
        root.layout.arena.start (le_refl _)
        (lt_of_le_of_lt (List.length_filter_le _ _) (Nat.lt_succ_self _))
      have vacant := (least.found address placed).2.1
      rcases ReservationRange.new_eq_some isRange with ⟨starts, stops⟩
      intro other inSource
      by_contra inRange
      have ofRange := ReservationRange.contains_iff.mp (by simpa using inRange)
      rcases runCovering_painted tidy covering inSource with ⟨page, here, _⟩
      unfold pages at here
      rcases Option.map_eq_some_iff.mp here with ⟨cell, found, _⟩
      rcases exists_of_cells found with ⟨holder, member, covers, _⟩
      unfold Node.covers at covers
      rcases vacant.clears holder member with low | high <;> omega

theorem mremap_admitted (source : ReservationRange) (newLen : Nat) (target : MoveTarget) :
    Ends (fun _ => Admitted root) (mremap source newLen target) root := by
  have inner := mremapInner_admitted idle tidy balanced source newLen target
  refine Ends.observe (Ends.bind (fun _ _ ran => inner.of_eq ran) (fun decision middle ran => ?_))
  have admitted := inner.of_eq ran
  split
  · split
    · refine Ends.answer ?_
      exact admitted.repends (carryBacking_repends source _ _ middle)
    · exact admitted
  · exact admitted

theorem run_admitted (call : Call) : Admitted root (call.run root).2 := by
  have ended : ∀ {α : Type} {command : Guarded α} {answer : α -> Answer},
      Ends (fun _ => Admitted root) command root -> Admitted root (answering answer command root).2 := by
    intro α command answer ends
    exact Ends.answer ends
  have excluded : ∀ {α : Type} {command : Guarded α} {answer : α -> Answer},
      Ends (fun _ => Excludes root) command root ->
        Admitted root (answering answer command root).2 := by
    intro α command answer ends
    have excludes : Excludes root (answering answer command root).2 := Ends.answer ends
    exact Admitted.of_idle (excludes.pending.trans idle)
  have refused : ∀ asked hostOwned,
      Ends (fun _ => Admitted root) (completeAs asked hostOwned) root := by
    intro asked hostOwned
    unfold Ends
    rcases completeAs_cases asked hostOwned root with ⟨_, ran, _⟩ | ⟨pending, has, _⟩
    · rw [ran]
      exact Admitted.of_idle idle
    · rw [idle] at has
      cases has
  by_cases aside : call.aside = true
  · exact (Repends.of_untouched (run_untouched aside root)).admitted idle
  cases call with
  | importRow range prot flags backing => exact excluded (importRow_excludes tidy range prot flags backing)
  | mmap placement len prot => exact ended (mmap_admitted idle placement len prot)
  | mmapPrivateFile placement len prot backing =>
    exact ended (mmapPrivateFile_admitted idle placement len prot backing)
  | munmap range => exact ended (munmap_admitted idle range)
  | mprotect range prot => exact ended (mprotect_admitted idle range prot)
  | reserveRange range => exact ended (reserveRange_admitted idle range)
  | decommitRange range => exact ended (decommitRange_admitted idle range)
  | mremap source newLen target => exact ended (mremap_admitted idle tidy balanced source newLen target)
  | brk requested => exact ended (brk_admitted idle requested)
  | complete asked => exact ended (refused asked false)
  | completeHostOwned asked =>
    exact ended (Ends.observe (Ends.require (Admitted.of_idle idle) (fun _ => refused asked true)))
  | refusePending asked => exact ended ((refusePending_repends asked root).admitted idle)
  | insertOpaqueBacked range prot flags backing =>
    exact excluded (insertOpaqueBacked_excludes tidy range prot flags backing)
  | retireOpaque range => exact excluded (retireOpaque_excludes tidy range)
  | setFlags range set clear => exact excluded (setFlags_excludes tidy range set clear)
  | writePendingBacking backing => exact ended ((writePendingBacking_repends backing root).admitted idle)
  | retireUnusedSource name =>
    exact (Repends.of_sameMap (retireUnusedSource_sameMap name) root).admitted idle
  | takeRetiredHostBacking =>
    exact (Repends.of_sameMap takeRetiredHostBacking_sameMap root).admitted idle
  | _ => exact absurd rfl aside

end Propose

/-! ## The completed edit -/

theorem moved_apply (request : ReservationRequest) (old : Nat -> Option Page) (address : Nat) :
    request.moved old address = if inSource request.source address = true then none else old address := by
  unfold ReservationRequest.moved inSource
  cases request.source with
  | none => rfl
  | some range => rfl

/-- The attributes of the node that a completion creates are those proposed,
possibly without the anonymous bit. -/
theorem createdFlags_plain (pending : Pending) (hostOwned : Bool) :
    (pending.createdFlags hostOwned).plain = pending.flags.plain := by
  unfold Pending.createdFlags
  cases hostOwned with
  | true => exact plain_difference_anonymous pending.flags
  | false => rfl

/-- Committing over what refused completions left is committing over the map
that the proposal was made for. -/
theorem committedOver_of_commits {found : Survey}
    (honest : Honest root proposal) (surveyed : Surveyed root proposal found)
    (asks : Asks proposal request) {now : Nat -> Option Page}
    (partly : PartlyDone request (pages root.tree) now)
    (plain : proposal.operation.installs = true -> flags.plain = true)
    (backing : Option HostBackingIdentity) :
    CommittedOver proposal (pages root.tree) (request.commits flags backing now) := by
  rcases asks with ⟨range, protection, operation, source, _⟩
  have elsewhere : ∀ address, proposal.range.contains address = false ->
      request.commits flags backing now address = request.moved now address := by
    intro address outside
    rw [<- range] at outside
    unfold ReservationRequest.commits
    cases request.operation with
    | retire => exact if_neg (by rw [outside]; exact Bool.false_ne_true)
    | prepare => exact if_neg (by rw [outside]; exact Bool.false_ne_true)
    | move => exact if_neg (by rw [outside]; exact Bool.false_ne_true)
    | protect => exact if_neg (by rw [outside]; exact Bool.false_ne_true)
    | decommit => exact if_neg (by rw [outside]; exact Bool.false_ne_true)
  refine ⟨fun address outside apart => ?_, fun address outside inside => ?_,
    fun retires address inside => ?_, fun leaves address inside => ?_⟩
  · rw [elsewhere address outside, moved_apply, source, apart, if_neg Bool.false_ne_true]
    rcases partly address with same | ⟨_, _, inRange | inSource⟩
    · exact same
    · rw [range, outside] at inRange
      cases inRange
    · rw [source, apart] at inSource
      cases inSource
  · rw [elsewhere address outside, moved_apply, source, inside, if_pos rfl]
  · rw [ReservationRequest.commits_of_retires (by rw [operation, retires]; rfl)
      (by rw [operation, retires]; rfl)]
    unfold unmapped
    rw [range, inside, if_pos rfl]
  cases reprotects : proposal.operation.reprotects with
  | true =>
    have unmoved : proposal.source = none := by
      by_contra present
      rcases Option.ne_none_iff_exists'.mp present with ⟨moved, isSource⟩
      rw [(honest.moves moved isSource).1] at reprotects
      cases reprotects
    have kept : now address = pages root.tree address := by
      rcases partly address with same | ⟨removes, _⟩
      · exact same
      · rw [operation, reprotects] at removes
        cases removes
    rcases Option.ne_none_iff_exists'.mp
      (surveyed.covered (honest.coverage reprotects) address inside) with ⟨page, here⟩
    rw [ReservationRequest.commits_of_reprotects (by rw [operation, reprotects])]
    unfold reprotected rewritten
    rw [range, inside, if_pos rfl, moved_apply, source, unmoved, kept, here]
    exact ⟨_, rfl, protection,
      plain_of_rootEditable _ (surveyed.editable address page inside here)⟩
  | false =>
    have installs : proposal.operation.installs = true := by
      cases shape : proposal.operation with
      | retire => exact absurd shape leaves
      | prepare => rfl
      | move => rfl
      | protect =>
        rw [shape] at reprotects
        cases reprotects
      | decommit =>
        rw [shape] at reprotects
        cases reprotects
    rw [ReservationRequest.commits_of_installs (by rw [operation, installs])]
    unfold mapped
    rw [range, inside, if_pos rfl]
    exact ⟨_, rfl, protection, plain installs⟩

theorem completeAs_commits (tidy : Tidy root.tree)
    (held : Held request flags root) {hostOwned : Bool}
    {result : Nat} (ran : completeAs request hostOwned root = (.ok result, after)) :
    ∃ created backing, created.plain = flags.plain ∧
      pages after.tree = request.commits created backing (pages root.tree) := by
  rcases held with ⟨pending, has, rfl, rfl⟩
  rcases completeAs_cases pending.request hostOwned root with ⟨_, wrong, _⟩ | ⟨other, hasOther, _, shape⟩
  · rw [ran] at wrong
    cases wrong
  rw [has] at hasOther
  cases hasOther
  rw [ran] at shape
  rcases bind_eq_ok shape.symm with ⟨done, edited, ranEdit, settling⟩
  rcases applyEdit_spec pending.request (pending.createdFlags hostOwned)
    (pending.created hostOwned) pending.nodes tidy with ⟨_, _, ranSpec, _, _, commits, _⟩
  rw [ranEdit] at ranSpec
  cases ranSpec
  have tree := (settlePending_frame pending edited).1
  rw [settling] at tree
  refine ⟨pending.createdFlags hostOwned, pending.created hostOwned,
    createdFlags_plain pending hostOwned, ?_⟩
  rw [tree]
  exact (commits rfl).1

/-- A call that completes a request. -/
def Call.completes (request : ReservationRequest) (call : Call) : Prop :=
  call = .complete request ∨ call = .completeHostOwned request

theorem completes_commits (tidy : Tidy root.tree)
    (held : Held request flags root) {event : Event}
    (completes : event.call.completes request) {answer : Answer}
    (answered : (event.run root).1 = .ok answer) :
    ∃ created backing, created.plain = flags.plain ∧
      pages (event.run root).2.tree = request.commits created backing (pages root.tree) := by
  have heldHere : Held request flags (root.within event.around) := held
  have tidyHere : Tidy (root.within event.around).tree := tidy
  cases ran : event.run root with
  | mk outcome after =>
    rw [ran] at answered
    cases answered
    unfold Event.run at ran
    rcases completes with same | same
    · rw [same] at ran
      rcases ran_of_answering ran with ⟨_, completed⟩
      have commits := completeAs_commits tidyHere heldHere completed
      exact commits
    rw [same] at ran
    rcases ran_of_answering ran with ⟨_, completed⟩
    unfold completeHostOwned at completed
    rw [observe_bind_apply] at completed
    rcases bind_eq_ok completed with ⟨_, here, checked, completing⟩
    rw [(require_eq_ok checked).2] at completing
    have commits := completeAs_commits tidyHere heldHere completing
    exact commits

/-! ## Limits -/

/-- The totals that a proposal was admitted for, against those before it and
after its completion. -/
structure Predicts (removed added before after : Charges) : Prop where
  bytes_le : removed.bytes <= before.bytes
  data_le : removed.data <= before.data
  bytes : after.bytes = before.bytes - removed.bytes + added.bytes
  data : after.data = before.data - removed.data + added.data

/-- The limits and the external charges of two policies agree. -/
structure SameLimits (before after : LinuxReservationState) : Prop where
  addressLimit : after.addressLimit = before.addressLimit
  dataLimit : after.dataLimit = before.dataLimit
  externalAddressBytes : after.externalAddressBytes = before.externalAddressBytes
  externalDataBytes : after.externalDataBytes = before.externalDataBytes

/-- Totals within the limits of a policy. -/
structure WithinLimits (policy : LinuxReservationState) (total : Charges) : Prop where
  bytes : total.bytes + policy.externalAddressBytes <= policy.addressLimit
  data : total.data + policy.externalDataBytes <= policy.dataLimit

variable {total : Charges}

theorem WithinLimits.of_same {before after : LinuxReservationState}
    (within : WithinLimits before total) (same : SameLimits before after) :
    WithinLimits after total := by
  refine ⟨?_, ?_⟩
  · rw [same.externalAddressBytes, same.addressLimit]
    exact within.bytes
  · rw [same.externalDataBytes, same.dataLimit]
    exact within.data

theorem add_external_eq {left right external sum : Nat}
    (added : (checkedAdd left right).bind (fun first => checkedAdd first external) = some sum) :
    left + right + external = sum := by
  rcases Option.bind_eq_some_iff.mp added with ⟨first, ofFirst, ofSecond⟩
  have firstSum := (checkedAdd_eq_some_iff.mp ofFirst).1
  have secondSum := (checkedAdd_eq_some_iff.mp ofSecond).1
  omega

theorem admitsCharges_removed_le {policy : LinuxReservationState} {removed added : Charges}
    (admitted : admitsCharges policy total removed added = .ok ()) :
    removed.bytes <= total.bytes ∧ removed.data <= total.data := by
  unfold admitsCharges at admitted
  split at admitted
  · rename_i bytes data enoughBytes enoughData
    exact ⟨(checkedSub_eq_some_iff.mp enoughBytes).1, (checkedSub_eq_some_iff.mp enoughData).1⟩
  · cases admitted

/-- An admission that grows a charge keeps both totals within their limits. -/
theorem admitsCharges_grows {policy : LinuxReservationState} {removed added : Charges}
    (admitted : admitsCharges policy total removed added = .ok ())
    (grows : removed.bytes < added.bytes ∨ removed.data < added.data) :
    WithinLimits policy ⟨total.bytes - removed.bytes + added.bytes,
      total.data - removed.data + added.data⟩ := by
  unfold admitsCharges at admitted
  split at admitted
  · rename_i bytes data enoughBytes enoughData
    rcases checkedSub_eq_some_iff.mp enoughBytes with ⟨_, rfl⟩
    rcases checkedSub_eq_some_iff.mp enoughData with ⟨_, rfl⟩
    have growing : (decide (removed.bytes < added.bytes) || decide (removed.data < added.data)) =
        true := by
      rw [Bool.or_eq_true, decide_eq_true_eq, decide_eq_true_eq]
      exact grows
    dsimp only at admitted
    rw [growing, Bool.and_true] at admitted
    cases address : (checkedAdd (total.bytes - removed.bytes) added.bytes).bind
        (fun sum => checkedAdd sum policy.externalAddressBytes) with
    | none =>
      rw [address] at admitted
      cases admitted
    | some addressSum =>
      cases dataCharge : (checkedAdd (total.data - removed.data) added.data).bind
          (fun sum => checkedAdd sum policy.externalDataBytes) with
      | none =>
        rw [dataCharge] at admitted
        simp at admitted
      | some dataSum =>
        rw [address, dataCharge] at admitted
        have addressEq := add_external_eq address
        have dataEq := add_external_eq dataCharge
        simp only [Bool.or_eq_true, Bool.not_eq_true', decide_eq_false_iff_not] at admitted
        split at admitted
        · cases admitted
        rename_i passed
        refine ⟨?_, ?_⟩
        · dsimp only
          omega
        · dsimp only
          omega
  · cases admitted

/-! ## Exact admission -/

/-- What a proposal was admitted with, and what its completion leaves: the
totals change by what was predicted, and growth stays within the limits. -/
structure ExactlyAdmitted (root after : Root) (around : Surroundings) (request : ReservationRequest)
    (proposal : ReservationProposal) (found : Survey) : Prop where
  asks : Asks proposal request
  surveyed : survey (root.within around) proposal = .ok found
  admitted : admitsCharges root.layout.policy root.totals (proposal.removed found) proposal.added =
    .ok ()
  predicts : Predicts (proposal.removed found) proposal.added root.totals after.totals
  within : SameLimits root.layout.policy after.layout.policy ->
    (root.totals.bytes < after.totals.bytes ∨ root.totals.data < after.totals.data) ->
    WithinLimits after.layout.policy after.totals

theorem passed_of_throw {condition : Prop} [Decidable condition] {next : Except Refusal α}
    {result : α}
    (ran : (if condition then (Except.error reason : Except Refusal α) else next) = .ok result) :
    next = .ok result := by
  split at ran
  · cases ran
  · exact ran

theorem checkProposal_admits (checked : checkProposal root proposal = .ok ()) :
    ∃ found, survey root proposal = .ok found ∧ admitProposal root proposal found = .ok () := by
  have notStale := passed_of_throw checked
  have notBusy := passed_of_throw notStale
  have notPrepared := passed_of_throw notBusy
  have notImage := passed_of_throw notPrepared
  have notForeign := passed_of_throw notImage
  have notOwed := passed_of_throw notForeign
  exact except_bind_eq_ok notOwed

/-- Between any call that leaves a proposal pending and the completion of that
proposal, whatever other calls run while it waits, the totals change by what
the admission was given; and if a total grew and the limits stayed, both are
within them. -/
theorem admission_exact {root : Root} (reachable : Reachable (fun _ _ => True) root)
    (idle : root.pending = none) {event : Event} {request : ReservationRequest}
    (proposed : (event.run root).2.pending.map Pending.request = some request)
    {between : List Event} (awaits : Awaits request between (event.run root).2)
    {completion : Event} (completes : completion.call.completes request) {answer : Answer}
    (answered : (completion.run (runAll between (event.run root).2)).1 = .ok answer) :
    ∃ proposal found, ExactlyAdmitted root (completion.run (runAll between (event.run root).2)).2
      event.around request proposal found := by
  have aged := reachable.aged
  have shaped := reachable.shaped
  have reachedLast : Reachable (fun _ _ => True)
      (completion.run (runAll between (event.run root).2)).2 :=
    (reachable_runAll (reachable.called trivial) (allowedAll_true _ _)).called trivial
  have tidyHere : Tidy (root.within event.around).tree := aged.tidy
  have balancedHere : (root.within event.around).tree.Balanced mappingSummary := shaped.tree
  have idleHere : (root.within event.around).pending = none := idle
  rcases Option.map_eq_some_iff.mp proposed with ⟨pending, has, rfl⟩
  rcases run_admitted idleHere tidyHere balancedHere event.call pending has with
    ⟨tree, proposal, honest, checked, asks, sameFlags⟩
  have only : pending.request.operation.reprotects = true -> pending.request.source = none := by
    intro reprotects
    rw [asks.source]
    by_contra present
    rcases Option.ne_none_iff_exists'.mp present with ⟨moved, isSource⟩
    rw [asks.operation, (honest.moves moved isSource).1] at reprotects
    cases reprotects
  have held : Held pending.request proposal.flags (event.run root).2 :=
    ⟨pending, has, rfl, sameFlags⟩
  rcases awaits_held (Event.ages aged event).aged held asks.counter only awaits with
    ⟨heldLast, agedLast, partly⟩
  rcases completes_commits agedLast.tidy heldLast completes answered with
    ⟨created, backing, plain, commits⟩
  rcases checkProposal_admits checked with ⟨found, surveying, admitting⟩
  have surveyed := survey_spec tidyHere surveying
  have mapBefore : pages (event.run root).2.tree = pages (root.within event.around).tree :=
    congrArg pages tree
  rw [mapBefore] at partly
  have committed := committedOver_of_commits honest surveyed asks partly
    (fun installs => plain.trans (honest.installs installs)) backing
  rw [<- commits] at committed
  have totalsBefore := totals_eq balancedHere tidyHere
  have totalsAfter := totals_eq reachedLast.shaped.tree reachedLast.aged.tidy
  have sameTotals : root.totals = (root.within event.around).totals := rfl
  have charged : admitsCharges root.layout.policy root.totals (proposal.removed found)
      proposal.added = .ok () := admitting
  have enough := admitsCharges_removed_le charged
  have predicts : Predicts (proposal.removed found) proposal.added root.totals
      (completion.run (runAll between (event.run root).2)).2.totals := by
    have bytesEq := committed.census_eq honest anyKind true (fun _ _ => rfl)
    have dataEq := committed.census_eq honest dataKind proposal.leavesData
      (fun flags isPlain => chargesData_of_plain isPlain proposal.protection)
    rw [<- surveyed.bytes, if_pos rfl, if_pos rfl] at bytesEq
    rw [<- surveyed.data] at dataEq
    refine ⟨enough.1, enough.2, ?_, ?_⟩
    · rw [sameTotals, totalsBefore] at enough
      rw [sameTotals, totalsBefore, totalsAfter]
      unfold ReservationProposal.removed ReservationProposal.added at *
      dsimp only at *
      omega
    rw [sameTotals, totalsBefore] at enough
    rw [sameTotals, totalsBefore, totalsAfter]
    unfold ReservationProposal.removed ReservationProposal.added at *
    dsimp only at *
    omega
  refine ⟨proposal, found, asks, surveying, charged, predicts, fun same grew => ?_⟩
  have bytesLe := predicts.bytes_le
  have dataLe := predicts.data_le
  rw [predicts.bytes, predicts.data] at grew
  have within := admitsCharges_grows charged (by omega)
  rw [<- predicts.bytes, <- predicts.data] at within
  exact WithinLimits.of_same within same

/-- One page of the arena is mapped. -/
def firstPageMapped : Root :=
  runAll [⟨.finishImport, withLeftover none⟩,
    ⟨.mmap (.fixed firstArenaPage.start) 4096 .readWrite, withLeftover none⟩,
    ⟨.complete (requested 1 1 firstArenaPage .prepare none), withLeftover none⟩] emptyRoot

/-- The page above is asked for, another call is turned away, and the request
is completed. -/
def secondPageAsked : Event :=
  ⟨.mmap (.fixed secondArenaPage.start) 4096 .readWrite, withLeftover none⟩

def turnedAway : List Event := [⟨.munmap firstArenaPage, withLeftover none⟩]

def secondPageCompleted : Event :=
  ⟨.complete (requested 2 2 secondArenaPage .prepare none), withLeftover none⟩

theorem admission_exact_secondPage :
    firstPageMapped.totals = ⟨4096, 4096⟩ ∧
      (secondPageCompleted.run
        (runAll turnedAway (secondPageAsked.run firstPageMapped).2)).2.totals = ⟨8192, 8192⟩ ∧
      ∃ proposal found, ExactlyAdmitted firstPageMapped
        (secondPageCompleted.run (runAll turnedAway (secondPageAsked.run firstPageMapped).2)).2
        (withLeftover none) (requested 2 2 secondArenaPage .prepare none) proposal found := by
  have reachable : Reachable (fun _ _ => True) firstPageMapped :=
    reachable_runAll (.claimed emptyRoot_claimed) (allowedAll_true _ _)
  have proposed : (secondPageAsked.run firstPageMapped).2.pending.map Pending.request =
      some (requested 2 2 secondArenaPage .prepare none) := by decide +kernel
  have awaits : Awaits (requested 2 2 secondArenaPage .prepare none) turnedAway
      (secondPageAsked.run firstPageMapped).2 := ⟨by decide +kernel, trivial⟩
  have answered : (secondPageCompleted.run
      (runAll turnedAway (secondPageAsked.run firstPageMapped).2)).1 =
        .ok (.value secondArenaPage.start) := by decide +kernel
  exact ⟨by decide +kernel, by decide +kernel,
    admission_exact reachable (by decide +kernel) proposed awaits (.inl rfl) answered⟩

end Reservation
end Carrick

import Carrick.Reservation.Rewrites
import Mathlib.Logic.Relation

namespace Carrick
namespace Reservation

open Foundation
open Command

/-!
# The committed effect of a completion

A completed request is one edit of the map from addresses to pages: it unmaps
its source, and then unmaps, replaces or reprotects its range.  The commands
that carry it out reach that map through intermediate roots; the chain of
their effects is kept as well, since it also describes a completion that is
refused half way.
-/

/-- What the committed tree says about a page: protection, attributes and the
byte source advanced to it. -/
structure Page where
  prot : ReservationProtection
  flags : ReservationNodeFlags
  source : Option HostBackingIdentity
  deriving DecidableEq

def Cell.page (cell : Cell) : Page := ⟨cell.prot, cell.flags, cell.source⟩

/-- The committed tree as a function from addresses to pages. -/
def pages (tree : MappingTree) (address : Nat) : Option Page :=
  (cells tree address).map Cell.page

def unmapped (range : ReservationRange) (old : Nat -> Option Page) (address : Nat) : Option Page :=
  if range.contains address = true then none else old address

/-- The map with a range filled from a byte source that starts with the range. -/
def mapped (range : ReservationRange) (prot : ReservationProtection)
    (flags : ReservationNodeFlags) (backing : Option HostBackingIdentity)
    (old : Nat -> Option Page) (address : Nat) : Option Page :=
  if range.contains address = true then
    some ⟨prot, flags, backing.bind (fun source => source.advance (address - range.start))⟩
  else old address

/-- The map with the pages of a range rewritten. -/
def rewritten (range : ReservationRange) (change : Page -> Page) (old : Nat -> Option Page)
    (address : Nat) : Option Page :=
  if range.contains address = true then (old address).map change else old address

/-- The map with another protection on a range. -/
def reprotected (range : ReservationRange) (prot : ReservationProtection) :
    (Nat -> Option Page) -> Nat -> Option Page :=
  rewritten range (fun page => { page with prot := prot })

/-- The map a request finds once its source is unmapped. -/
def ReservationRequest.moved (request : ReservationRequest) (old : Nat -> Option Page) :
    Nat -> Option Page :=
  (request.source.map (fun source => unmapped source old)).getD old

/-- What the completion of a request does to the map: a move unmaps its source
first, and then the range is unmapped, replaced or reprotected. -/
def ReservationRequest.commits (request : ReservationRequest) (flags : ReservationNodeFlags)
    (backing : Option HostBackingIdentity) (old : Nat -> Option Page) : Nat -> Option Page :=
  match request.operation with
  | .retire => unmapped request.range (request.moved old)
  | .prepare => mapped request.range request.protection flags backing (request.moved old)
  | .move => mapped request.range request.protection flags backing (request.moved old)
  | .protect => reprotected request.range request.protection (request.moved old)
  | .decommit => reprotected request.range request.protection (request.moved old)

variable {request : ReservationRequest}

theorem ReservationRequest.commits_of_reprotects
    (reprotects : request.operation.reprotects = true) (flags : ReservationNodeFlags)
    (backing : Option HostBackingIdentity) (old : Nat -> Option Page) :
    request.commits flags backing old =
      reprotected request.range request.protection (request.moved old) := by
  unfold commits
  cases operation : request.operation with
  | protect => rfl
  | decommit => rfl
  | prepare => simp [operation, ReservationOperation.reprotects] at reprotects
  | move => simp [operation, ReservationOperation.reprotects] at reprotects
  | retire => simp [operation, ReservationOperation.reprotects] at reprotects

theorem ReservationRequest.commits_of_installs (installs : request.operation.installs = true)
    (flags : ReservationNodeFlags) (backing : Option HostBackingIdentity)
    (old : Nat -> Option Page) :
    request.commits flags backing old =
      mapped request.range request.protection flags backing (request.moved old) := by
  unfold commits
  cases operation : request.operation with
  | prepare => rfl
  | move => rfl
  | protect => simp [operation, ReservationOperation.installs] at installs
  | decommit => simp [operation, ReservationOperation.installs] at installs
  | retire => simp [operation, ReservationOperation.installs] at installs

theorem ReservationRequest.commits_of_retires (reprotects : request.operation.reprotects = false)
    (installs : request.operation.installs = false) (flags : ReservationNodeFlags)
    (backing : Option HostBackingIdentity) (old : Nat -> Option Page) :
    request.commits flags backing old = unmapped request.range (request.moved old) := by
  unfold commits
  cases operation : request.operation with
  | retire => rfl
  | prepare => simp [operation, ReservationOperation.installs] at installs
  | move => simp [operation, ReservationOperation.installs] at installs
  | protect => simp [operation, ReservationOperation.reprotects] at reprotects
  | decommit => simp [operation, ReservationOperation.reprotects] at reprotects

theorem ReservationOperation.installs_of_reprotects {operation : ReservationOperation}
    (reprotects : operation.reprotects = true) : operation.installs = false := by
  cases operation with
  | protect => rfl
  | decommit => rfl
  | prepare => cases reprotects
  | move => cases reprotects
  | retire => cases reprotects

theorem ReservationOperation.creates_of_installs {operation : ReservationOperation}
    (installs : operation.installs = true) : operation.creates = true := by
  cases operation with
  | prepare => rfl
  | move => rfl
  | protect => cases installs
  | decommit => cases installs
  | retire => cases installs

/-! ## Effects -/

/-- The part of a cell that a protection or attribute edit keeps. -/
def Cell.life (cell : Cell) : Nat × Bool := (cell.incarnation, cell.isAnonymous)

/-- Protections and attributes changed, and nothing else. -/
structure Recoloured (before after : Root) : Prop extends Frame before after where
  tidy : Tidy after.tree
  minted : after.minted = before.minted
  retiredBelow : after.retiredBelow = before.retiredBelow
  lives : ∀ address,
    (cells after.tree address).map Cell.life = (cells before.tree address).map Cell.life

/-- One effect of a committed edit: pages go, change their attributes, appear,
or fail to appear because their source refused. -/
inductive Effect (before after : Root) : Prop
  | emptied (range : ReservationRange) (effect : Emptied range before after)
  | recoloured (effect : Recoloured before after)
  | created (node : Node)
      (free : ∀ address, node.covers address -> cells before.tree address = none)
      (effect : Created node before after)
  | notCreated (effect : NotCreated before after)

abbrev Effects := Relation.ReflTransGen Effect

theorem pages_of_cells {before after : MappingTree} {address : Nat}
    (same : cells after address = cells before address) :
    pages after address = pages before address := by
  unfold pages
  rw [same]

variable {before after : Root}

theorem Effects.frame (effects : Effects before after) :
    Frame before after := by
  induction effects with
  | refl => exact Frame.refl before
  | tail _ effect ih =>
    refine ih.trans ?_
    cases effect with
    | emptied range effect => exact effect.toFrame
    | recoloured effect => exact effect.toFrame
    | created node free effect => exact effect.toFrame
    | notCreated effect => exact effect.toFrame

variable {root : Root}

theorem removeRange_effect (range : ReservationRange) (spares : List SpareNode)
    (tidy : Tidy root.tree) :
    ∃ answer after, removeRange range spares root = (answer, after) ∧ Emptied range root after ∧
      (∀ rest, answer = .ok rest ->
        (∀ address, range.contains address = true -> cells after.tree address = none) ∧
        pages after.tree = unmapped range (pages root.tree) ∧
        spares.length <= rest.length + root.splitsNeeded range) ∧
      (root.splitsNeeded range <= spares.length -> Counted root ->
        (∃ rest, answer = .ok rest) ∧ Released root after) := by
  rcases removeRange_spec range spares tidy with ⟨answer, after, ran, emptied, done, keeps⟩
  refine ⟨answer, after, ran, emptied, ?_, keeps⟩
  intro rest answered
  rcases done rest answered with ⟨cleared, used⟩
  refine ⟨cleared, ?_, used⟩
  funext address
  unfold unmapped
  split
  · rename_i inside
    unfold pages
    rw [cleared address inside]
    rfl
  · rename_i outside
    rcases emptied.cells_or address with same | ⟨inside, _⟩
    · exact pages_of_cells same
    · exact absurd inside outside

theorem Created.pages_eq {range : ReservationRange} {prot : ReservationProtection}
    {flags : ReservationNodeFlags} {backing : Option HostBackingIdentity}
    (created : Created ⟨range.start, range.stop, prot, flags, 0, backing⟩ before after) :
    pages after.tree = mapped range prot flags backing (pages before.tree) := by
  rcases created.placed with ⟨incarnation, _, cellsAfter⟩
  funext address
  unfold mapped pages
  rw [cellsAfter]
  have coverage : Node.covers ⟨range.start, range.stop, prot, flags, 0, backing⟩ address <->
      range.contains address = true := ReservationRange.contains_iff.symm
  rw [if_congr coverage rfl rfl]
  split <;> rfl

theorem Root.splitsNeeded_le (tidy : Tidy before.tree) (tidyAfter : Tidy after.tree)
    (cuts : ∀ address, Cut before.tree address -> Cut after.tree address)
    (range : ReservationRange) : after.splitsNeeded range <= before.splitsNeeded range := by
  have boundary : ∀ address,
      (after.straddles address).toNat <= (before.straddles address).toNat := by
    intro address
    cases whole : before.straddles address with
    | true => exact Bool.toNat_le _
    | false =>
      rw [not_straddles_of_cut after tidyAfter (cuts address (cut_of_not_straddles tidy whole))]
  have first := boundary range.start
  have second := boundary range.stop
  unfold Root.splitsNeeded
  omega

theorem range_formed (range : ReservationRange) (prot : ReservationProtection)
    (flags : ReservationNodeFlags) (incarnation : Nat) (backing : Option HostBackingIdentity) :
    Node.WellFormed ⟨range.start, range.stop, prot, flags, incarnation, backing⟩ :=
  ⟨range.ordered, range.start_aligned, range.stop_aligned, range.in_word⟩

theorem free_of_cells {tree : MappingTree} (tidy : Tidy tree) {range : ReservationRange}
    (empty : ∀ address, range.contains address = true -> cells tree address = none) :
    Free tree range.start range.stop := by
  intro node member
  have ordered := (tidy.formed node member).ordered
  have rangeOrdered := range.ordered
  by_contra meets
  have inside : range.contains (max node.start range.start) = true :=
    ReservationRange.contains_iff.mpr (by omega)
  have absent := cells_eq_none_iff.mp (empty _ inside) node member
  unfold Node.covers at absent
  omega

theorem reprotectRange_recoloured (range : ReservationRange) (prot : ReservationProtection)
    (spares : List SpareNode) (tidy : Tidy root.tree) :
    ∃ answer after, reprotectRange range prot spares root = (answer, after) ∧
      Recoloured root after ∧
      (∀ rest, answer = .ok rest -> pages after.tree =
        reprotected range prot (pages root.tree)) ∧
      (root.splitsNeeded range <= spares.length -> Counted root ->
        (∃ rest, answer = .ok rest) ∧ Released root after) := by
  rcases reprotectRange_spec range prot spares tidy with
    ⟨answer, tree, ran, tidyAfter, failed, done, keeps⟩
  refine ⟨answer, _, ran, ⟨⟨rfl, rfl, rfl, rfl, rfl, rfl, rfl⟩, tidyAfter, rfl, rfl, ?_⟩, ?_, ?_⟩
  · intro address
    cases answer with
    | error reason => rw [failed reason rfl address]
    | ok rest =>
      rw [done rest rfl address]
      split
      · rw [Option.map_map]
        rfl
      · rfl
  · intro rest answered
    funext address
    unfold reprotected rewritten pages
    rw [done rest answered address]
    split
    · rw [Option.map_map, Option.map_map]
      rfl
    · rfl
  · intro enough counted
    rcases keeps enough counted with ⟨returned, countedAfter⟩
    exact ⟨returned, Released.of_sameIndex countedAfter ⟨rfl, rfl⟩⟩

/-! ## One completed request -/

theorem removeSource_effect (source : Option ReservationRange) (spares : List SpareNode)
    (tidy : Tidy root.tree) :
    ∃ answer after,
      removeSource source spares root = (answer, after) ∧
      Effects root after ∧ Tidy after.tree ∧ KeepsEntries root after ∧
      (∀ address, Cut root.tree address -> Cut after.tree address) ∧
      (∀ rest, answer = .ok rest ->
        (∀ address, source.any (fun range => range.contains address) = true ->
          cells after.tree address = none) ∧
        pages after.tree =
          (source.map (fun range => unmapped range (pages root.tree))).getD (pages root.tree) ∧
        spares.length <= rest.length + (source.map root.splitsNeeded).getD 0) ∧
      ((source.map root.splitsNeeded).getD 0 <= spares.length -> Counted root ->
        (∃ rest, answer = .ok rest) ∧ Released root after) := by
  cases source with
  | none =>
    refine ⟨.ok spares, root, rfl, .refl, tidy, KeepsEntries.refl root, fun _ cut => cut, ?_,
      fun _ counted =>
        ⟨⟨spares, rfl⟩, Released.of_sameIndex counted (SameIndex.refl root)⟩⟩
    intro rest answered
    cases answered
    refine ⟨?_, rfl, Nat.le_add_right _ _⟩
    intro address impossible
    cases impossible
  | some range =>
    rcases removeRange_effect range spares tidy with ⟨answer, after, ran, emptied, done, keeps⟩
    have entries := KeepsEntries.kept.removeRange range spares root
    rw [ran] at entries
    exact ⟨answer, after, ran, .single (.emptied range emptied), emptied.tidy, entries,
      emptied.cuts, done, keeps⟩

theorem editRange_effect (request : ReservationRequest) (spares : List SpareNode)
    (tidy : Tidy root.tree) :
    ∃ answer after,
      editRange request spares root = (answer, after) ∧
      Effect root after ∧ Tidy after.tree ∧
      (request.operation.reprotects = false -> KeepsEntries root after ∧
        ∀ address, cells root.tree address = none -> cells after.tree address = none) ∧
      (∀ rest, answer = .ok rest ->
        (request.operation.reprotects = true -> pages after.tree =
          reprotected request.range request.protection (pages root.tree)) ∧
        (request.operation.reprotects = false ->
          (∀ address, request.range.contains address = true ->
            cells after.tree address = none) ∧
          pages after.tree = unmapped request.range (pages root.tree) ∧
          spares.length <= rest.length + root.splitsNeeded request.range)) ∧
      (root.splitsNeeded request.range <= spares.length -> Counted root ->
        (∃ rest, answer = .ok rest) ∧ Released root after) := by
  unfold editRange
  cases reprotects : request.operation.reprotects with
  | true =>
    rcases reprotectRange_recoloured request.range request.protection spares tidy with
      ⟨answer, after, ran, recoloured, done, keeps⟩
    refine ⟨answer, after, ran, .recoloured recoloured, recoloured.tidy,
      nofun, ?_, keeps⟩
    exact fun rest answered => ⟨fun _ => done rest answered, nofun⟩
  | false =>
    rcases removeRange_effect request.range spares tidy with
      ⟨answer, after, ran, emptied, done, keeps⟩
    have entries := KeepsEntries.kept.removeRange request.range spares root
    rw [ran] at entries
    refine ⟨answer, after, ran, .emptied request.range emptied, emptied.tidy, ?_, ?_, keeps⟩
    · refine fun _ => ⟨entries, fun address absent => ?_⟩
      rcases emptied.cells_or address with same | ⟨_, gone⟩
      · exact same.trans absent
      · exact gone
    · exact fun rest answered => ⟨nofun, fun _ => done rest answered⟩

theorem installNode_effect (request : ReservationRequest) (flags : ReservationNodeFlags)
    (backing : Option HostBackingIdentity) (spares : List SpareNode) (tidy : Tidy root.tree)
    (empty : ∀ address, request.range.contains address = true -> cells root.tree address =
      none) :
    ∃ answer after,
      (do
        let _ ← takeSpare spares
        createNode (request.createdNode flags backing) : Guarded Unit) root = (answer, after) ∧
      Effects root after ∧ Tidy after.tree ∧
      (answer = .ok () -> pages after.tree =
        mapped request.range request.protection flags backing (pages root.tree)) ∧
      (spares ≠ [] -> Counted root -> (request.createdNode flags backing).Reaches ->
        (∀ source, backing = some source -> (root.sourceFind source.name).isSome = true) ->
        answer = .ok () ∧ Settled root after ∧
          ∀ name, root.sourceRefCount name <= after.sourceRefCount name) := by
  cases spares with
  | nil =>
    exact ⟨.error .stale, root, rfl, .refl, tidy, nofun,
      fun wrong => absurd rfl wrong⟩
  | cons spare rest =>
    have formed := range_formed request.range request.protection flags 0 backing
    have free := free_of_cells tidy empty
    have start : (do
        let _ <- takeSpare (spare :: rest)
        createNode (request.createdNode flags backing) : Guarded Unit) root =
        createNode (request.createdNode flags backing) root := rfl
    rw [start]
    rcases createNode_spec tidy formed free with
      ⟨reason, after, ran, notCreated⟩ | ⟨after, ran, created⟩
    · refine ⟨.error reason, after, ran, .single (.notCreated notCreated),
        notCreated.tree ▸ tidy, nofun, ?_⟩
      intro _ counted reaches registered
      rcases createNode_counted tidy counted formed free reaches registered with
        ⟨other, returned, _⟩
      rw [ran] at returned
      cases returned
    have uncovered : ∀ address, (request.createdNode flags backing).covers address ->
        cells root.tree address = none := fun address covers =>
      empty address (ReservationRange.contains_iff.mpr covers)
    refine ⟨.ok (), after, ran, .single (.created _ uncovered created), created.tidy,
      fun _ => created.pages_eq, ?_⟩
    intro _ counted reaches registered
    rcases createNode_counted tidy counted formed free reaches registered with
      ⟨other, returned, settled⟩
    rw [ran] at returned
    cases returned
    exact ⟨rfl, settled⟩

/-- What a completed edit leaves on the pages of its range does not depend on
what the range held. -/
theorem mapped_unmapped (range : ReservationRange) (prot : ReservationProtection)
    (flags : ReservationNodeFlags) (backing : Option HostBackingIdentity)
    (old : Nat -> Option Page) :
    mapped range prot flags backing (unmapped range old) = mapped range prot flags backing old := by
  funext address
  unfold mapped unmapped
  split <;> simp_all

/-- Some root on the way from one root to another has none of the pages that
the request removes. -/
def PassesEmpty (request : ReservationRequest) (before after : Root) : Prop :=
  ∃ middle, Effects before middle ∧ Effects middle after ∧
    ∀ address, (request.range.contains address = true ∨
      request.source.any (fun range => range.contains address) = true) ->
      cells middle.tree address = none

/-- The commands of an edit: what they did however they ended, the pages of an
edit that returned, and when it returns. -/
theorem applyEdit_spec (request : ReservationRequest) (flags : ReservationNodeFlags)
    (backing : Option HostBackingIdentity) (spares : List SpareNode) (tidy : Tidy root.tree) :
    ∃ answer after, applyEdit request flags backing spares root = (answer, after) ∧
      Effects root after ∧ Tidy after.tree ∧
      (answer = .ok () ->
        pages after.tree = request.commits flags backing (pages root.tree) ∧
        (request.operation.reprotects = false -> PassesEmpty request root after)) ∧
      (root.sparesRequired request <= spares.length -> Counted root ->
        (request.operation.installs = true ->
          (request.createdNode flags backing).Reaches ∧
          ∀ source, backing = some source -> (root.sourceFind source.name).isSome = true) ->
        answer = .ok () ∧ Settled root after) := by
  rcases removeSource_effect request.source spares tidy with
    ⟨answer, first, ranSource, effects, tidyFirst, entriesFirst, cuts, doneSource, keepsSource⟩
  have splitsLe := Root.splitsNeeded_le tidy tidyFirst cuts request.range
  unfold applyEdit
  cases answer with
  | error reason =>
    refine ⟨.error reason, first, bind_of_error ranSource, effects, tidyFirst,
      nofun, ?_⟩
    intro enough counted _
    unfold Root.sparesRequired at enough
    rcases (keepsSource (by omega) counted).1 with ⟨rest, wrong⟩
    cases wrong
  | ok afterSource =>
    rcases doneSource afterSource rfl with ⟨sourceGone, pagesFirst, usedSource⟩
    rcases editRange_effect request afterSource tidyFirst with
      ⟨answer, second, ranRange, effect, tidySecond, removal, doneRange, keepsRange⟩
    have onward : Effects root second := effects.tail effect
    have counting : root.sparesRequired request <= spares.length -> Counted root ->
        (∃ rest, answer = .ok rest) ∧ Released root second := by
      intro enough counted
      unfold Root.sparesRequired at enough
      have released := (keepsSource (by omega) counted).2
      rcases keepsRange (by omega) released.toCounted with ⟨returned, more⟩
      exact ⟨returned, released.trans more⟩
    cases answer with
    | error reason =>
      refine ⟨.error reason, second, (bind_of_ok ranSource).trans (bind_of_error ranRange),
        onward, tidySecond, nofun, ?_⟩
      intro enough counted _
      rcases (counting enough counted).1 with ⟨rest, wrong⟩
      cases wrong
    | ok afterRange =>
      have ranBoth : (removeSource request.source spares >>= fun afterSource =>
          editRange request afterSource >>= fun afterRange =>
            installNode request flags backing afterRange) root =
          installNode request flags backing afterRange second :=
        (bind_of_ok ranSource).trans (bind_of_ok ranRange)
      rw [ranBoth]
      rcases doneRange afterRange rfl with ⟨reprotected, emptied⟩
      have pagesMoved : pages first.tree = request.moved (pages root.tree) := pagesFirst
      cases installs : request.operation.installs with
      | false =>
        have idle : installNode request flags backing afterRange second =
            (.ok (), second) := by
          unfold installNode
          rw [installs]
          rfl
        refine ⟨.ok (), second, idle, onward, tidySecond, fun _ => ⟨?_, ?_⟩,
          fun enough counted _ => ⟨rfl, (counting enough counted).2.toSettled⟩⟩
        · cases reprotects : request.operation.reprotects with
          | true =>
            rw [reprotected reprotects, pagesMoved,
              ReservationRequest.commits_of_reprotects reprotects]
          | false =>
            rw [(emptied reprotects).2.1, pagesMoved,
              ReservationRequest.commits_of_retires reprotects installs]
        · intro reprotects
          refine ⟨second, onward, .refl, fun address inside => ?_⟩
          rcases inside with inRange | inSource
          · exact (emptied reprotects).1 address inRange
          · exact (removal reprotects).2 address (sourceGone address inSource)
      | true =>
        have reprotects : request.operation.reprotects = false := by
          cases reprotects : request.operation.reprotects with
          | false => rfl
          | true =>
            rw [ReservationOperation.installs_of_reprotects reprotects] at installs
            cases installs
        rcases emptied reprotects with ⟨cleared, pagesSecond, usedRange⟩
        rcases installNode_effect request flags backing afterRange tidySecond cleared with
          ⟨answer, after, ran, effectsInstall, tidyAfter, installed, keepsInstall⟩
        have ranInstall : installNode request flags backing afterRange second =
            (answer, after) := by
          unfold installNode
          rw [installs]
          exact ran
        refine ⟨answer, after, ranInstall, onward.trans effectsInstall, tidyAfter, ?_, ?_⟩
        · intro returned
          refine ⟨?_, fun _ => ⟨second, onward, effectsInstall, fun address inside => ?_⟩⟩
          · rw [installed returned, pagesSecond, pagesMoved, mapped_unmapped,
              ReservationRequest.commits_of_installs installs]
          · rcases inside with inRange | inSource
            · exact cleared address inRange
            · exact (removal reprotects).2 address (sourceGone address inSource)
        intro enough counted ready
        rcases ready rfl with ⟨reaches, registered⟩
        have kept := KeepsEntries.trans _ _ _ entriesFirst (removal reprotects).1
        have spared : afterRange ≠ [] := by
          rintro rfl
          unfold Root.sparesRequired at enough
          rw [ReservationOperation.creates_of_installs installs] at enough
          simp only [List.length_nil, Bool.toNat_true] at enough usedRange
          omega
        have released := (counting enough counted).2
        rcases keepsInstall spared released.toCounted reaches
          (fun source has => kept _ (registered source has)) with ⟨returned, settled, more⟩
        refine ⟨returned, released.settled settled (fun name none held => ?_)⟩
        have grown := more name
        omega

end Reservation
end Carrick

import Carrick.Reservation.Runs

namespace Carrick
namespace Reservation

open Foundation
open Command

/-!
# Fault plans

A fault plan is made under the guard and used after the guard was dropped, so
it is authenticated against the committed tree again: the faulting page must
still be in a mapping of the planned incarnation that covers the planned
range.  A created mapping may join the incarnation of its neighbour, and what
keeps an old plan from becoming valid again is the watermark: once anonymous
memory is removed, no incarnation minted so far is joined any more.
-/

/-! ## Plans and their authentication -/

structure FaultPlan where
  mm : Nat
  mappingIncarnation : Nat
  range : ReservationRange
  protection : ReservationProtection
  faultPage : Nat
  deriving DecidableEq

/-- Whether a caller may act on a root: always outside a fork, and with the
fork's certificate during one. -/
def Root.forkAdmits (root : Root) (sequence : Option Nat) : Bool :=
  !root.forkPending || sequence.any root.forkWriteAuthorized

def faultPlanForSource (root : Root) (address maxLen : Nat) (access : ReservationProtection)
    (allowBacking : Bool) (forkSequence : Option Nat) : Except Refusal FaultPlan :=
  let page := address - address % pageSize
  if root.admitted = false then .error .stale
  else if root.forkAdmits forkSequence = false then .error .busy
  else if maxLen = 0 ∨ maxLen % pageSize ≠ 0 ∨ access = 0 then .error .invalid
  else if root.pending.any (fun pending => pending.request.range.contains page) then .error .busy
  else
    match root.nodeAt page with
    | none => .error .hole
    | some node =>
      if (node.isAnonymous || allowBacking && node.hostBacking.isSome) = false then
        .error .foreignMapping
      else if node.prot.permits access = false then .error .limit
      else do
        let window := page - page % maxLen
        let stop ← orRefuse (checkedAdd window maxLen) .invalid
        let range ← orRefuse
          (ReservationRange.new (max window node.start) (min stop node.stop)) .invalid
        .ok ⟨root.mm, node.incarnation, range, node.prot, page⟩

def faultPlan (root : Root) (address maxLen : Nat) (access : ReservationProtection) :
    Except Refusal FaultPlan :=
  faultPlanForSource root address maxLen access false none

def authenticateForkTransferFault (root : Root) (plan : FaultPlan)
    (backing : Option HostBackingIdentity) (sequence : Option Nat) : Bool :=
  root.forkAdmits sequence && decide (plan.mm = root.mm) &&
    root.pending.all (fun pending => decide (pending.request.range.stop <= plan.range.start) ||
      decide (plan.range.stop <= pending.request.range.start)) &&
    (root.nodeAt plan.faultPage).any (fun node =>
      decide (node.incarnation = plan.mappingIncarnation) &&
      (match backing with
        | some source => decide (((checkedSub plan.range.start node.start).bind (fun offset =>
          node.hostBacking.bind (fun held => held.advance offset))) = some source)
        | none => node.isAnonymous && node.hostBacking.isNone) &&
      decide (node.prot = plan.protection) && decide (node.start <= plan.range.start) &&
      decide (plan.range.stop <= node.stop))

def authenticateFault (root : Root) (plan : FaultPlan) : Bool :=
  authenticateForkTransferFault root plan none none

/-! ## Lives of pages -/

/-- What the incarnation numbers of a root are good for: none is larger than
the last one minted, and neither is the watermark. -/
structure Aged (root : Root) : Prop where
  tidy : Tidy root.tree
  floor : root.retiredBelow <= root.minted
  young : ∀ address cell, cells root.tree address = some cell ->
    cell.incarnation <= root.minted

/-- The page is anonymous memory of the incarnation. -/
def LivesOn (address incarnation : Nat) (root : Root) : Prop :=
  ∃ cell, cells root.tree address = some cell ∧ cell.life = (incarnation, true)

/-- The incarnation is below the watermark and the page is not part of it. -/
def IsOver (address incarnation : Nat) (root : Root) : Prop :=
  incarnation <= root.retiredBelow ∧
    ∀ cell, cells root.tree address = some cell -> cell.incarnation ≠ incarnation

/-- What one effect of an edit may do to the lives of pages: a life goes on or
is over, and what is over stays so. -/
structure Ages (before after : Root) : Prop where
  aged : Aged after
  lives : ∀ address incarnation, LivesOn address incarnation before ->
    LivesOn address incarnation after ∨ IsOver address incarnation after
  ended : ∀ address incarnation, IsOver address incarnation before ->
    IsOver address incarnation after

variable {root : Root}

theorem Ages.refl (aged : Aged root) : Ages root root :=
  ⟨aged, fun _ _ living => .inl living, fun _ _ gone => gone⟩

theorem Ages.trans {first second third : Root} (earlier : Ages first second)
    (later : Ages second third) : Ages first third := by
  refine ⟨later.aged, fun address incarnation living => ?_,
    fun address incarnation gone => later.ended _ _ (earlier.ended _ _ gone)⟩
  rcases earlier.lives address incarnation living with still | gone
  · exact later.lives address incarnation still
  · exact .inr (later.ended address incarnation gone)

variable {before after : Root}

theorem Ages.of_same (aged : Aged before) (tree : after.tree = before.tree)
    (minted : after.minted = before.minted)
    (retiredBelow : after.retiredBelow = before.retiredBelow) : Ages before after := by
  refine ⟨⟨tree ▸ aged.tidy, by rw [retiredBelow, minted]; exact aged.floor, ?_⟩, ?_, ?_⟩
  · intro address cell found
    rw [tree] at found
    rw [minted]
    exact aged.young address cell found
  · rintro address incarnation ⟨cell, found, life⟩
    exact .inl ⟨cell, by rw [tree]; exact found, life⟩
  · rintro address incarnation ⟨low, others⟩
    refine ⟨by rw [retiredBelow]; exact low, fun cell found => ?_⟩
    rw [tree] at found
    exact others cell found

/-! ## Each effect -/

variable {range : ReservationRange}

theorem Emptied.watermark_le (aged : Aged before) (emptied : Emptied range before after) :
    before.retiredBelow <= after.retiredBelow := by
  have floor := aged.floor
  rcases emptied.watermark with same | raised
  · exact Nat.le_of_eq same.symm
  · rw [raised]
    exact floor

theorem Emptied.ages (aged : Aged before) (emptied : Emptied range before after) :
    Ages before after := by
  have floor := aged.floor
  have kept : ∀ address cell, cells after.tree address = some cell ->
      cells before.tree address = some cell := by
    intro address cell found
    rcases emptied.cells_or address with same | ⟨_, gone⟩
    · rw [<- same]
      exact found
    · rw [found] at gone
      cases gone
  refine ⟨⟨emptied.tidy, ?_, fun address cell found => ?_⟩, ?_, ?_⟩
  · rw [emptied.minted]
    rcases emptied.watermark with same | raised
    · rw [same]
      exact floor
    · exact Nat.le_of_eq raised
  · rw [emptied.minted]
    exact aged.young address cell (kept address cell found)
  · rintro address incarnation ⟨cell, found, life⟩
    cases now : cells after.tree address with
    | some other =>
      have same := (kept address other now).symm.trans found
      cases same
      exact .inl ⟨cell, now, life⟩
    | none =>
      have anonymous : cell.isAnonymous = true := congrArg Prod.snd life
      have number : cell.incarnation = incarnation := congrArg Prod.fst life
      refine .inr ⟨?_, fun other wrong => by rw [now] at wrong; cases wrong⟩
      rw [emptied.lost address cell found anonymous now, <- number]
      exact aged.young address cell found
  · rintro address incarnation ⟨low, others⟩
    exact ⟨Nat.le_trans low (emptied.watermark_le aged),
      fun cell found => others cell (kept address cell found)⟩

theorem Recoloured.ages (aged : Aged before) (recoloured : Recoloured before after) :
    Ages before after := by
  have back : ∀ address cell, cells after.tree address = some cell ->
      ∃ old, cells before.tree address = some old ∧ old.life = cell.life := by
    intro address cell found
    have lives := recoloured.lives address
    rw [found] at lives
    rcases Option.map_eq_some_iff.mp lives.symm with ⟨old, was, same⟩
    exact ⟨old, was, same⟩
  refine ⟨⟨recoloured.tidy, ?_, fun address cell found => ?_⟩, ?_, ?_⟩
  · rw [recoloured.minted, recoloured.retiredBelow]
    exact aged.floor
  · rcases back address cell found with ⟨old, was, same⟩
    have number : old.incarnation = cell.incarnation := congrArg Prod.fst same
    rw [recoloured.minted, <- number]
    exact aged.young address old was
  · rintro address incarnation ⟨cell, found, life⟩
    have lives := recoloured.lives address
    rw [found] at lives
    rcases Option.map_eq_some_iff.mp lives with ⟨new, now, same⟩
    exact .inl ⟨new, now, same.trans life⟩
  rintro address incarnation ⟨low, others⟩
  refine ⟨by rw [recoloured.retiredBelow]; exact low, fun cell found => ?_⟩
  rcases back address cell found with ⟨old, was, same⟩
  have number : old.incarnation = cell.incarnation := congrArg Prod.fst same
  rw [<- number]
  exact others old was

theorem NotCreated.ages (aged : Aged before) (notCreated : NotCreated before after) :
    Ages before after := by
  have more : before.minted <= after.minted := by
    rcases notCreated.minted with same | grown <;> omega
  refine ⟨⟨notCreated.tree ▸ aged.tidy, ?_, fun address cell found => ?_⟩, ?_, ?_⟩
  · rw [notCreated.retiredBelow]
    exact Nat.le_trans aged.floor more
  · rw [notCreated.tree] at found
    exact Nat.le_trans (aged.young address cell found) more
  · rintro address incarnation ⟨cell, found, life⟩
    exact .inl ⟨cell, by rw [notCreated.tree]; exact found, life⟩
  · rintro address incarnation ⟨low, others⟩
    refine ⟨by rw [notCreated.retiredBelow]; exact low, fun cell found => ?_⟩
    rw [notCreated.tree] at found
    exact others cell found

variable {incarnation : Nat}

/-- An adopted incarnation lies above the watermark and was minted by now. -/
theorem Adopted.bounds (aged : Aged before) (adopted : Adopted before after incarnation) :
    before.retiredBelow < incarnation ∧ incarnation <= after.minted ∧
      before.minted <= after.minted := by
  have floor := aged.floor
  rcases adopted with ⟨neighbour, member, same, above, minted⟩ | ⟨fresh, minted⟩
  · have ordered := (aged.tidy.formed neighbour member).ordered
    have here := aged.young neighbour.start (neighbour.cell neighbour.start)
      (cells_of_mem aged.tidy member ⟨le_rfl, ordered⟩)
    have number : (neighbour.cell neighbour.start).incarnation = incarnation := same
    omega
  · omega

theorem Created.ages {node : Node} (aged : Aged before)
    (free : ∀ address, node.covers address -> cells before.tree address = none)
    (created : Created node before after) : Ages before after := by
  rcases created.placed with ⟨incarnation, adopted, placed⟩
  rcases adopted.bounds aged with ⟨above, minted, more⟩
  have outside : ∀ address cell, cells before.tree address = some cell ->
      cells after.tree address = some cell := by
    intro address cell found
    rw [placed, if_neg]
    · exact found
    · intro covers
      rw [free address covers] at found
      cases found
  refine ⟨⟨created.tidy, ?_, fun address cell found => ?_⟩, ?_, ?_⟩
  · rw [created.retiredBelow]
    exact Nat.le_trans aged.floor more
  · rw [placed] at found
    split at found
    · cases found
      exact minted
    · exact Nat.le_trans (aged.young address cell found) more
  · rintro address number ⟨cell, found, life⟩
    exact .inl ⟨cell, outside address cell found, life⟩
  rintro address number ⟨low, others⟩
  refine ⟨by rw [created.retiredBelow]; exact low, fun cell found => ?_⟩
  rw [placed] at found
  split at found
  · cases found
    intro same
    have equal : incarnation = number := same
    omega
  · exact others cell found

theorem Effect.ages (aged : Aged before) (effect : Effect before after) :
    Ages before after := by
  cases effect with
  | emptied range effect => exact effect.ages aged
  | recoloured effect => exact effect.ages aged
  | created node free effect => exact effect.ages aged free
  | notCreated effect => exact effect.ages aged

theorem Effects.ages (aged : Aged before) (effects : Effects before after) :
    Ages before after := by
  induction effects with
  | refl => exact Ages.refl aged
  | tail _ effect ih =>
    exact ih.trans (effect.ages ih.aged)

theorem Steady.ages (aged : Aged before) (steady : Steady before after) :
    Ages before after :=
  Ages.of_same aged steady.tree steady.minted steady.retiredBelow

theorem SameMap.ages (aged : Aged before) (same : SameMap before after) :
    Ages before after :=
  Ages.of_same aged same.tree same.minted same.retiredBelow

/-! ## Each call -/

variable {α : Type} {command : Guarded α}

theorem Ages.answering {answer : α -> Answer} (ends : Ends (fun _ => Ages root) command root) :
    Ends (fun _ => Ages root) (answering answer command) root :=
  Ends.answer ends

section Aged

variable (aged : Aged root)

include aged

theorem Ages.of_relates (steady : Relates Steady command) :
    Ends (fun _ => Ages root) command root :=
  (steady root).ages aged

theorem Ages.of_untouched (untouched : Relates Untouched command) :
    Ends (fun _ => Ages root) command root :=
  (untouched root).steady.ages aged

theorem settlePending_ages (pending : Pending) :
    Ages root (settlePending pending root).2 := by
  rcases settlePending_frame pending root with ⟨tree, minted, retiredBelow, _⟩
  exact Ages.of_same aged tree minted retiredBelow

theorem completeAs_ages (request : ReservationRequest) (hostOwned : Bool) :
    Ends (fun _ => Ages root) (completeAs request hostOwned) root := by
  unfold Ends
  rcases completeAs_cases request hostOwned root with ⟨reason, ran, _⟩ | ⟨pending, _, _, ran⟩
  · rw [ran]
    exact Ages.refl aged
  rw [ran]
  rcases applyEdit_spec pending.request (pending.createdFlags hostOwned)
    (pending.created hostOwned) pending.nodes aged.tidy with ⟨answer, edited, ranEdit, effects, _⟩
  have ages := effects.ages aged
  cases answer with
  | error reason =>
    rw [bind_of_error ranEdit]
    exact ages
  | ok done =>
    rw [bind_of_ok ranEdit]
    exact ages.trans (settlePending_ages ages.aged pending)

theorem completeHostOwned_ages (request : ReservationRequest) :
    Ends (fun _ => Ages root) (completeHostOwned request) root :=
  Ends.observe (Ends.require (Ages.refl aged) (fun _ => completeAs_ages aged request true))

theorem Inserted.ages {prot : ReservationProtection} {flags : ReservationNodeFlags}
    {backing : Option HostBackingIdentity} {answer : Except Refusal Unit}
    (inserted : Inserted ⟨range.start, range.stop, prot, flags, 0, backing⟩ root answer after) :
    Ages root after := by
  rcases inserted with ⟨steady, _⟩ | ⟨middle, inserting, ran⟩
  · exact steady.ages aged
  have ages := inserting.toSteady.ages aged
  have free : Free middle.tree range.start range.stop := inserting.tree ▸ inserting.free
  have uncovered : ∀ address,
      Node.covers ⟨range.start, range.stop, prot, flags, 0, backing⟩ address ->
      cells middle.tree address = none := by
    rintro address ⟨above, below⟩
    refine cells_eq_none_iff.mpr (fun node member covers => ?_)
    rcases covers with ⟨lower, upper⟩
    dsimp only at above below
    rcases free node member with left | right <;> omega
  rcases createNode_spec ages.aged.tidy (range_formed range prot flags 0 backing) free with
    ⟨reason, final, returned, notCreated⟩ | ⟨final, returned, created⟩
  · rw [ran] at returned
    cases returned
    exact ages.trans (notCreated.ages ages.aged)
  · rw [ran] at returned
    cases returned
    exact ages.trans (created.ages ages.aged uncovered)

theorem importRow_ages (range : ReservationRange) (prot : ReservationProtection)
    (flags : ReservationNodeFlags) (backing : Option HostBackingIdentity) :
    Ends (fun _ => Ages root) (importRow range prot flags backing) root := by
  refine Ends.observe (Ends.require (Ages.refl aged) (fun _ => ?_))
  exact (insertBackedNode_inserted aged.tidy range prot flags backing).ages aged

theorem insertOpaqueBacked_ages (range : ReservationRange) (prot : ReservationProtection)
    (flags : ReservationNodeFlags) (backing : Option HostBackingIdentity) :
    Ends (fun _ => Ages root) (insertOpaqueBacked range prot flags backing) root := by
  have inserted := insertBackedNode_inserted aged.tidy range prot (flags.difference .anonymous)
    backing
  refine Ends.observe (Ends.require (Ages.refl aged) (fun _ => ?_))
  refine hostEditAdmitted_bind_ends (fun _ => Ages.refl aged) (fun _ generation => ?_)
  refine Ends.bind (fun reason after ran => ?_) (fun done middle ran => ?_)
  · exact (inserted.of_eq ran).ages aged
  · have ages := (inserted.of_eq ran).ages aged
    exact ages.trans (Ages.of_same ages.aged rfl rfl rfl)

theorem setFlags_ages (range : ReservationRange) (set clear : ReservationNodeFlags) :
    Ends (fun _ => Ages root) (setFlags range set clear) root := by
  unfold Ends
  rcases setFlags_attributed aged.tidy range set clear with ⟨untouched, _⟩ |
    ⟨middle, edited, generation, taken, _, recoloured, _, _, _, _, same⟩
  · exact untouched.steady.ages aged
  · rw [same]
    have ages := taken.steady.ages aged
    have coloured := ages.trans (recoloured.ages ages.aged)
    exact coloured.trans (Ages.of_same coloured.aged rfl rfl rfl)

theorem retireOpaque_emptied (range : ReservationRange) :
    Ends (fun answer after => Ages root after ∧ (answer = .ok () ->
      ∀ address, range.contains address = true -> cells after.tree address = none))
      (retireOpaque range) root := by
  have refused : ∀ reason, Ages root root ∧ ((.error reason : Except Refusal Unit) = .ok () ->
      ∀ address, range.contains address = true -> cells root.tree address = none) :=
    fun reason => ⟨Ages.refl aged, nofun⟩
  refine Ends.observe (Ends.require (refused _) (fun _ => ?_))
  refine hostEditAdmitted_bind_ends (fun _ => refused _) (fun idle generation => Ends.observe ?_)
  have taken := allocateSpares_untouched (root.splitsNeeded range) root
  refine Ends.bind (fun reason middle ran => ?_) (fun spares middle ran => ?_)
  · rw [ran] at taken
    exact ⟨taken.steady.ages aged, nofun⟩
  rw [ran] at taken
  have ages := taken.steady.ages aged
  rcases removeRange_effect range spares ages.aged.tidy with
    ⟨answer, after, removed, emptied, done, _⟩
  have emptying := ages.trans (emptied.ages ages.aged)
  refine Ends.bind (fun reason final refusing => ?_) (fun rest final returned => ?_)
  · rw [removed] at refusing
    cases refusing
    exact ⟨emptying, nofun⟩
  · rw [removed] at returned
    cases returned
    exact ⟨emptying.trans (Ages.of_same emptying.aged rfl rfl rfl), fun _ => (done rest rfl).1⟩

theorem run_ages (call : Call) :
    Ends (fun _ => Ages root) call.run root := by
  by_cases aside : call.aside = true
  · exact Ages.of_untouched aged (run_untouched aside)
  by_cases proposes : call.proposes = true
  · exact Ages.of_relates aged (run_tolerant Tolerant.steady proposes)
  cases call with
  | importRow range prot flags backing =>
    exact Ages.answering (importRow_ages aged range prot flags backing)
  | mmapPrivateFile placement len prot backing =>
    exact Ages.answering (Ages.of_relates aged (mmapPrivateFile_steady placement len prot backing))
  | mremap source newLen target =>
    exact Ages.answering (Ages.of_relates aged (mremap_steady source newLen target))
  | complete request => exact Ages.answering (completeAs_ages aged request false)
  | completeHostOwned request => exact Ages.answering (completeHostOwned_ages aged request)
  | refusePending request =>
    exact Ages.answering (Ages.of_relates aged (refusePending_steady request))
  | insertOpaqueBacked range prot flags backing =>
    exact Ages.answering (insertOpaqueBacked_ages aged range prot flags backing)
  | retireOpaque range => exact Ages.answering (retireOpaque_emptied aged range).1
  | setFlags range set clear => exact Ages.answering (setFlags_ages aged range set clear)
  | writePendingBacking backing =>
    exact Ages.answering (Ages.of_relates aged (writePendingBacking_steady backing))
  | retireUnusedSource name =>
    exact Ages.answering ((retireUnusedSource_sameMap name root).ages aged)
  | takeRetiredHostBacking =>
    exact Ages.answering ((takeRetiredHostBacking_sameMap root).ages aged)
  | _ => first | exact absurd rfl aside | exact absurd rfl proposes

theorem Event.ages (event : Event) :
    Ages root (event.run root).2 := by
  have entered := (within_untouched root event.around).steady.ages aged
  exact entered.trans (run_ages entered.aged event.call)

theorem runAll_ages (events : List Event) :
    Ages root (runAll events root) := by
  induction events generalizing root with
  | nil => exact Ages.refl aged
  | cons event rest ih =>
    have first := event.ages aged
    exact first.trans (ih first.aged)

end Aged

/-! ## Every reachable root is aged -/

theorem Root.Claimed.aged (claimed : root.Claimed) : Aged root := by
  refine ⟨claimed.tree ▸ Tidy.leaf, ?_, fun address cell found => ?_⟩
  · rw [claimed.minted, claimed.retiredBelow]
  · rw [claimed.tree] at found
    cases found

theorem Cloned.aged {parent child : Root} (cloned : Cloned parent child after)
    (agedParent : Aged parent) : Aged after := by
  refine ⟨cloned.tidy agedParent.tidy, ?_, fun address cell found => ?_⟩
  · rw [cloned.minted, cloned.retiredBelow]
    exact agedParent.floor
  · rcases exists_of_cells found with ⟨node, member, covers, same⟩
    rw [cloned.minted]
    exact agedParent.young address cell
      (same ▸ cells_of_mem agedParent.tidy (cloned.mem_parent member) covers)

theorem Reachable.aged {allowed : Root -> Event -> Prop} (reachable : Reachable allowed root) :
    Aged root := by
  induction reachable with
  | claimed claimed => exact claimed.aged
  | called _ _ ih => exact (Event.ages ih _).aged
  | forked _ _ cloned parentHypothesis _ =>
    have spec := (cloneInto_cloned _ _).of_eq cloned rfl
    exact spec.aged ((within_untouched _ _).steady.ages parentHypothesis).aged

/-! ## Removed pages -/

/-- The call is answered and takes the page out of the map: it completes a
retirement, a replacement or a move with the page in its range or source, or
retires the page for the host. -/
def Event.removes (root : Root) (event : Event) (page : Nat) : Prop :=
  (∃ answer, (event.run root).1 = .ok answer) ∧
  match event.call with
  | .complete _ | .completeHostOwned _ => ∃ pending, root.pending = some pending ∧
      pending.request.operation.reprotects = false ∧
      (pending.request.range.contains page = true ∨
        pending.request.source.any (fun range => range.contains page) = true)
  | .retireOpaque range => range.contains page = true
  | _ => False

variable {page : Nat}

theorem Ages.over_of_gone {middle : Root} (earlier : Ages before middle)
    (later : Ages middle after) (living : LivesOn page incarnation before)
    (gone : cells middle.tree page = none) : IsOver page incarnation after := by
  refine later.ended page incarnation ?_
  rcases earlier.lives page incarnation living with ⟨cell, found, _⟩ | ended
  · rw [gone] at found
    cases found
  · exact ended

theorem completeAs_removes (aged : Aged root) {request : ReservationRequest} {hostOwned : Bool}
    {value : Nat} (ran : completeAs request hostOwned root = (.ok value, after))
    {pending : Pending} (has : root.pending = some pending)
    (removes : pending.request.operation.reprotects = false)
    (inside : pending.request.range.contains page = true ∨ pending.request.source.any (fun range
      => range.contains page) = true) (living : LivesOn page incarnation root) :
    IsOver page incarnation after := by
  rcases completeAs_cases request hostOwned root with
    ⟨reason, refused, _⟩ | ⟨other, hasOther, _, edits⟩
  · rw [ran] at refused
    cases refused
  rw [has] at hasOther
  cases hasOther
  rw [ran] at edits
  rcases bind_eq_ok edits.symm with ⟨done, edited, ranEdit, settles⟩
  rcases applyEdit_spec pending.request (pending.createdFlags hostOwned)
    (pending.created hostOwned) pending.nodes aged.tidy with
    ⟨answer, final, ranFinal, _, _, committed, _⟩
  rw [ranEdit] at ranFinal
  cases ranFinal
  rcases (committed rfl).2 removes with ⟨middle, before, behind, empty⟩
  have first := before.ages aged
  have second := behind.ages first.aged
  have third := settlePending_ages second.aged pending
  rw [settles] at third
  exact first.over_of_gone (second.trans third) living (empty page inside)

theorem answering_eq_ok {answer : α -> Answer} {value : Answer}
    (answered : (answering answer command root).1 = .ok value) :
    ∃ found, command root = (.ok found, (answering answer command root).2) := by
  cases ran : answering answer command root with
  | mk result after =>
    rw [ran] at answered
    cases answered
    rcases bind_eq_ok ran with ⟨found, middle, first, made⟩
    cases made
    exact ⟨found, first⟩

theorem Event.removes_over (aged : Aged root) {event : Event} (removes : event.removes root page)
    (living : LivesOn page incarnation root) :
    IsOver page incarnation (event.run root).2 := by
  rcases event with ⟨call, around⟩
  rcases removes with ⟨⟨answer, answered⟩, effect⟩
  have agedHere := ((within_untouched root around).steady.ages aged).aged
  cases call with
  | complete request =>
    rcases effect with ⟨pending, has, edits, inside⟩
    rcases answering_eq_ok answered with ⟨value, ran⟩
    exact completeAs_removes agedHere ran has edits inside living
  | completeHostOwned request =>
    rcases effect with ⟨pending, has, edits, inside⟩
    rcases answering_eq_ok answered with ⟨value, ran⟩
    rcases bind_eq_ok ran with ⟨_, _, observed, rest⟩
    cases observed
    rcases bind_eq_ok rest with ⟨_, middle, required, completed⟩
    have same : middle = root.within around := by
      unfold Command.require at required
      split at required
      · cases required
        rfl
      · cases required
    rw [same] at completed
    exact completeAs_removes agedHere completed has edits inside living
  | retireOpaque range =>
    rcases answering_eq_ok answered with ⟨value, ran⟩
    rcases (retireOpaque_emptied agedHere range).of_eq ran with ⟨ages, empty⟩
    exact ages.over_of_gone (Ages.refl ages.aged) living (empty rfl page effect)
  | _ => cases effect

/-! ## Plans do not outlive their pages -/

theorem nodeAt_eq_some {address : Nat} {node : Node} (found : root.nodeAt address = some node) :
    node ∈ root.tree.toList := by
  unfold Root.nodeAt at found
  split at found
  · exact mem_of_holding found
  · cases found

/-- The pages of a plan are anonymous memory of the planned incarnation. -/
theorem faultPlan_lives (tidy : Tidy root.tree) {address maxLen : Nat}
    {access : ReservationProtection} {plan : FaultPlan}
    (planned : faultPlan root address maxLen access = .ok plan)
    (inside : plan.range.contains page = true) : LivesOn page plan.mappingIncarnation root := by
  unfold faultPlan faultPlanForSource at planned
  dsimp only at planned
  split at planned
  · cases planned
  split at planned
  · cases planned
  split at planned
  · cases planned
  split at planned
  · cases planned
  split at planned
  · cases planned
  rename_i node found
  split at planned
  · cases planned
  rename_i anonymous
  split at planned
  · cases planned
  rcases except_bind_eq_ok planned with ⟨stop, ends, rest⟩
  rcases except_bind_eq_ok rest with ⟨range, ranged, made⟩
  cases made
  have bounds := ReservationRange.contains_iff.mp inside
  have limits := ReservationRange.new_eq_some (orRefuse_eq_ok ranged)
  dsimp only at bounds
  have covers : node.covers page := by
    unfold Node.covers
    omega
  refine ⟨node.cell page, cells_of_mem tidy (nodeAt_eq_some found) covers, ?_⟩
  have isAnonymous : node.isAnonymous = true := by simpa using anonymous
  exact Prod.ext rfl isAnonymous

theorem authenticateFault_lives (tidy : Tidy root.tree) {plan : FaultPlan}
    (accepted : authenticateFault root plan = true) (inside : plan.range.contains page = true) :
    LivesOn page plan.mappingIncarnation root := by
  unfold authenticateFault authenticateForkTransferFault at accepted
  rw [Bool.and_eq_true] at accepted
  cases found : root.nodeAt plan.faultPage with
  | none =>
    rw [found] at accepted
    cases accepted.2
  | some node =>
    rw [found] at accepted
    have checks : (((node.incarnation = plan.mappingIncarnation ∧ node.isAnonymous = true ∧
        node.hostBacking = none) ∧ node.prot = plan.protection) ∧
        node.start <= plan.range.start) ∧ plan.range.stop <= node.stop := by
      simpa using accepted.2
    rcases checks with ⟨⟨⟨⟨incarnation, anonymous, _⟩, _⟩, fromStart⟩, toStop⟩
    have bounds := ReservationRange.contains_iff.mp inside
    have covers : node.covers page := by
      unfold Node.covers
      omega
    exact ⟨node.cell page, cells_of_mem tidy (nodeAt_eq_some found) covers,
      Prod.ext incarnation anonymous⟩

/-- Once a plan was made, in every run at whose end it is accepted each of its
pages was in the map all the way and no call on the way removed it. -/
theorem accepted_plan_kept_its_pages {root : Root} (reachable : Reachable (fun _ _ => True) root)
    {address maxLen : Nat} {access : ReservationProtection} {plan : FaultPlan}
    (planned : faultPlan root address maxLen access = .ok plan) {earlier later : List Event}
    (accepted : authenticateFault (runAll (earlier ++ later) root) plan = true) {page : Nat}
    (inside : plan.range.contains page = true) :
    (pages (runAll earlier root).tree page).isSome = true ∧
    ∀ event rest, later = event :: rest -> ¬ event.removes (runAll earlier root) page := by
  have aged := reachable.aged
  have toMiddle := runAll_ages aged earlier
  have toLast := runAll_ages toMiddle.aged later
  rw [runAll_append] at accepted
  rcases authenticateFault_lives toLast.aged.tidy accepted inside with ⟨last, foundLast, lifeLast⟩
  have notOver : ¬ IsOver page plan.mappingIncarnation (runAll later (runAll earlier root)) :=
    fun ended => ended.2 last foundLast (congrArg Prod.fst lifeLast)
  have living : LivesOn page plan.mappingIncarnation (runAll earlier root) := by
    rcases toMiddle.lives page _ (faultPlan_lives aged.tidy planned inside) with still | ended
    · exact still
    · exact absurd (toLast.ended page _ ended) notOver
  refine ⟨?_, ?_⟩
  · rcases living with ⟨cell, found, _⟩
    unfold pages
    rw [found]
    rfl
  · rintro event rest rfl removes
    have ended := Event.removes_over toMiddle.aged removes living
    have onward := runAll_ages (event.ages toMiddle.aged).aged rest
    exact notOver (onward.ended page _ ended)

/-- A page is mapped and planned, and its neighbour joins it before the plan is used. -/
def joinedNeighbour : List Event :=
  let plain := withLeftover none
  [⟨.mmap (.fixed 0x6000001000) 4096 .readWrite, plain⟩,
    ⟨.complete (requested 2 2 secondArenaPage .prepare none), plain⟩]

/-- The root in which the plan is made. -/
def plannedRoot : Root :=
  let plain := withLeftover none
  runAll [⟨.finishImport, plain⟩, ⟨.mmap (.fixed 0x6000000000) 4096 .readWrite, plain⟩,
    ⟨.complete (requested 1 1 firstArenaPage .prepare none), plain⟩]
    emptyRoot

def firstPagePlan : FaultPlan :=
  ⟨7, 1, firstArenaPage, .readWrite, 0x6000000000⟩

theorem joined_page_kept :
    faultPlan plannedRoot 0x6000000010 8192 .readWrite = .ok firstPagePlan ∧
    authenticateFault (runAll joinedNeighbour plannedRoot) firstPagePlan = true ∧
    (pages (runAll (joinedNeighbour.take 1) plannedRoot).tree 0x6000000000).isSome = true := by
  have reachable : Reachable (fun _ _ => True) plannedRoot :=
    reachable_runAll (.claimed emptyRoot_claimed) (allowedAll_true _ _)
  have planned : faultPlan plannedRoot 0x6000000010 8192 .readWrite = .ok firstPagePlan := by
    decide +kernel
  have accepted : authenticateFault (runAll joinedNeighbour plannedRoot) firstPagePlan = true := by
    decide +kernel
  have inside : firstPagePlan.range.contains 0x6000000000 = true := by decide +kernel
  have split : joinedNeighbour = joinedNeighbour.take 1 ++ joinedNeighbour.drop 1 := by
    rw [List.take_append_drop]
  rw [split] at accepted
  refine ⟨planned, by rw [split]; exact accepted, ?_⟩
  exact (accepted_plan_kept_its_pages reachable planned accepted inside).1

end Reservation
end Carrick

import Carrick.FdCore.Atomicity
import Carrick.FdCore.Receipts

namespace Carrick
namespace FdCore

open Foundation
open Foundation.Command (Keeps)

/-!
# Reservations are exclusive

The receipts of the claims that are not settled stand beside the world.  A
receipt is not copied, so a call that settles a claim presents one of them; a
refused call gives it back.  Two receipts never name the same slot of the same
incarnation of a table, and a slot of a table in use is claimed exactly if a
receipt names it.
-/

/-- The incarnation of a table and the number that a receipt names. -/
def place (reservation : Core.SlotReservation) : Nat × Nat × Nat :=
  (reservation.table.index, reservation.table.generation, reservation.fd)

/-- The receipt that a call presents. -/
def Call.presented : Call -> Option Core.SlotReservation
  | .cancelReservation _ reservation => some reservation
  | .commitReservation _ reservation _ _ => some reservation
  | .commitReservationFiltered _ reservation _ _ _ => some reservation
  | _ => none

/-- The table that a call tears down. -/
def Call.tears : Call -> Option TableId
  | .destroyTable _ table => some table
  | .finishRetired _ receipt => some receipt
  | _ => none

/-- What a settling call leaves in the slot, in place of the entry there. -/
def Call.leaves (entry : Option Entry) : Call -> Option Entry
  | .commitReservation _ _ source cloexec => some { ofd := source.key.index, cloexec := cloexec }
  | .commitReservationFiltered _ _ source cloexec _ =>
    some { ofd := source.key.index, cloexec := cloexec }
  | _ => entry

namespace World

/-- The receipt that a call answers with. -/
def taken (world : World) : Call -> Option Core.SlotReservation
  | .reserveMin venue table min => (Core.reserveMin venue table min world.core).1.toOption
  | .reserveDupMin venue table min => (Core.reserveDupMin venue table min world.core).1.toOption
  | .reserveExact venue table fd => (Core.reserveExact venue table fd world.core).1.toOption
  | _ => none

/-- The receipt that a call consumes: one that is presented and not refused. -/
def settled (world : World) : Call -> Option Core.SlotReservation
  | .cancelReservation venue reservation =>
    (Core.cancelReservation venue reservation world.core).1.toOption.map (fun _ => reservation)
  | .commitReservation venue reservation pin cloexec =>
    (Core.commitReservation venue reservation pin cloexec world.core).1.toOption.map
      (fun _ => reservation)
  | .commitReservationFiltered venue reservation pin cloexec releaseHere =>
    (Core.commitReservationFiltered venue reservation pin cloexec releaseHere
      world.core).1.toOption.map (fun _ => reservation)
  | _ => none

end World

structure Claimants where
  world : World
  outstanding : List Core.SlotReservation

namespace Claimants

def tables (claimants : Claimants) : List TableRecord := claimants.world.core.tables

def remaining (claimants : Claimants) (call : Call) : List Core.SlotReservation :=
  (claimants.world.taken call).toList ++
    match claimants.world.settled call with
    | none => claimants.outstanding
    | some reservation => claimants.outstanding.erase reservation

def perform (claimants : Claimants) (call : Call) : Claimants :=
  { world := claimants.world.perform call, outstanding := claimants.remaining call }

/-- A receipt is presented by its owner. -/
def Permits (claimants : Claimants) (call : Call) : Prop :=
  claimants.world.Permits call ∧
    ∀ reservation, call.presented = some reservation -> reservation ∈ claimants.outstanding

def Starts (claimants : Claimants) : Prop :=
  claimants.world.Starts ∧ claimants.outstanding = []

def Steps (before : Claimants) (call : Call) (after : Claimants) : Prop :=
  before.Permits call ∧ after = before.perform call

end Claimants

/-! ## What a call does to the tables -/

/-- What a call did to the tables, and to the receipts: it spared the claims,
tore a table down or made one, or it gave out or settled one receipt. -/
inductive Effect (world : World) (call : Call) : Prop
  | spared (taken : world.taken call = none) (settled : world.settled call = none)
      (spares : Spares world.core.tables (world.perform call).core.tables)
  | torn (taken : world.taken call = none) (settled : world.settled call = none) (table : TableId)
      (tears : call.tears = some table)
      (torn : TornDown world.core.tables (world.perform call).core.tables table)
  | made (taken : world.taken call = none) (settled : world.settled call = none)
      (before after : Custody) (index : Nat) (same : before.core = world.core)
      (ends : after.core = (world.perform call).core)
      (free : (recordAt world.core.tables index).state = .free)
      (unclaimed : Unclaimed (recordAt world.core.tables index))
      (renews : RenewsAt index before after)
  | took (reservation : Core.SlotReservation) (taken : world.taken call = some reservation)
      (settled : world.settled call = none)
      (marks : (world.perform call).core =
        (Core.reserveSlot reservation.table.index reservation.fd world.core).2)
      (takes : Takes world.core.tables (world.perform call).core.tables reservation)
  | gave (reservation : Core.SlotReservation) (taken : world.taken call = none)
      (settled : world.settled call = some reservation)
      (presented : call.presented = some reservation)
      (gives : GivesBack world.core.tables (world.perform call).core.tables reservation
        (call.leaves ((recordAt world.core.tables reservation.table.index).storage.get
          reservation.fd)))

section Effects

variable {world : World} {call : Call} {α : Type}

theorem effect_spares {command : Core.Action α}
    (taken : world.taken call = none) (settled : world.settled call = none)
    (spares : SparesFrom world.core.tables command)
    (core : (world.perform call).core = (command world.core).2) : Effect world call := by
  refine .spared taken settled ?_
  rw [core]
  exact spares world.core rfl

theorem effect_tears {venue : Venue} {table : TableId} {states : List TableState}
    (taken : world.taken call = none) (settled : world.settled call = none)
    (tears : call.tears = some table)
    (core : (world.perform call).core =
      (Core.destroyTableInStates venue table states world.core).2) : Effect world call := by
  rcases destroyTableInStates_tears world.core venue table states with spares | torn
  · rw [<- core] at spares
    exact .spared taken settled spares
  · rw [<- core] at torn
    exact .torn taken settled table tears torn

theorem effect_makes {extent : Extent} {action : Custody.Action TableId}
    (taken : world.taken call = none) (settled : world.settled call = none)
    (makes : Command.Ends (Makes ⟨world.core, extent⟩) action ⟨world.core, extent⟩)
    (core : (world.perform call).core = (action ⟨world.core, extent⟩).2.core) :
    Effect world call := by
  rcases makes with ⟨same, _⟩ | ⟨index, free, unclaimed, renews, _⟩
  · refine .spared taken settled ?_
    rw [core, same]
    exact Spares.refl _
  · exact .made taken settled ⟨world.core, extent⟩ _ index rfl core.symm free unclaimed renews

theorem effect_takes {command : Core.Action Core.SlotReservation} {table : TableId}
    (taken : world.taken call = (command world.core).1.toOption)
    (settled : world.settled call = none)
    (grants : Command.Ends (Settles world.core (Grants world.core table)) command world.core)
    (core : (world.perform call).core = (command world.core).2) : Effect world call := by
  cases ran : command world.core with
  | mk outcome after =>
    rw [ran] at taken core
    cases outcome with
    | error reason =>
      have unchanged : after = world.core := grants.of_eq ran
      refine .spared taken settled ?_
      rw [core, unchanged]
      exact Spares.refl _
    | ok reservation =>
      rcases grants.of_eq ran with ⟨_, marks, takes⟩
      exact .took reservation taken settled (core.trans marks) (by rw [core]; exact takes)

theorem effect_gives {command : Core.Action α} {reservation : Core.SlotReservation}
    (taken : world.taken call = none)
    (settled : world.settled call = (command world.core).1.toOption.map (fun _ => reservation))
    (presented : call.presented = some reservation)
    (refuses : ∀ reason after, command world.core = (.error reason, after) ->
      after = world.core)
    (gives : ∀ answer after, command world.core = (.ok answer, after) ->
      GivesBack world.core.tables after.tables reservation
        (call.leaves ((recordAt world.core.tables reservation.table.index).storage.get
          reservation.fd)))
    (core : (world.perform call).core = (command world.core).2) : Effect world call := by
  cases ran : command world.core with
  | mk outcome after =>
    rw [ran] at settled core
    cases outcome with
    | error reason =>
      refine .spared taken settled ?_
      rw [core, refuses reason after ran]
      exact Spares.refl _
    | ok answer =>
      exact .gave reservation taken settled presented (by rw [core]; exact gives answer after ran)

theorem perform_effect (inOrder : InOrder world) (call : Call) : Effect world call := by
  have sound := inOrder.sound
  have consistent : AllConsistent world.core.tables := sound.tables.consistent
  cases call with
  | publishOfds provided count =>
    exact effect_spares rfl rfl SparesFrom.quiet (settle_core world _ (fun _ _ => rfl))
  | createTable venue extent limit =>
    exact effect_makes rfl rfl (createTable_makes sound venue limit)
      (settle_core world _ (fun _ _ => rfl))
  | growTable venue extent table =>
    refine .spared rfl rfl ?_
    have grows := growTable_spares ⟨world.core, extent⟩ venue table
    have core : (world.perform (.growTable venue extent table)).core =
        (Custody.growTable venue table ⟨world.core, extent⟩).2.core :=
      settle_core world _ (fun _ _ => rfl)
    rw [core]
    exact grows
  | forkPublished venue extent parent publisher =>
    exact effect_makes rfl rfl (forkPublished_makes sound venue parent publisher)
      (settle_core world _ (fun _ _ => rfl))
  | setLimit venue table limit =>
    exact effect_spares rfl rfl (setLimit_spares venue table limit _)
      (settle_core world _ (fun _ _ => rfl))
  | openDescriptor venue table min description cloexec =>
    exact effect_spares rfl rfl
      (openDescriptor_spares consistent venue table min description cloexec)
      (settle_core world _ (fun _ after => allocating_core after _ _))
  | dup venue table old =>
    exact effect_spares rfl rfl (dup_spares consistent venue table old)
      (settle_core world _ (fun _ _ => rfl))
  | dupfd venue table old min cloexec =>
    exact effect_spares rfl rfl
      (dupfd_spares consistent venue table old min cloexec)
      (settle_core world _ (fun _ _ => rfl))
  | dup2 venue table old new =>
    exact effect_spares rfl rfl (dup2With_spares venue table old new)
      (settle_core world _ (fun _ _ => rfl))
  | dup3 venue table old new cloexec =>
    exact effect_spares rfl rfl (dup3With_spares venue table old new cloexec)
      (settle_core world _ (fun _ _ => rfl))
  | close venue table fd =>
    exact effect_spares rfl rfl (closeWith_spares venue table fd _)
      (settle_core world _ (fun _ _ => rfl))
  | dup2Filtered venue table old new releaseHere =>
    exact effect_spares rfl rfl (dup2With_spares venue table old new)
      (settle_core world _ (fun _ _ => rfl))
  | dup3Filtered venue table old new cloexec releaseHere =>
    exact effect_spares rfl rfl (dup3With_spares venue table old new cloexec)
      (settle_core world _ (fun _ _ => rfl))
  | closeFiltered venue table fd releaseHere =>
    exact effect_spares rfl rfl (closeWith_spares venue table fd _)
      (settle_core world _ (fun _ _ => rfl))
  | closeRange venue table first last cloexec =>
    exact effect_spares rfl rfl
      (closeRange_spares venue table first last cloexec _)
      (settle_core world _ (fun _ _ => rfl))
  | exec venue table =>
    exact effect_spares rfl rfl (exec_spares venue table _)
      (settle_core world _ (fun _ _ => rfl))
  | destroyTable venue table => exact effect_tears rfl rfl rfl (settle_core world _ (fun _ _ => rfl))
  | retireTable venue table releaseHere =>
    exact effect_spares rfl rfl (retireTable_spares venue table releaseHere _)
      (settle_core world _ (fun _ _ => rfl))
  | takeRetiredTable =>
    exact effect_spares rfl rfl SparesFrom.quiet (settle_core world _ (fun _ _ => rfl))
  | finishRetired venue receipt => exact effect_tears rfl rfl rfl (settle_core world _ (fun _ _ => rfl))
  | returnRetired receipt =>
    exact effect_spares rfl rfl SparesFrom.quiet (settle_core world _ (fun _ _ => rfl))
  | pin venue table fd =>
    exact effect_spares rfl rfl SparesFrom.quiet (settle_core world _ (fun _ _ => rfl))
  | createPinned description =>
    exact effect_spares rfl rfl SparesFrom.quiet (settle_core world _ (fun _ _ => rfl))
  | unpin pin =>
    exact effect_spares rfl rfl SparesFrom.quiet (settle_core world _ (fun _ _ => rfl))
  | unpinFiltered pin releaseHere =>
    exact effect_spares rfl rfl SparesFrom.quiet (settle_core world _ (fun _ _ => rfl))
  | installPin venue table target pin cloexec =>
    exact effect_spares rfl rfl
      (installPin_spares venue table target pin cloexec)
      (settle_core world _ (fun _ _ => rfl))
  | replacePin venue table target pin cloexec =>
    exact effect_spares rfl rfl
      (replacePin_spares venue table target pin cloexec)
      (settle_core world _ (fun _ _ => rfl))
  | installPair venue table min firstPin secondPin cloexec =>
    exact effect_spares rfl rfl
      (installPair_spares consistent venue table min firstPin secondPin cloexec)
      (settle_core world _ (fun _ _ => rfl))
  | reserveMin venue table min =>
    exact effect_takes rfl rfl (reserveMin_grants consistent venue table min)
      (settle_core world _ (fun _ _ => rfl))
  | reserveDupMin venue table min =>
    exact effect_takes rfl rfl (reserveDupMin_grants consistent venue table min)
      (settle_core world _ (fun _ _ => rfl))
  | reserveExact venue table fd =>
    exact effect_takes rfl rfl (reserveExact_grants venue table fd)
      (settle_core world _ (fun _ _ => rfl))
  | cancelReservation venue reservation =>
    have gives := cancelReservation_gives world.core venue reservation
    exact effect_gives rfl rfl rfl (fun _ _ ran => gives.of_eq ran)
      (fun _ _ ran => gives.of_eq ran) (settle_core world _ (fun _ _ => rfl))
  | commitReservation venue reservation pin cloexec =>
    refine effect_gives rfl rfl rfl (fun _ _ ran => Command.Ends.of_eq
        (commitReservationWith_settles dropRef_drops rfl sound venue reservation pin cloexec) ran)
      (fun _ _ ran => commitReservationWith_gives venue reservation pin cloexec ran)
      (settle_core world _ (fun _ _ => rfl))
  | commitReservationFiltered venue reservation pin cloexec releaseHere =>
    refine effect_gives rfl rfl rfl (fun _ _ ran => Command.Ends.of_eq
        (commitReservationWith_settles (dropRefFiltered_drops releaseHere) rfl sound venue
          reservation pin cloexec) ran)
      (fun _ _ ran => commitReservationWith_gives venue reservation pin cloexec ran)
      (settle_core world _ (fun _ _ => rfl))
  | takeRetiredOfd =>
    exact effect_spares rfl rfl SparesFrom.quiet (settle_core world _ (fun _ _ => rfl))

end Effects

/-! ## The receipts and the claims agree -/

/-- The incarnation that the receipt names is in use. -/
structure InUse (tables : List TableRecord) (reservation : Core.SlotReservation) : Prop where
  current : (recordAt tables reservation.table.index).generation = reservation.table.generation
  busy : (recordAt tables reservation.table.index).state ≠ .free

/-- The receipts name distinct places, none newer than its table, and a slot of
a table in use is claimed exactly if one of them names it. -/
structure Exclusive (tables : List TableRecord) (outstanding : List Core.SlotReservation) : Prop where
  distinct : (outstanding.map place).Nodup
  older : ∀ reservation ∈ outstanding,
    reservation.table.generation <= (recordAt tables reservation.table.index).generation
  held : ∀ reservation ∈ outstanding, InUse tables reservation ->
    (recordAt tables reservation.table.index).storage.reserved reservation.fd = true
  named : ∀ index fd, (recordAt tables index).storage.reserved fd = true ->
    (index, (recordAt tables index).generation, fd) ∈ outstanding.map place

section Receipts

variable {before after : List TableRecord} {outstanding : List Core.SlotReservation}
  {reservation : Core.SlotReservation}

/-- Every record moved as a call that takes and settles nothing may move it. -/
theorem Exclusive.moved (exclusive : Exclusive before outstanding)
    (moves : ∀ index, TableMove (recordAt before index) (recordAt after index)) :
    Exclusive after outstanding := by
  refine ⟨exclusive.distinct, ?_, ?_, ?_⟩
  · intro receipt listed
    have older := exclusive.older receipt listed
    cases moves receipt.table.index with
    | spared same => rw [same.generation]; exact older
    | torn generation _ _ => rw [generation]; exact older
    | renewed _ newer _ => exact Nat.le_trans older (Nat.le_of_lt newer)
  · rintro receipt listed ⟨current, busy⟩
    cases moves receipt.table.index with
    | spared same =>
      have earlier : InUse before receipt :=
        ⟨same.generation.symm.trans current, fun free => busy (same.free.mpr free)⟩
      exact (same.slots receipt.fd).claim.trans (exclusive.held receipt listed earlier)
    | torn _ free _ => exact absurd free busy
    | renewed _ newer _ =>
      have older := exclusive.older receipt listed
      omega
  · intro index fd claimed
    cases moves index with
    | spared same =>
      have earlier : (recordAt before index).storage.reserved fd = true :=
        (same.slots fd).claim.symm.trans claimed
      rw [same.generation]
      exact exclusive.named index fd earlier
    | torn _ _ unclaimed => exact absurd (claimed.symm.trans (unclaimed fd)) (by decide)
    | renewed _ _ unclaimed => exact absurd (claimed.symm.trans (unclaimed fd)) (by decide)

theorem Exclusive.fresh (exclusive : Exclusive before outstanding)
    (takes : Takes before after reservation) : place reservation ∉ outstanding.map place := by
  intro listed
  rcases List.mem_map.mp listed with ⟨receipt, member, same⟩
  unfold place at same
  rw [Prod.mk.injEq, Prod.mk.injEq] at same
  rcases same with ⟨index, generation, fd⟩
  have used : InUse before receipt := by
    refine ⟨?_, ?_⟩
    · rw [index, generation]
      exact takes.2.current
    · rw [index, takes.2.live]
      exact nofun
  have claimed := exclusive.held receipt member used
  rw [index, fd, takes.1] at claimed
  cases claimed

theorem Rewrites.reserved {slot : DescriptorSlot} (rewrites : Rewrites before after reservation slot)
    (fd : Nat) :
    (recordAt after reservation.table.index).storage.reserved fd =
      if fd = reservation.fd then slot.reserved
      else (recordAt before reservation.table.index).storage.reserved fd := by
  unfold TableStorage.reserved
  rw [rewrites.slots]
  split_ifs
  · rfl
  · rfl

theorem Rewrites.generation_same {slot : DescriptorSlot}
    (rewrites : Rewrites before after reservation slot) (index : Nat) :
    (recordAt after index).generation = (recordAt before index).generation := by
  by_cases here : index = reservation.table.index
  · rw [here, rewrites.generation, rewrites.current]
  · rw [rewrites.others index here]

theorem Rewrites.inUse {slot : DescriptorSlot} (rewrites : Rewrites before after reservation slot)
    {receipt : Core.SlotReservation} (used : InUse after receipt) : InUse before receipt := by
  refine ⟨(rewrites.generation_same _).symm.trans used.current, ?_⟩
  by_cases here : receipt.table.index = reservation.table.index
  · rw [here, rewrites.live]
    exact nofun
  · rw [<- rewrites.others _ here]
    exact used.busy

theorem Exclusive.took (exclusive : Exclusive before outstanding)
    (takes : Takes before after reservation) : Exclusive after (reservation :: outstanding) := by
  have rewrites := takes.2
  refine ⟨List.nodup_cons.mpr ⟨exclusive.fresh takes, exclusive.distinct⟩, ?_, ?_, ?_⟩
  · intro receipt listed
    rw [rewrites.generation_same]
    rcases List.mem_cons.mp listed with new | older
    · rw [new, rewrites.current]
    · exact exclusive.older receipt older
  · intro receipt listed used
    rcases List.mem_cons.mp listed with new | older
    · rw [new, rewrites.reserved, if_pos rfl]
    have earlier := exclusive.held receipt older (rewrites.inUse used)
    by_cases here : receipt.table.index = reservation.table.index
    · rw [here] at earlier ⊢
      rw [rewrites.reserved]
      split_ifs
      · rfl
      · exact earlier
    · rw [rewrites.others _ here]
      exact earlier
  · intro index fd claimed
    rw [rewrites.generation_same]
    by_cases here : index = reservation.table.index
    · rw [here] at claimed ⊢
      rw [rewrites.reserved] at claimed
      split_ifs at claimed with same
      · rw [rewrites.current, same]
        exact List.mem_cons_self
      · exact List.mem_cons_of_mem _ (exclusive.named _ fd claimed)
    · rw [rewrites.others _ here] at claimed
      exact List.mem_cons_of_mem _ (exclusive.named _ fd claimed)

theorem Exclusive.elsewhere (exclusive : Exclusive before outstanding)
    (listed : reservation ∈ outstanding) {receipt : Core.SlotReservation}
    (member : receipt ∈ outstanding) (different : receipt ≠ reservation) :
    place receipt ≠ place reservation := by
  intro same
  exact different (List.inj_on_of_nodup_map exclusive.distinct member listed same)

theorem Exclusive.gave (exclusive : Exclusive before outstanding) {entry : Option Entry}
    (listed : reservation ∈ outstanding) (gives : GivesBack before after reservation entry) :
    Exclusive after (outstanding.erase reservation) := by
  have rewrites := gives.2
  have nodup : outstanding.Nodup := List.Nodup.of_map _ exclusive.distinct
  refine ⟨exclusive.distinct.sublist (List.erase_sublist.map place), ?_, ?_, ?_⟩
  · intro receipt member
    rw [rewrites.generation_same]
    exact exclusive.older receipt (List.mem_of_mem_erase member)
  · intro receipt member used
    rcases nodup.mem_erase_iff.mp member with ⟨different, member⟩
    have earlier := exclusive.held receipt member (rewrites.inUse used)
    by_cases here : receipt.table.index = reservation.table.index
    · have apart : receipt.fd ≠ reservation.fd := by
        intro same
        refine exclusive.elsewhere listed member different ?_
        have generation := (rewrites.inUse used).current
        rw [here, rewrites.current] at generation
        unfold place
        rw [here, same, generation]
      rw [here] at earlier ⊢
      rw [rewrites.reserved, if_neg apart]
      exact earlier
    · rw [rewrites.others _ here]
      exact earlier
  intro index fd claimed
  have earlier : (recordAt before index).storage.reserved fd = true ∧
      (index, (recordAt before index).generation, fd) ≠ place reservation := by
    by_cases here : index = reservation.table.index
    · rw [here] at claimed ⊢
      rw [rewrites.reserved] at claimed
      split_ifs at claimed with same
      refine ⟨claimed, ?_⟩
      unfold place
      rw [Ne, Prod.mk.injEq, Prod.mk.injEq]
      exact fun wrong => same wrong.2.2
    · rw [rewrites.others _ here] at claimed
      refine ⟨claimed, ?_⟩
      unfold place
      rw [Ne, Prod.mk.injEq]
      exact fun wrong => here wrong.1
  rw [rewrites.generation_same]
  rcases List.mem_map.mp (exclusive.named index fd earlier.1) with ⟨receipt, member, same⟩
  refine List.mem_map.mpr ⟨receipt, nodup.mem_erase_iff.mpr ⟨?_, member⟩, same⟩
  intro wrong
  rw [wrong] at same
  exact earlier.2 same.symm

theorem made_moves {custody later : Custody} {index : Nat}
    (free : (recordAt custody.core.tables index).state = .free)
    (unclaimed : Unclaimed (recordAt custody.core.tables index))
    (renews : RenewsAt index custody later) (other : Nat) :
    TableMove (recordAt custody.core.tables other) (recordAt later.core.tables other) := by
  by_cases here : other = index
  · rw [here]
    by_cases same : (recordAt later.core.tables index).generation =
        (recordAt custody.core.tables index).generation
    · exact .torn same (renews.free same free) (renews.unclaimed unclaimed)
    · exact .renewed free (Nat.lt_of_le_of_ne renews.newer (Ne.symm same))
        (renews.unclaimed unclaimed)
  · rw [renews.others other here]
    exact .spared (SameClaims.refl _)

theorem TornDown.moves {table : TableId} (torn : TornDown before after table) (index : Nat) :
    TableMove (recordAt before index) (recordAt after index) := by
  by_cases here : index = table.index
  · rw [here]
    exact .torn torn.generation torn.free torn.unclaimed
  · exact .spared (torn.others index here)

end Receipts

/-! ## Over a run -/

/-- The accounts of the world are in order and its receipts agree with it: each
outstanding receipt has its slot to itself. -/
structure Agrees (claimants : Claimants) : Prop where
  inOrder : InOrder claimants.world
  exclusive : Exclusive claimants.tables claimants.outstanding

section Runs

variable {claimants : Claimants} {call : Call}

theorem remaining_quiet (taken : claimants.world.taken call = none)
    (settled : claimants.world.settled call = none) :
    claimants.remaining call = claimants.outstanding := by
  unfold Claimants.remaining
  rw [taken, settled]
  rfl

theorem remaining_took {reservation : Core.SlotReservation}
    (taken : claimants.world.taken call = some reservation)
    (settled : claimants.world.settled call = none) :
    claimants.remaining call = reservation :: claimants.outstanding := by
  unfold Claimants.remaining
  rw [taken, settled]
  rfl

theorem remaining_gave {reservation : Core.SlotReservation}
    (taken : claimants.world.taken call = none)
    (settled : claimants.world.settled call = some reservation) :
    claimants.remaining call = claimants.outstanding.erase reservation := by
  unfold Claimants.remaining
  rw [taken, settled]
  rfl

/-- Every permitted call keeps the receipts and the claims in agreement. -/
theorem perform_agrees (agrees : Agrees claimants) (permits : claimants.Permits call) :
    Agrees (claimants.perform call) := by
  refine ⟨(perform_kept agrees.inOrder call permits.1).inOrder, ?_⟩
  have exclusive := agrees.exclusive
  show Exclusive (claimants.world.perform call).core.tables (claimants.remaining call)
  cases perform_effect agrees.inOrder call with
  | spared taken settled spares =>
    rw [remaining_quiet taken settled]
    exact exclusive.moved (fun index => .spared (spares index))
  | torn taken settled table tears torn =>
    rw [remaining_quiet taken settled]
    exact exclusive.moved torn.moves
  | made taken settled custody later index same ends free unclaimed renews =>
    rw [remaining_quiet taken settled, <- ends]
    rw [<- same] at free unclaimed
    have moves := made_moves free unclaimed renews
    rw [same] at moves
    exact exclusive.moved moves
  | took reservation taken settled marks takes =>
    rw [remaining_took taken settled]
    exact exclusive.took takes
  | gave reservation taken settled presented gives =>
    rw [remaining_gave taken settled]
    exact exclusive.gave (permits.2 reservation presented) gives

theorem run_agrees {history : List Call}
    (run : Run Claimants.Starts Claimants.Steps history claimants) : Agrees claimants := by
  refine Run.state_invariant Agrees ?_ ?_ run
  · rintro ⟨start, outstanding⟩ ⟨⟨identity, count, named, fresh⟩, empty⟩
    have fresh : start = _ := fresh
    have empty : outstanding = [] := empty
    subst fresh empty
    refine ⟨⟨named, initialized_sound identity count⟩, List.nodup_nil, ?_, ?_, ?_⟩
    · intro reservation wrong
      cases wrong
    · intro reservation wrong
      cases wrong
    intro index fd claimed
    have initial : recordAt (List.replicate count TableRecord.initial) index =
        TableRecord.initial := by
      unfold recordAt
      rw [List.getD_eq_getElem?_getD, List.getElem?_replicate]
      split_ifs
      · rfl
      · rfl
    have claimed : (recordAt (List.replicate count TableRecord.initial) index).storage.reserved
      fd = true := claimed
    rw [initial] at claimed
    cases claimed
  · rintro earlier call later agrees ⟨permits, rfl⟩
    exact perform_agrees agrees permits

/-- What one call means for the receipts. -/
structure Honours (claimants : Claimants) (call : Call) : Prop where
  /-- A receipt that the call does not settle stays outstanding.  As long as its
  table is not torn down its slot stays claimed, and the entry there is the one
  that was there, or gone. -/
  kept : ∀ reservation ∈ claimants.outstanding,
    claimants.world.settled call ≠ some reservation ->
    reservation ∈ (claimants.perform call).outstanding ∧
      (InUse claimants.tables reservation ->
        (InUse (claimants.perform call).tables reservation ∧
          (recordAt (claimants.perform call).tables reservation.table.index).storage.reserved
            reservation.fd = true ∧
          SparesSlot
            ((recordAt claimants.tables reservation.table.index).storage.slotAt reservation.fd)
            ((recordAt (claimants.perform call).tables reservation.table.index).storage.slotAt
              reservation.fd)) ∨
        ∃ table, call.tears = some table ∧ table.index = reservation.table.index ∧
          table.generation = reservation.table.generation)
  /-- A settled receipt is the one that was presented.  Its slot was claimed for
  it; the slot is left unclaimed, with the entry that the call puts there. -/
  settles : ∀ reservation, claimants.world.settled call = some reservation ->
    call.presented = some reservation ∧ InUse claimants.tables reservation ∧
      (claimants.perform call).outstanding = claimants.outstanding.erase reservation ∧
      reservation ∉ (claimants.perform call).outstanding ∧
      (recordAt (claimants.perform call).tables reservation.table.index).storage.slotAt
        reservation.fd = ⟨call.leaves ((recordAt claimants.tables
          reservation.table.index).storage.get reservation.fd), false⟩
  /-- A refused settlement changes nothing. -/
  refuses : ∀ reservation, call.presented = some reservation ->
    claimants.world.settled call = none ->
    (claimants.perform call).world.core = claimants.world.core ∧
      (claimants.perform call).outstanding = claimants.outstanding
  /-- A new receipt names a place that no other one names, and every lookup
  answers as before. -/
  takes : ∀ reservation, claimants.world.taken call = some reservation ->
    place reservation ∉ claimants.outstanding.map place ∧
      (claimants.perform call).outstanding = reservation :: claimants.outstanding ∧
      ∀ venue table fd, (Core.pin venue table fd (claimants.perform call).world.core).1 =
        (Core.pin venue table fd claimants.world.core).1
  /-- A child of a fork has no claimed slot, and no receipt names it. -/
  child : ∀ venue extent parent publisher id, call = .forkPublished venue extent parent publisher ->
    (Custody.forkPublished venue parent publisher ⟨claimants.world.core, extent⟩).1 = .ok id ->
    Unclaimed (recordAt (claimants.perform call).tables id.index) ∧
      ∀ reservation, reservation ∈ (claimants.perform call).outstanding ->
        reservation.table ≠ id

variable {reservation : Core.SlotReservation}

theorem SameClaims.guards {before after : List TableRecord}
    (same : SameClaims (recordAt before reservation.table.index)
      (recordAt after reservation.table.index))
    (used : InUse before reservation)
    (claimed : (recordAt before reservation.table.index).storage.reserved reservation.fd = true) :
    InUse after reservation ∧
      (recordAt after reservation.table.index).storage.reserved reservation.fd = true ∧
      SparesSlot ((recordAt before reservation.table.index).storage.slotAt reservation.fd)
        ((recordAt after reservation.table.index).storage.slotAt reservation.fd) :=
  ⟨⟨same.generation.trans used.current, fun free => used.busy (same.free.mp free)⟩,
    (same.slots reservation.fd).claim.trans claimed, same.slots reservation.fd⟩

theorem Rewrites.guards {before after : List TableRecord} {written : Core.SlotReservation}
    {slot : DescriptorSlot} (rewrites : Rewrites before after written slot)
    (used : InUse before reservation)
    (claimed : (recordAt before reservation.table.index).storage.reserved reservation.fd = true)
    (elsewhere : place reservation ≠ place written) :
    InUse after reservation ∧
      (recordAt after reservation.table.index).storage.reserved reservation.fd = true ∧
      SparesSlot ((recordAt before reservation.table.index).storage.slotAt reservation.fd)
        ((recordAt after reservation.table.index).storage.slotAt reservation.fd) := by
  by_cases here : reservation.table.index = written.table.index
  · have apart : reservation.fd ≠ written.fd := by
      intro same
      refine elsewhere ?_
      have generation := used.current
      rw [here, rewrites.current] at generation
      unfold place
      rw [here, same, generation]
    have slots := rewrites.slots reservation.fd
    rw [if_neg apart, <- here] at slots
    refine ⟨⟨(rewrites.generation_same _).trans used.current, ?_⟩, ?_, ?_⟩
    · rw [here, rewrites.state]
      exact nofun
    · unfold TableStorage.reserved
      rw [slots]
      exact claimed
    · rw [slots]
      exact SparesSlot.refl _
  · refine SameClaims.guards ?_ used claimed
    rw [rewrites.others _ here]
    exact SameClaims.refl _

theorem perform_keeps (agrees : Agrees claimants) (permits : claimants.Permits call)
    (listed : reservation ∈ claimants.outstanding)
    (unsettled : claimants.world.settled call ≠ some reservation) :
    reservation ∈ (claimants.perform call).outstanding ∧
      (InUse claimants.tables reservation ->
        (InUse (claimants.perform call).tables reservation ∧
          (recordAt (claimants.perform call).tables reservation.table.index).storage.reserved
            reservation.fd = true ∧
          SparesSlot
            ((recordAt claimants.tables reservation.table.index).storage.slotAt reservation.fd)
            ((recordAt (claimants.perform call).tables reservation.table.index).storage.slotAt
              reservation.fd)) ∨
        ∃ table, call.tears = some table ∧ table.index = reservation.table.index ∧
          table.generation = reservation.table.generation) := by
  have exclusive := agrees.exclusive
  have claimed := exclusive.held reservation listed
  show reservation ∈ claimants.remaining call ∧ _
  cases perform_effect agrees.inOrder call with
  | spared taken settled spares =>
    rw [remaining_quiet taken settled]
    exact ⟨listed, fun used => .inl ((spares _).guards used (claimed used))⟩
  | torn taken settled table tears torn =>
    rw [remaining_quiet taken settled]
    refine ⟨listed, fun used => ?_⟩
    by_cases here : reservation.table.index = table.index
    · refine .inr ⟨table, tears, here.symm, ?_⟩
      have current := used.current
      rw [<- current, here]
      exact torn.current.symm
    · exact .inl ((torn.others _ here).guards used (claimed used))
  | made taken settled custody later index same ends free unclaimed renews =>
    rw [remaining_quiet taken settled]
    refine ⟨listed, fun used => .inl ?_⟩
    have apart : reservation.table.index ≠ index := by
      intro here
      exact used.busy (by rw [here]; exact free)
    have record := renews.others _ apart
    rw [same, ends] at record
    refine SameClaims.guards ?_ used (claimed used)
    show SameClaims _ (recordAt (claimants.world.perform call).core.tables _)
    rw [record]
    exact SameClaims.refl _
  | took other taken settled marks takes =>
    rw [remaining_took taken settled]
    refine ⟨List.mem_cons_of_mem _ listed, fun used => .inl ?_⟩
    refine takes.2.guards used (claimed used) ?_
    intro same
    exact exclusive.fresh takes (List.mem_map.mpr ⟨reservation, listed, same⟩)
  | gave other taken settled presented gives =>
    rw [remaining_gave taken settled]
    have different : reservation ≠ other := by
      intro same
      rw [same] at unsettled
      exact unsettled settled
    have nodup : claimants.outstanding.Nodup := List.Nodup.of_map _ exclusive.distinct
    refine ⟨nodup.mem_erase_iff.mpr ⟨different, listed⟩, fun used => .inl ?_⟩
    exact gives.2.guards used (claimed used)
      (exclusive.elsewhere (permits.2 other presented) listed different)

theorem perform_settles (agrees : Agrees claimants)
    (settled : claimants.world.settled call = some reservation) :
    call.presented = some reservation ∧ InUse claimants.tables reservation ∧
      (claimants.perform call).outstanding = claimants.outstanding.erase reservation ∧
      reservation ∉ (claimants.perform call).outstanding ∧
      (recordAt (claimants.perform call).tables reservation.table.index).storage.slotAt
        reservation.fd = ⟨call.leaves ((recordAt claimants.tables
          reservation.table.index).storage.get reservation.fd), false⟩ := by
  have gave : claimants.world.taken call = none ∧ call.presented = some reservation ∧
      GivesBack claimants.tables (claimants.perform call).tables reservation
        (call.leaves ((recordAt claimants.tables reservation.table.index).storage.get
          reservation.fd)) := by
    cases perform_effect agrees.inOrder call with
    | spared _ none _ => exact absurd (none.symm.trans settled) (by simp)
    | torn _ none _ _ _ => exact absurd (none.symm.trans settled) (by simp)
    | made _ none _ _ _ _ _ _ _ _ => exact absurd (none.symm.trans settled) (by simp)
    | took _ _ none _ _ => exact absurd (none.symm.trans settled) (by simp)
    | gave other taken settledOther presented gives =>
      rw [settled, Option.some.injEq] at settledOther
      subst settledOther
      exact ⟨taken, presented, gives⟩
  rcases gave with ⟨taken, presented, gives⟩
  have nodup : claimants.outstanding.Nodup := List.Nodup.of_map _ agrees.exclusive.distinct
  have left : (claimants.perform call).outstanding = claimants.outstanding.erase reservation :=
    remaining_gave taken settled
  refine ⟨presented, ⟨gives.2.current, ?_⟩, left, ?_, ?_⟩
  · rw [gives.2.live]
    exact nofun
  · rw [left]
    exact fun wrong => (nodup.mem_erase_iff.mp wrong).1 rfl
  · have slot := gives.2.slots reservation.fd
    rw [if_pos rfl] at slot
    exact slot

theorem unsettled_core {α : Type} {core : Core} {command : Core.Action α}
    (unsettled : (command core).1.toOption.map (fun _ => reservation) = none)
    (refuses : ∀ reason after, command core = (.error reason, after) -> after = core) :
    (command core).2 = core := by
  cases ran : command core with
  | mk outcome after =>
    cases outcome with
    | error reason => exact refuses reason after ran
    | ok answer =>
      rw [ran] at unsettled
      cases unsettled

theorem perform_refuses (agrees : Agrees claimants) (presented : call.presented = some reservation)
    (unsettled : claimants.world.settled call = none) :
    (claimants.perform call).world.core = claimants.world.core ∧
      (claimants.perform call).outstanding = claimants.outstanding := by
  have sound := agrees.inOrder.sound
  cases call with
  | cancelReservation venue receipt =>
    refine ⟨?_, remaining_quiet rfl unsettled⟩
    have core : (claimants.world.perform (.cancelReservation venue receipt)).core =
        (Core.cancelReservation venue receipt claimants.world.core).2 :=
      settle_core claimants.world _ (fun _ _ => rfl)
    refine core.trans (unsettled_core unsettled ?_)
    intro reason after ran
    exact (cancelReservation_gives claimants.world.core venue receipt).of_eq ran
  | commitReservation venue receipt pin cloexec =>
    refine ⟨?_, remaining_quiet rfl unsettled⟩
    have core : (claimants.world.perform (.commitReservation venue receipt pin cloexec)).core =
        (Core.commitReservation venue receipt pin cloexec claimants.world.core).2 :=
      settle_core claimants.world _ (fun _ _ => rfl)
    refine core.trans (unsettled_core unsettled ?_)
    intro reason after ran
    exact Command.Ends.of_eq
      (commitReservationWith_settles dropRef_drops rfl sound venue receipt pin cloexec) ran
  | commitReservationFiltered venue receipt pin cloexec releaseHere =>
    refine ⟨?_, remaining_quiet rfl unsettled⟩
    have core : (claimants.world.perform
        (.commitReservationFiltered venue receipt pin cloexec releaseHere)).core =
        (Core.commitReservationFiltered venue receipt pin cloexec releaseHere
          claimants.world.core).2 :=
      settle_core claimants.world _ (fun _ _ => rfl)
    refine core.trans (unsettled_core unsettled ?_)
    intro reason after ran
    exact Command.Ends.of_eq (commitReservationWith_settles (dropRefFiltered_drops releaseHere)
      rfl sound venue receipt pin cloexec) ran
  | _ => cases presented

theorem perform_takes (agrees : Agrees claimants)
    (taken : claimants.world.taken call = some reservation) :
    place reservation ∉ claimants.outstanding.map place ∧
      (claimants.perform call).outstanding = reservation :: claimants.outstanding ∧
      ∀ venue table fd, (Core.pin venue table fd (claimants.perform call).world.core).1 =
        (Core.pin venue table fd claimants.world.core).1 := by
  cases perform_effect agrees.inOrder call with
  | spared none _ _ => exact absurd (none.symm.trans taken) (by simp)
  | torn none _ _ _ _ => exact absurd (none.symm.trans taken) (by simp)
  | made none _ _ _ _ _ _ _ _ _ => exact absurd (none.symm.trans taken) (by simp)
  | gave _ none _ _ _ => exact absurd (none.symm.trans taken) (by simp)
  | took other takenOther settled marks takes =>
    rw [taken, Option.some.injEq] at takenOther
    subst takenOther
    refine ⟨agrees.exclusive.fresh takes, remaining_took taken settled, ?_⟩
    intro venue table fd
    show (Core.pin venue table fd (claimants.world.perform call).core).1 = _
    rw [marks]
    exact reserveSlot_lookup _ _ venue table fd

theorem perform_child (agrees : Agrees claimants) {venue : Venue} {extent : Extent}
    {parent id : TableId} {publisher : TableId -> Except Error Unit}
    (answered : (Custody.forkPublished venue parent publisher
      ⟨claimants.world.core, extent⟩).1 = .ok id) :
    Unclaimed (recordAt (claimants.perform (.forkPublished venue extent parent publisher)).tables
      id.index) ∧
      ∀ reservation, reservation ∈
        (claimants.perform (.forkPublished venue extent parent publisher)).outstanding ->
        reservation.table ≠ id := by
  have core : (claimants.world.perform (.forkPublished venue extent parent publisher)).core =
      (Custody.forkPublished venue parent publisher ⟨claimants.world.core, extent⟩).2.core :=
    settle_core claimants.world _ (fun _ _ => rfl)
  have makes : Command.Ends (Makes ⟨claimants.world.core, extent⟩)
      (Custody.forkPublished venue parent publisher) ⟨claimants.world.core, extent⟩ :=
    forkPublished_makes agrees.inOrder.sound venue parent publisher
  rcases makes with ⟨_, refused⟩ | ⟨index, _, unclaimed, renews, answers⟩
  · exact absurd answered (refused id)
  rcases answers id answered with ⟨here, newer⟩
  refine ⟨?_, ?_⟩
  · show Unclaimed (recordAt (claimants.world.perform _).core.tables id.index)
    rw [core, here]
    exact renews.unclaimed unclaimed
  intro receipt listed same
  have listed : receipt ∈ claimants.remaining (.forkPublished venue extent parent publisher) :=
    listed
  rw [remaining_quiet rfl rfl] at listed
  have older := agrees.exclusive.older receipt listed
  rw [same, here, newer] at older
  exact Nat.not_succ_le_self _ older

end Runs

/-- In every reachable state no two receipts name the same slot of the same
incarnation of a table, and every call that may come next honours them all. -/
theorem reservations_exclusive {history : List Call} {claimants : Claimants}
    (run : Run Claimants.Starts Claimants.Steps history claimants) :
    (claimants.outstanding.map place).Nodup ∧
      ∀ call, claimants.Permits call -> Honours claimants call := by
  have agrees := run_agrees run
  refine ⟨agrees.exclusive.distinct, ?_⟩
  intro call permits
  refine ⟨?_, ?_, ?_, ?_, ?_⟩
  · intro reservation listed unsettled
    exact perform_keeps agrees permits listed unsettled
  · intro reservation settled
    exact perform_settles agrees settled
  · intro reservation presented unsettled
    exact perform_refuses agrees presented unsettled
  · intro reservation taken
    exact perform_takes agrees taken
  · rintro venue extent parent publisher id rfl answered
    exact perform_child agrees answered

/-- A table of one slot, whose number is claimed. -/
def claimed : Claimants :=
  ((⟨{ core := Core.initialized 1 2, pinned := [], ledger := { allocated := [], delivered := [] } },
    []⟩ : Claimants).perform (.createTable generous { token := 1, capacity := 1 } 1)).perform
      (.reserveMin generous { authority := 1, index := 0, generation := 1 } 0)

theorem claimed_reached : Run Claimants.Starts Claimants.Steps
    [.reserveMin generous { authority := 1, index := 0, generation := 1 } 0,
      .createTable generous { token := 1, capacity := 1 } 1] claimed := by
  refine Run.next (Run.next (Run.initial ⟨⟨1, 2, Nat.one_ne_zero, rfl⟩, rfl⟩)
    ⟨⟨trivial, ?_⟩, rfl⟩) ⟨⟨trivial, ?_⟩, rfl⟩
  · intro reservation wrong
    cases wrong
  · intro reservation wrong
    cases wrong

/-- A claimed number is refused to a replacement, and the claim is cancelled by
its own receipt. -/
theorem reservations_exclusive_cancel :
    claimed.outstanding = [⟨{ authority := 1, index := 0, generation := 1 }, 0⟩] ∧
      Honours claimed (.cancelReservation generous
        ⟨{ authority := 1, index := 0, generation := 1 }, 0⟩) := by
  have outstanding :
      claimed.outstanding = [⟨{ authority := 1, index := 0, generation := 1 }, 0⟩] := by
    decide +kernel
  refine ⟨outstanding, (reservations_exclusive claimed_reached).2 _ ⟨trivial, ?_⟩⟩
  intro reservation presented
  rw [outstanding]
  cases presented
  exact List.mem_singleton_self _

end FdCore
end Carrick

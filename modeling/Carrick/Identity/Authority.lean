import Carrick.Identity.Allocation
import Carrick.Foundation.Word

namespace Carrick
namespace Identity

open Foundation

/-!
# The authority of a namespace and its runs

The allocation of a namespace has one holder at a time.  A holder may transfer
it, after which it refuses every request; the allocation travels and becomes
the authority of its receiver.  A world lists everything that was ever a holder,
and beside it the claims that were granted and not released.
-/

/-- A holder of the authority.  Once transferred it keeps a count of refusals. -/
structure NamespaceState where
  owner : Option NamespaceAllocation
  refused : Nat

namespace NamespaceState

def new (first last next : Int) : Option NamespaceState :=
  (NamespaceAllocation.new first last next).map (fun owner => { owner := some owner, refused := 0 })

def refuse (state : NamespaceState) : NamespaceState :=
  { state with refused := saturatingAdd state.refused 1 }

/-- Gives up the allocation, once. -/
def transfer (state : NamespaceState) : Option NamespaceAllocation × NamespaceState :=
  match state.owner with
  | some owner => (some owner, { state with owner := none })
  | none => (none, state.refuse)

/-- The state of the receiver of a transfer. -/
def intoOwner (owner : NamespaceAllocation) : NamespaceState :=
  { owner := some owner, refused := 0 }

/-- An operation on the allocation, answered with a refusal that is counted when
the allocation has been transferred. -/
def withAllocation {A : Type} (state : NamespaceState) (refusal : A)
    (operate : NamespaceAllocation -> A × NamespaceAllocation) : A × NamespaceState :=
  match state.owner with
  | none => (refusal, state.refuse)
  | some owner => ((operate owner).1, { state with owner := some (operate owner).2 })

def reserveNext (state : NamespaceState) (kind : ClaimKind) :
    Except IdError InternalIdentity × NamespaceState :=
  state.withAllocation (.error .authorityTransferred) (fun owner => owner.reserveNext kind)

def reserveExact (state : NamespaceState) (raw : Int) (kind : ClaimKind) :
    Except IdError InternalIdentity × NamespaceState :=
  state.withAllocation (.error .authorityTransferred) (fun owner => owner.reserveExact raw kind)

def claimRelated (state : NamespaceState) (raw : Int) (kind : ClaimKind) :
    Except IdError InternalIdentity × NamespaceState :=
  state.withAllocation (.error .authorityTransferred) (fun owner => owner.claimRelated raw kind)

def reserveVisible (state : NamespaceState) (namespaceKey : VisibleNamespace) :
    Option Nat × NamespaceState :=
  state.withAllocation none (fun owner => owner.reserveVisible namespaceKey)

def advanceVisiblePast (state : NamespaceState) (namespaceKey : VisibleNamespace) (member : Nat) :
    Option Unit × NamespaceState :=
  state.withAllocation none (fun owner => owner.advanceVisiblePast namespaceKey member)

def setNext (state : NamespaceState) (raw : Int) : NamespaceState :=
  (state.withAllocation () (fun owner => ((), owner.setNext raw))).2

/-- A release at a holder that transferred the allocation does nothing, and is
not counted. -/
def release (state : NamespaceState) (raw : InternalIdentity) (kind : ClaimKind) :
    NamespaceState :=
  { state with owner := state.owner.map (fun owner => owner.release raw kind) }

def retireVisibleNamespace (state : NamespaceState) (namespaceKey : VisibleNamespace) :
    NamespaceState :=
  { state with owner := state.owner.map (fun owner => owner.retireVisibleNamespace namespaceKey) }

end NamespaceState

/-! ## Worlds and events -/

/-- A holder, or an allocation on its way to one. -/
inductive Authority where
  | resident (state : NamespaceState)
  | inTransit (owner : NamespaceAllocation)

def Authority.allocation : Authority -> Option NamespaceAllocation
  | .resident state => state.owner
  | .inTransit owner => some owner

theorem Authority.allocation_resident (state : NamespaceState) :
    (Authority.resident state).allocation = state.owner :=
  rfl

structure World where
  authorities : List Authority
  /-- The claims that were granted and not released. -/
  outstanding : List (Int × ClaimKind)

inductive IdentityCall where
  | reserveNext (kind : ClaimKind)
  | reserveExact (raw : Int) (kind : ClaimKind)
  | claimRelated (raw : Int) (kind : ClaimKind)
  | setNext (raw : Int)
  | release (raw : InternalIdentity) (kind : ClaimKind)
  | reserveVisible (namespaceKey : VisibleNamespace)
  | advanceVisiblePast (namespaceKey : VisibleNamespace) (member : Nat)
  | retireVisibleNamespace (namespaceKey : VisibleNamespace)
  | transfer

/-- What a call leaves: the holder, the outstanding claims and the allocation
that it sent away. -/
structure Effect where
  state : NamespaceState
  outstanding : List (Int × ClaimKind)
  departed : Option NamespaceAllocation

namespace IdentityCall

/-- The effect of a call that may grant a claim. -/
def granting (outstanding : List (Int × ClaimKind)) (kind : ClaimKind)
    (outcome : Except IdError InternalIdentity × NamespaceState) : Effect :=
  { state := outcome.2, outstanding := claimsAfter outstanding kind outcome.1, departed := none }

def effect (state : NamespaceState) (outstanding : List (Int × ClaimKind)) :
    IdentityCall -> Effect
  | reserveNext kind => granting outstanding kind (state.reserveNext kind)
  | reserveExact raw kind => granting outstanding kind (state.reserveExact raw kind)
  | claimRelated raw kind => granting outstanding kind (state.claimRelated raw kind)
  | setNext raw => { state := state.setNext raw, outstanding, departed := none }
  | release raw kind =>
    { state := state.release raw kind
      outstanding :=
        if state.owner.isSome then outstanding.erase (raw.raw, kind) else outstanding
      departed := none }
  | reserveVisible namespaceKey =>
    { state := (state.reserveVisible namespaceKey).2, outstanding, departed := none }
  | advanceVisiblePast namespaceKey member =>
    { state := (state.advanceVisiblePast namespaceKey member).2, outstanding, departed := none }
  | retireVisibleNamespace namespaceKey =>
    { state := state.retireVisibleNamespace namespaceKey, outstanding, departed := none }
  | transfer => { state := state.transfer.2, outstanding, departed := state.transfer.1 }

/-- A release matches a claim that is outstanding, unless the holder no longer
has the allocation. -/
def legal (state : NamespaceState) (outstanding : List (Int × ClaimKind)) : IdentityCall -> Prop
  | release raw kind => state.owner.isSome = true -> (raw.raw, kind) ∈ outstanding
  | _ => True

/-- The call ends the namespace incarnation. -/
def retires (namespaceKey : VisibleNamespace) : IdentityCall -> Prop
  | retireVisibleNamespace retired => retired = namespaceKey
  | _ => False

end IdentityCall

inductive IdentityEvent where
  | call (slot : Nat) (made : IdentityCall)
  | intoOwner (slot : Nat)

namespace IdentityEvent

def run (world : World) : IdentityEvent -> World
  | call slot made =>
    match world.authorities[slot]? with
    | some (.resident state) =>
      let effect := made.effect state world.outstanding
      { authorities := world.authorities.set slot (.resident effect.state) ++
          effect.departed.toList.map Authority.inTransit
        outstanding := effect.outstanding }
    | _ => world
  | intoOwner slot =>
    match world.authorities[slot]? with
    | some (.inTransit owner) =>
      { world with
        authorities := world.authorities.set slot (.resident (NamespaceState.intoOwner owner)) }
    | _ => world

def legal (world : World) : IdentityEvent -> Prop
  | call slot made => ∀ state, world.authorities[slot]? = some (.resident state) ->
      made.legal state world.outstanding
  | intoOwner _ => True

def retires (namespaceKey : VisibleNamespace) : IdentityEvent -> Prop
  | call _ made => made.retires namespaceKey
  | intoOwner _ => False

end IdentityEvent

/-- The world before the event at position `n`. -/
def worldAt (start : NamespaceState) (events : List IdentityEvent) (n : Nat) : World :=
  stage IdentityEvent.run { authorities := [.resident start], outstanding := [] } events n

/-- Every release of the run matches an outstanding claim. -/
def Matched (start : NamespaceState) (events : List IdentityEvent) : Prop :=
  ∀ n (event : IdentityEvent), events[n]? = some event -> event.legal (worldAt start events n)

/-- `state` is the holder in a slot of the world before position `n`. -/
def ResidentAt (start : NamespaceState) (events : List IdentityEvent) (n slot : Nat)
    (state : NamespaceState) : Prop :=
  (worldAt start events n).authorities[slot]? = some (.resident state)

/-- The event at position `n` issues the visible number. -/
def IssuedAt (start : NamespaceState) (events : List IdentityEvent) (n : Nat)
    (namespaceKey : VisibleNamespace) (number : Nat) : Prop :=
  ∃ slot state, events[n]? = some (.call slot (.reserveVisible namespaceKey)) ∧
    ResidentAt start events n slot state ∧ (state.reserveVisible namespaceKey).1 = some number

/-- The discipline of numbers over one run from a new namespace. -/
structure IdentityDiscipline (start : NamespaceState) (events : List IdentityEvent) : Prop where
  /-- A holder of the allocation hands out the first free number from its cursor
  on, and none exactly when every number of the range is claimed. -/
  next : ∀ (n slot : Nat) (state : NamespaceState) (owner : NamespaceAllocation)
    (kind : ClaimKind), ResidentAt start events n slot state -> state.owner = some owner ->
    (∀ raw, (∃ identity, (state.reserveNext kind).1 = .ok identity ∧ identity.raw = raw) <->
        FirstUnclaimed owner (worldAt start events n).outstanding raw) ∧
      ((state.reserveNext kind).1 = .error .exhausted <->
        ∀ raw, owner.first <= raw -> raw <= owner.last ->
          ¬ Unclaimed (worldAt start events n).outstanding raw)
  /-- The range is the one the namespace was made with. -/
  range : ∀ (n slot : Nat) (state : NamespaceState) (owner : NamespaceAllocation),
    ResidentAt start events n slot state -> state.owner = some owner ->
    ∃ original, start.owner = some original ∧
      owner.first = original.first ∧ owner.last = original.last
  /-- A number is not handed out while a claim of any kind on it is outstanding,
  by any holder. -/
  fresh : ∀ (n slot : Nat) (state : NamespaceState) (raw : Int) (kind : ClaimKind)
    (identity : InternalIdentity), ResidentAt start events n slot state ->
    (state.reserveNext kind).1 = .ok identity ∨ (state.reserveExact raw kind).1 = .ok identity ->
    Unclaimed (worldAt start events n).outstanding identity.raw
  /-- The visible numbers of an incarnation grow from issue to issue. -/
  visible : ∀ (m n : Nat) (namespaceKey : VisibleNamespace) (earlier later : Nat), m < n ->
    IssuedAt start events m namespaceKey earlier -> IssuedAt start events n namespaceKey later ->
    (∀ k (event : IdentityEvent), m < k -> k < n -> events[k]? = some event ->
      ¬ event.retires namespaceKey) ->
    earlier < later

/-! ## What one event does -/

/-- The allocation after an event, against the one before. -/
structure Continues (namespaces : VisibleNamespace -> Prop) (before after : NamespaceAllocation) :
    Prop where
  first : after.first = before.first
  last : after.last = before.last
  visible : ∀ namespaceKey, namespaces namespaceKey ->
    before.visibleCursor namespaceKey <= after.visibleCursor namespaceKey

theorem Continues.refl (namespaces : VisibleNamespace -> Prop) (owner : NamespaceAllocation) :
    Continues namespaces owner owner :=
  ⟨rfl, rfl, fun _ _ => le_rfl⟩

variable {outstanding : List (Int × ClaimKind)}

variable {owner : NamespaceAllocation}

theorem Recorded.continues {kind : ClaimKind}
    {outcome : Except IdError InternalIdentity × NamespaceAllocation}
    (recorded : Recorded owner outstanding kind outcome) (namespaces : VisibleNamespace -> Prop) :
    Continues namespaces owner outcome.2 := by
  refine ⟨recorded.first, recorded.last, ?_⟩
  intro namespaceKey _
  unfold NamespaceAllocation.visibleCursor
  rw [recorded.visible]

theorem visibleCursor_setVisible (owner : NamespaceAllocation)
    (namespaceKey other : VisibleNamespace) (cursor : Nat) :
    (owner.setVisible namespaceKey (some cursor)).visibleCursor other =
      if other = namespaceKey then cursor else owner.visibleCursor other := by
  unfold NamespaceAllocation.visibleCursor NamespaceAllocation.setVisible
  dsimp only
  split
  · rfl
  · rfl

theorem setVisible_continues {namespaceKey : VisibleNamespace}
    {cursor : Nat} (raised : owner.visibleCursor namespaceKey <= cursor)
    (namespaces : VisibleNamespace -> Prop) :
    Continues namespaces owner (owner.setVisible namespaceKey (some cursor)) := by
  refine ⟨rfl, rfl, ?_⟩
  intro other _
  rw [visibleCursor_setVisible]
  split
  · rename_i same
    rw [same]
    exact raised
  · exact le_rfl

/-- A holder that has the allocation keeps it, or sends it away unchanged. -/
inductive Handled (call : IdentityCall) (owner : NamespaceAllocation) (effect : Effect) : Prop
  | kept (after : NamespaceAllocation) (held : effect.state.owner = some after)
      (stays : effect.departed = none) (books : Books after effect.outstanding)
      (continues : Continues (fun namespaceKey => ¬ call.retires namespaceKey) owner after)
  | sent (gone : effect.state.owner = none) (departs : effect.departed = some owner)
      (books : Books owner effect.outstanding)

variable {state : NamespaceState}

theorem granting_handled {call : IdentityCall}
    (held : state.owner = some owner) {kind : ClaimKind} {refusal : IdError}
    {operate : NamespaceAllocation -> Except IdError InternalIdentity × NamespaceAllocation}
    (recorded : Recorded owner outstanding kind (operate owner)) :
    Handled call owner (IdentityCall.granting outstanding kind
      (state.withAllocation (.error refusal) operate)) := by
  unfold NamespaceState.withAllocation
  rw [held]
  exact .kept (operate owner).2 rfl rfl recorded.books (recorded.continues _)

theorem reserveVisible_spec (owner : NamespaceAllocation) (namespaceKey : VisibleNamespace) :
    ∃ cursor, (owner.reserveVisible namespaceKey).2 = owner.setVisible namespaceKey (some cursor) ∧
      owner.visibleCursor namespaceKey <= cursor ∧
      ∀ number, (owner.reserveVisible namespaceKey).1 = some number ->
        owner.visibleCursor namespaceKey = number ∧ number < cursor := by
  unfold NamespaceAllocation.reserveVisible
  dsimp only
  split
  · refine ⟨_, rfl, le_rfl, ?_⟩
    intro number issued
    cases issued
  split
  · refine ⟨_, rfl, le_rfl, ?_⟩
    intro number issued
    cases issued
  · refine ⟨_, rfl, Nat.le_succ _, ?_⟩
    intro number issued
    cases issued
    exact ⟨rfl, Nat.lt_succ_self _⟩

theorem advanceVisiblePast_spec (owner : NamespaceAllocation) (namespaceKey : VisibleNamespace)
    (member : Nat) :
    (owner.advanceVisiblePast namespaceKey member).2 = owner ∨
      ∃ cursor, (owner.advanceVisiblePast namespaceKey member).2 =
          owner.setVisible namespaceKey (some cursor) ∧
        owner.visibleCursor namespaceKey <= cursor := by
  unfold NamespaceAllocation.advanceVisiblePast
  split
  · split
    · exact .inl rfl
    · exact .inr ⟨_, rfl, Nat.le_max_left _ _⟩
  · exact .inl rfl

theorem release_continues (owner : NamespaceAllocation) (raw : InternalIdentity)
    (kind : ClaimKind) (namespaces : VisibleNamespace -> Prop) :
    Continues namespaces owner (owner.release raw kind) := by
  unfold NamespaceAllocation.release
  split
  · exact .refl _ _
  split
  · exact .refl _ _
  · split
    · exact ⟨rfl, rfl, fun _ _ => le_rfl⟩
    · exact ⟨rfl, rfl, fun _ _ => le_rfl⟩

theorem setNext_continues (owner : NamespaceAllocation) (raw : Int)
    (namespaces : VisibleNamespace -> Prop) :
    Continues namespaces owner (owner.setNext raw) := by
  unfold NamespaceAllocation.setNext
  split
  · exact ⟨rfl, rfl, fun _ _ => le_rfl⟩
  · exact .refl _ _

theorem effect_handled (held : state.owner = some owner)
    (books : Books owner outstanding) (call : IdentityCall) (legal : call.legal state outstanding) :
    Handled call owner (call.effect state outstanding) := by
  have present : state.owner.isSome = true := by
    rw [held]
    rfl
  cases call with
  | reserveNext kind => exact granting_handled held (books.reserveNext_cases kind).1
  | reserveExact raw kind => exact granting_handled held (books.reserveExact_recorded raw).1
  | claimRelated raw kind => exact granting_handled held (books.claimRelated_recorded raw)
  | setNext raw =>
    refine .kept (owner.setNext raw) ?_ rfl (books.setNext raw) (setNext_continues _ _ _)
    dsimp only [IdentityCall.effect, NamespaceState.setNext, NamespaceState.withAllocation]
    rw [held]
  | release raw kind =>
    refine .kept (owner.release raw kind) ?_ rfl ?_ (release_continues _ _ _ _)
    · dsimp only [IdentityCall.effect, NamespaceState.release]
      rw [held]
      rfl
    · dsimp only [IdentityCall.effect]
      rw [if_pos present]
      exact books.released (legal present)
  | reserveVisible namespaceKey =>
    rcases reserveVisible_spec owner namespaceKey with ⟨cursor, same, raised, _⟩
    refine .kept (owner.setVisible namespaceKey (some cursor)) ?_ rfl
      (books.setVisible namespaceKey _) (setVisible_continues raised _)
    dsimp only [IdentityCall.effect, NamespaceState.reserveVisible,
      NamespaceState.withAllocation]
    rw [held]
    exact congrArg some same
  | advanceVisiblePast namespaceKey member =>
    have stillHeld : (IdentityCall.effect state outstanding
        (.advanceVisiblePast namespaceKey member)).state.owner =
          some (owner.advanceVisiblePast namespaceKey member).2 := by
      dsimp only [IdentityCall.effect, NamespaceState.advanceVisiblePast,
        NamespaceState.withAllocation]
      rw [held]
    rcases advanceVisiblePast_spec owner namespaceKey member with same | ⟨cursor, same, raised⟩
    · rw [same] at stillHeld
      exact .kept owner stillHeld rfl books (.refl _ _)
    · rw [same] at stillHeld
      exact .kept _ stillHeld rfl (books.setVisible namespaceKey _) (setVisible_continues raised _)
  | retireVisibleNamespace namespaceKey =>
    refine .kept (owner.retireVisibleNamespace namespaceKey) ?_ rfl
      (books.setVisible namespaceKey _) ⟨rfl, rfl, ?_⟩
    · dsimp only [IdentityCall.effect, NamespaceState.retireVisibleNamespace]
      rw [held]
      rfl
    intro other retained
    have apart : other ≠ namespaceKey := fun same => retained same.symm
    unfold NamespaceAllocation.visibleCursor NamespaceAllocation.retireVisibleNamespace
      NamespaceAllocation.setVisible
    dsimp only
    rw [if_neg apart]
  | transfer =>
    refine .sent ?_ ?_ books
    · dsimp only [IdentityCall.effect, NamespaceState.transfer]
      rw [held]
    · dsimp only [IdentityCall.effect, NamespaceState.transfer]
      rw [held]

/-- A holder without the allocation changes nothing but its count of refusals. -/
theorem effect_refused (gone : state.owner = none) (outstanding : List (Int × ClaimKind))
    (call : IdentityCall) :
    (call.effect state outstanding).state.owner = none ∧
      (call.effect state outstanding).departed = none ∧
      (call.effect state outstanding).outstanding = outstanding := by
  cases call <;>
    simp [IdentityCall.effect, IdentityCall.granting, NamespaceState.reserveNext,
      NamespaceState.reserveExact, NamespaceState.claimRelated, NamespaceState.setNext,
      NamespaceState.release, NamespaceState.reserveVisible, NamespaceState.advanceVisiblePast,
      NamespaceState.retireVisibleNamespace, NamespaceState.transfer,
      NamespaceState.withAllocation, NamespaceState.refuse, claimsAfter, gone]

/-! ## One holder in every world -/

/-- The allocation is in one slot and in no other, so no two holders can hand
out its numbers. -/
structure Seated (world : World) (slot : Nat) (owner : NamespaceAllocation) : Prop where
  present : ∃ authority, world.authorities[slot]? = some authority ∧
    authority.allocation = some owner
  alone : ∀ (other : Nat) (authority : Authority), other ≠ slot ->
    world.authorities[other]? = some authority -> authority.allocation = none

namespace Seated

variable {world : World} {slot : Nat}

variable {authority : Authority}

theorem holder (seated : Seated world slot owner) {other : Nat} {held : NamespaceAllocation}
    (found : world.authorities[other]? = some authority)
    (holds : authority.allocation = some held) : other = slot ∧ held = owner := by
  by_cases same : other = slot
  · subst same
    rcases seated.present with ⟨occupant, there, has⟩
    rw [found] at there
    cases there
    rw [holds] at has
    exact ⟨rfl, Option.some.inj has⟩
  · rw [seated.alone other authority same found] at holds
    cases holds

theorem inside (seated : Seated world slot owner) : slot < world.authorities.length := by
  rcases seated.present with ⟨authority, found, _⟩
  exact (List.getElem?_eq_some_iff.mp found).1

theorem replaced (seated : Seated world slot owner) {after : NamespaceAllocation}
    (holds : authority.allocation = some after) (outstanding : List (Int × ClaimKind)) :
    Seated { authorities := world.authorities.set slot authority, outstanding } slot after := by
  constructor
  · exact ⟨authority, List.getElem?_set_self seated.inside, holds⟩
  · intro other occupant apart found
    rw [List.getElem?_set_ne (Ne.symm apart)] at found
    exact seated.alone other occupant apart found

/-- A slot without the allocation is refilled by another one without it. -/
theorem bystander (seated : Seated world slot owner) {other : Nat} (apart : other ≠ slot)
    (without : authority.allocation = none) (outstanding : List (Int × ClaimKind)) :
    Seated { authorities := world.authorities.set other authority, outstanding } slot owner := by
  rcases seated.present with ⟨occupant, there, has⟩
  constructor
  · refine ⟨occupant, ?_, has⟩
    rw [<- there]
    exact List.getElem?_set_ne apart
  intro third resident different found
  by_cases same : third = other
  · subst same
    have bounded := (List.getElem?_eq_some_iff.mp found).1
    rw [List.length_set] at bounded
    rw [List.getElem?_set_self bounded] at found
    cases found
    exact without
  · rw [List.getElem?_set_ne (Ne.symm same)] at found
    exact seated.alone third resident different found

theorem departed (seated : Seated world slot owner) (without : authority.allocation = none)
    (outstanding : List (Int × ClaimKind)) :
    Seated { authorities := world.authorities.set slot authority ++ [.inTransit owner],
             outstanding } world.authorities.length owner := by
  constructor
  · refine ⟨.inTransit owner, ?_, rfl⟩
    rw [List.getElem?_append_right (by rw [List.length_set]), List.length_set, Nat.sub_self]
    rfl
  intro other resident apart found
  have bounded := (List.getElem?_eq_some_iff.mp found).1
  rw [List.length_append, List.length_set, List.length_singleton] at bounded
  have before : other < (world.authorities.set slot authority).length := by
    rw [List.length_set]
    omega
  rw [List.getElem?_append_left before] at found
  by_cases same : other = slot
  · subst same
    rw [List.getElem?_set_self seated.inside] at found
    cases found
    exact without
  · rw [List.getElem?_set_ne (Ne.symm same)] at found
    exact seated.alone other resident same found

end Seated

theorem run_seated {world : World} {slot : Nat}
    (seated : Seated world slot owner) (books : Books owner world.outstanding)
    {event : IdentityEvent} (legal : event.legal world) :
    ∃ seat after, Seated (event.run world) seat after ∧
      Books after (event.run world).outstanding ∧
      Continues (fun namespaceKey => ¬ event.retires namespaceKey) owner after := by
  have unmoved : ∃ seat after, Seated world seat after ∧ Books after world.outstanding ∧
      Continues (fun namespaceKey => ¬ event.retires namespaceKey) owner after :=
    ⟨slot, owner, seated, books, .refl _ _⟩
  cases event with
  | call called made =>
    rw [IdentityEvent.run]
    cases found : world.authorities[called]? with
    | none => exact unmoved
    | some authority =>
      cases authority with
      | inTransit travelling => exact unmoved
      | resident state =>
        dsimp only
        cases held : state.owner with
        | none =>
          rcases effect_refused held world.outstanding made with
            ⟨gone, stays, same⟩
          have apart : called ≠ slot := by
            rintro rfl
            rcases seated.present with ⟨occupant, there, has⟩
            rw [found] at there
            cases there
            rw [Authority.allocation_resident, held] at has
            cases has
          rw [stays, same, Option.toList_none, List.map_nil, List.append_nil]
          exact ⟨slot, owner, seated.bystander apart
            ((Authority.allocation_resident _).trans gone) _, books, .refl _ _⟩
        | some stillHeld =>
          rcases seated.holder found held with ⟨rfl, rfl⟩
          cases effect_handled held books made (legal state found) with
          | kept after holds stays entries continues =>
            rw [stays, Option.toList_none, List.map_nil, List.append_nil]
            exact ⟨called, after, seated.replaced
              ((Authority.allocation_resident _).trans holds) _, entries, continues⟩
          | sent gone departs entries =>
            rw [departs, Option.toList_some, List.map_singleton]
            exact ⟨_, _, seated.departed
              ((Authority.allocation_resident _).trans gone) _, entries, .refl _ _⟩
  | intoOwner called =>
    rw [IdentityEvent.run]
    cases found : world.authorities[called]? with
    | none => exact unmoved
    | some authority =>
      cases authority with
      | resident state => exact unmoved
      | inTransit travelling =>
        rcases seated.holder found rfl with ⟨rfl, rfl⟩
        exact ⟨called, travelling, seated.replaced rfl _, books, .refl _ _⟩

/-! ## Whole runs -/

/-- The world has one allocation, with the range of `original` and with books
that agree with the outstanding claims. -/
def Governed (original : NamespaceAllocation) (world : World) : Prop :=
  ∃ slot owner, Seated world slot owner ∧ Books owner world.outstanding ∧
    owner.first = original.first ∧ owner.last = original.last

theorem new_books {first last next : Int} {original : NamespaceAllocation}
    (built : NamespaceAllocation.new first last next = some original) : Books original [] := by
  unfold NamespaceAllocation.new at built
  split at built
  · rename_i asserted
    cases built
    refine ⟨⟨asserted.1, asserted.2.2.1, asserted.2.2.2⟩, ?_, ?_, ?_⟩
    · intro raw counts present
      cases present
    · intro raw counts present
      cases present
    · intro raw _ kind
      exact List.not_mem_nil
  · cases built

section Run

variable {first last next : Int} {start : NamespaceState} {events : List IdentityEvent}

theorem worldAt_governed (built : NamespaceState.new first last next = some start)
    (matched : Matched start events) (n : Nat) :
    ∃ original, start.owner = some original ∧ Governed original (worldAt start events n) := by
  rcases Option.map_eq_some_iff.mp built with ⟨original, made, rfl⟩
  refine ⟨original, rfl, ?_⟩
  refine stage_keeps_between (Governed original) (Nat.zero_le n) ?_ ?_
  · rintro k event _ _ present ⟨slot, owner, seated, books, sameFirst, sameLast⟩
    rcases run_seated seated books (matched k event present) with
      ⟨seat, after, seatedAfter, booksAfter, continues⟩
    exact ⟨seat, after, seatedAfter, booksAfter, continues.first.trans sameFirst,
      continues.last.trans sameLast⟩
  · refine ⟨0, original, ⟨⟨_, rfl, rfl⟩, ?_⟩, new_books made, rfl, rfl⟩
    intro other authority apart found
    rcases Nat.exists_eq_succ_of_ne_zero apart with ⟨rest, rfl⟩
    cases found

theorem resident_books (built : NamespaceState.new first last next = some start)
    (matched : Matched start events) {n slot : Nat}
    (resident : ResidentAt start events n slot state) (held : state.owner = some owner) :
    Books owner (worldAt start events n).outstanding ∧
      ∃ original, start.owner = some original ∧
        owner.first = original.first ∧ owner.last = original.last := by
  rcases worldAt_governed built matched n with
    ⟨original, same, otherSlot, otherOwner, seated, books, sameFirst, sameLast⟩
  rcases seated.holder resident held with ⟨rfl, rfl⟩
  exact ⟨books, original, same, sameFirst, sameLast⟩

theorem reserveNext_owner (held : state.owner = some owner)
    (kind : ClaimKind) :
    (state.reserveNext kind).1 = (owner.reserveNext kind).1 := by
  unfold NamespaceState.reserveNext NamespaceState.withAllocation
  rw [held]

theorem reserveExact_owner (held : state.owner = some owner)
    (raw : Int) (kind : ClaimKind) :
    (state.reserveExact raw kind).1 = (owner.reserveExact raw kind).1 := by
  unfold NamespaceState.reserveExact NamespaceState.withAllocation
  rw [held]

theorem not_granted (gone : state.owner = none) {raw : Int} {kind : ClaimKind}
    {identity : InternalIdentity} :
    ¬ ((state.reserveNext kind).1 = .ok identity ∨
      (state.reserveExact raw kind).1 = .ok identity) := by
  unfold NamespaceState.reserveNext NamespaceState.reserveExact NamespaceState.withAllocation
  rw [gone]
  rintro (granted | granted)
  · cases granted
  · cases granted

variable {namespaceKey : VisibleNamespace}

theorem reserveVisible_owner {number : Nat}
    (issued : (state.reserveVisible namespaceKey).1 = some number) :
    ∃ owner, state.owner = some owner ∧ (owner.reserveVisible namespaceKey).1 = some number := by
  unfold NamespaceState.reserveVisible NamespaceState.withAllocation at issued
  cases held : state.owner with
  | none =>
    rw [held] at issued
    cases issued
  | some owner =>
    rw [held] at issued
    exact ⟨owner, rfl, issued⟩

/-- An issue leaves the cursor of its incarnation above the number it issued. -/
theorem issue_raises {world : World} {slot called : Nat}
    {number : Nat} (seated : Seated world slot owner)
    (found : world.authorities[called]? = some (.resident state))
    (issued : (state.reserveVisible namespaceKey).1 = some number) :
    owner.visibleCursor namespaceKey = number ∧
      ∃ after, Seated (IdentityEvent.run world (.call called (.reserveVisible namespaceKey)))
          slot after ∧ number < after.visibleCursor namespaceKey := by
  rcases reserveVisible_owner issued with ⟨held, has, answer⟩
  rcases seated.holder found has with ⟨rfl, rfl⟩
  rcases reserveVisible_spec held namespaceKey with ⟨cursor, same, _, numbered⟩
  refine ⟨(numbered number answer).1, held.setVisible namespaceKey (some cursor), ?_, ?_⟩
  · rw [IdentityEvent.run, found]
    dsimp only [IdentityCall.effect]
    rw [Option.toList_none, List.map_nil, List.append_nil]
    refine seated.replaced ?_ _
    rw [Authority.allocation_resident, NamespaceState.reserveVisible,
      NamespaceState.withAllocation, has]
    exact congrArg some same
  · rw [visibleCursor_setVisible, if_pos rfl]
    exact (numbered number answer).2

theorem visible_increases (built : NamespaceState.new first last next = some start)
    (matched : Matched start events) {m n : Nat} {earlier later : Nat} (before : m < n)
    (one : IssuedAt start events m namespaceKey earlier)
    (two : IssuedAt start events n namespaceKey later)
    (retained : ∀ k (event : IdentityEvent), m < k -> k < n -> events[k]? = some event -> ¬
      event.retires namespaceKey) : earlier < later := by
  rcases one with ⟨slot, state, called, resident, issued⟩
  rcases two with ⟨otherSlot, otherState, _, residentLater, issuedLater⟩
  rcases worldAt_governed built matched m with ⟨_, _, seat, owner, seated, books, _⟩
  rcases issue_raises seated resident issued with ⟨_, after, seatedAfter, raised⟩
  rcases worldAt_governed built matched (m + 1) with ⟨_, _, laterSeat, otherOwner, seatedLater, laterBooks, _⟩
  have stepped : worldAt start events (m + 1) =
      IdentityEvent.run (worldAt start events m) (.call slot (.reserveVisible namespaceKey)) :=
    stage_next called
  rw [<- stepped] at seatedAfter
  rcases seatedAfter.present with ⟨authority, found, has⟩
  rcases seatedLater.holder found has with ⟨rfl, rfl⟩
  have reached : ∃ seat owner, Seated (worldAt start events n) seat owner ∧
      Books owner (worldAt start events n).outstanding ∧
      earlier < owner.visibleCursor namespaceKey := by
    refine stage_keeps_between (fun world => ∃ seat owner, Seated world seat owner ∧
      Books owner world.outstanding ∧ earlier < owner.visibleCursor namespaceKey)
      before ?_ ⟨_, _, seatedAfter, laterBooks, raised⟩
    rintro k event above below present ⟨seat, owner, seated, books, ahead⟩
    rcases run_seated seated books (matched k event present) with
      ⟨seatAfter, ownerAfter, seatedAfter, booksAfter, continues⟩
    refine ⟨seatAfter, ownerAfter, seatedAfter, booksAfter, ?_⟩
    exact Nat.lt_of_lt_of_le ahead
      (continues.visible namespaceKey (retained k event above below present))
  rcases reached with ⟨seat, owner, seated, _, ahead⟩
  rw [<- (issue_raises seated residentLater issuedLater).1]
  exact ahead

end Run

/-- Every run from a new namespace whose releases match outstanding claims, with
any transfers of the authority in between, keeps the discipline of numbers. -/
theorem identity_discipline {first last next : Int} {start : NamespaceState}
    {events : List IdentityEvent} (built : NamespaceState.new first last next = some start)
    (matched : Matched start events) : IdentityDiscipline start events where
  next := by
    intro n slot state owner kind resident held
    have books := (resident_books built matched resident held).1
    rw [reserveNext_owner held]
    rcases (books.reserveNext_cases kind).2 with ⟨identity, answer, firstFree⟩ | ⟨answer, full⟩
    · rw [answer]
      constructor
      · intro raw
        constructor
        · rintro ⟨granted, same, rfl⟩
          cases same
          exact firstFree
        · intro isFirst
          exact ⟨identity, rfl, firstFree.unique isFirst⟩
      constructor
      · intro wrong
        cases wrong
      intro full
      rcases firstFree with ⟨k, inside, same, free, _⟩
      have bounds := NamespaceAllocation.cyclic_inside books.ranged inside
      rw [same] at bounds
      exact absurd free (full identity.raw bounds.1 bounds.2)
    · rw [answer]
      constructor
      · intro raw
        constructor
        · rintro ⟨granted, same, _⟩
          cases same
        · rintro ⟨k, inside, rfl, free, _⟩
          have bounds := NamespaceAllocation.cyclic_inside books.ranged inside
          exact absurd free (full _ bounds.1 bounds.2)
      · exact iff_of_true rfl full
  range := by
    intro n slot state owner resident held
    exact (resident_books built matched resident held).2
  fresh := by
    intro n slot state raw kind identity resident granted
    cases held : state.owner with
    | none => exact absurd granted (not_granted held)
    | some owner =>
      have books := (resident_books built matched resident held).1
      rw [reserveNext_owner held, reserveExact_owner held] at granted
      cases granted with
      | inl handed =>
        rcases (books.reserveNext_cases kind).2 with
          ⟨other, answer, _, _, _, free, _⟩ | ⟨answer, _⟩
        · rw [handed] at answer
          cases answer
          exact free
        · rw [handed] at answer
          cases answer
      | inr chosen =>
        rcases (books.reserveExact_recorded raw).2 identity chosen with ⟨same, free⟩
        rw [same]
        exact free
  visible := by
    intro m n namespaceKey earlier later before one two retained
    exact visible_increases built matched before one two retained

/-- Three numbers with the cursor at the second. -/
def threeNumbers : NamespaceState where
  owner := some
    { first := 1, last := 3, next := 2, claims := fun _ => none, visibleNext := fun _ => none }
  refused := 0

/-- A number is reserved, the authority is transferred with visible numbers
issued on both sides, the source fails to release and the receiver does. -/
def transferredRun (identity : InternalIdentity) : List IdentityEvent :=
  [.call 0 (.reserveNext .task), .call 0 (.reserveVisible (.new 1 1)), .call 0 .transfer,
    .intoOwner 1, .call 1 (.reserveVisible (.new 1 1)), .call 0 (.release identity .task),
    .call 1 (.release identity .task)]

theorem identity_discipline_transferred :
    ∃ identity : InternalIdentity, identity.raw = 2 ∧
      NamespaceState.new 1 3 2 = some threeNumbers ∧
      IssuedAt threeNumbers (transferredRun identity) 4 (.new 1 1) 3 ∧
      IdentityDiscipline threeNumbers (transferredRun identity) := by
  have built : NamespaceState.new 1 3 2 = some threeNumbers := rfl
  have nonzero : (2 : Int) ≠ 0 := by decide
  refine ⟨⟨2, nonzero⟩, rfl, built, ⟨1, _, rfl, rfl, rfl⟩, identity_discipline built ?_⟩
  intro n event present
  match n, present with
  | 0, rfl => exact fun _ _ => trivial
  | 1, rfl => exact fun _ _ => trivial
  | 2, rfl => exact fun _ _ => trivial
  | 3, rfl => trivial
  | 4, rfl => exact fun _ _ => trivial
  | 5, rfl =>
    intro state resident held
    cases resident
    cases held
  | 6, rfl =>
    intro state resident held
    exact List.mem_singleton.mpr rfl

end Identity
end Carrick

import Carrick.Foundation.Stages
import Mathlib.Algebra.Ring.Int.Defs
import Mathlib.Data.Int.Order.Basic

namespace Carrick
namespace Identity

open Foundation

/-!
# The numbers of a process namespace

A namespace hands out the numbers of a range.  Each number carries four claim
counters, one for each role in which a task keeps it alive, and is free when it
has no entry in the claim map.  A cursor walks round the range, and a second
map holds the next visible number of every namespace incarnation.

Numbers are integers; the code keeps them in 32 bits, which the range does for
every number that is stored.
-/

/-- The exclusive upper end of the 32-bit counters. -/
def counterLimit : Nat := 4294967296

/-- Visible numbers are handed out below this one. -/
def visibleLimit : Nat := 2147483647

structure InternalIdentity where
  raw : Int
  nonzero : raw ≠ 0

structure VisibleNamespace where
  raw : Nat
deriving DecidableEq

namespace VisibleNamespace

/-- The identifier of a namespace above the incarnation of its slot. -/
def new (id incarnation : Nat) : VisibleNamespace := ⟨(id <<< 32) ||| incarnation⟩

end VisibleNamespace

inductive ClaimKind where
  | task
  | thread
  | processGroup
  | session
deriving DecidableEq, Repr

inductive IdError where
  | authorityTransferred
  | exhausted
  | outOfRange (raw : Int)
  | alreadyReserved (raw : Int)
  | unknownNamespaceId (raw : Int)
  | claimCountExhausted (raw : Int)
deriving DecidableEq, Repr

structure ClaimCounts where
  tasks : Nat
  threads : Nat
  processGroups : Nat
  sessions : Nat
deriving DecidableEq, Repr

namespace ClaimCounts

def empty : ClaimCounts := ⟨0, 0, 0, 0⟩

def counter (counts : ClaimCounts) : ClaimKind -> Nat
  | .task => counts.tasks
  | .thread => counts.threads
  | .processGroup => counts.processGroups
  | .session => counts.sessions

def setCounter (counts : ClaimCounts) (value : Nat) : ClaimKind -> ClaimCounts
  | .task => { counts with tasks := value }
  | .thread => { counts with threads := value }
  | .processGroup => { counts with processGroups := value }
  | .session => { counts with sessions := value }

/-- One more claim, unless the counter is full. -/
def increment (counts : ClaimCounts) (kind : ClaimKind) : Option ClaimCounts :=
  if counts.counter kind + 1 < counterLimit then
    some (counts.setCounter (counts.counter kind + 1) kind)
  else none

/-- One claim less, unless there is none. -/
def decrement (counts : ClaimCounts) (kind : ClaimKind) : Option ClaimCounts :=
  if 1 <= counts.counter kind then some (counts.setCounter (counts.counter kind - 1) kind)
  else none

def isEmpty (counts : ClaimCounts) : Bool :=
  counts.tasks == 0 && counts.threads == 0 && counts.processGroups == 0 && counts.sessions == 0

theorem counter_setCounter (counts : ClaimCounts) (value : Nat) (kind role : ClaimKind) :
    (counts.setCounter value kind).counter role = if role = kind then value else counts.counter role := by
  cases kind <;> cases role <;> rfl

theorem counter_empty (kind : ClaimKind) : empty.counter kind = 0 := by
  cases kind <;> rfl

theorem isEmpty_iff {counts : ClaimCounts} :
    counts.isEmpty = true <-> ∀ kind, counts.counter kind = 0 := by
  unfold isEmpty
  simp only [Bool.and_eq_true, beq_iff_eq]
  constructor
  · rintro ⟨⟨⟨tasks, threads⟩, groups⟩, sessions⟩ kind
    cases kind with
    | task => exact tasks
    | thread => exact threads
    | processGroup => exact groups
    | session => exact sessions
  · intro none
    exact ⟨⟨⟨none .task, none .thread⟩, none .processGroup⟩, none .session⟩

end ClaimCounts

/-- Claims and cursors of one range of numbers.  A number can be claimed in
several kinds and is free again when all of them are given back. -/
structure NamespaceAllocation where
  first : Int
  last : Int
  next : Int
  claims : Int -> Option ClaimCounts
  visibleNext : VisibleNamespace -> Option Nat

namespace NamespaceAllocation

/-- A new range.  The assertions of the constructor fail with `none`. -/
def new (first last next : Int) : Option NamespaceAllocation :=
  if 0 < first ∧ first <= last ∧ first <= next ∧ next <= last then
    some { first, last, next, claims := fun _ => none, visibleNext := fun _ => none }
  else none

def advance (allocation : NamespaceAllocation) : NamespaceAllocation :=
  { allocation with
    next := if allocation.next = allocation.last then allocation.first else allocation.next + 1 }

def setClaims (allocation : NamespaceAllocation) (key : Int) (counts : Option ClaimCounts) :
    NamespaceAllocation :=
  { allocation with claims := fun other => if other = key then counts else allocation.claims other }

theorem claims_setClaims_self (allocation : NamespaceAllocation) (key : Int)
    (counts : Option ClaimCounts) : (allocation.setClaims key counts).claims key = counts :=
  if_pos rfl

variable {allocation : NamespaceAllocation}

theorem claims_setClaims_of_ne {key other : Int}
    {counts : Option ClaimCounts} (apart : other ≠ key) :
    (allocation.setClaims key counts).claims other = allocation.claims other :=
  if_neg apart

def setVisible (allocation : NamespaceAllocation) (namespaceKey : VisibleNamespace)
    (cursor : Option Nat) : NamespaceAllocation :=
  { allocation with
    visibleNext := fun other =>
      if other = namespaceKey then cursor else allocation.visibleNext other }

/-- Adds a claim to the entry of `raw`, creating the entry where there is none;
a full counter leaves the created entry behind. -/
def claimEntry (allocation : NamespaceAllocation) (raw : Int) (kind : ClaimKind) :
    Except IdError InternalIdentity × NamespaceAllocation :=
  if nonzero : raw ≠ 0 then
    match ((allocation.claims raw).getD .empty).increment kind with
    | none =>
      (.error (.claimCountExhausted raw),
        allocation.setClaims raw (some ((allocation.claims raw).getD .empty)))
    | some counts => (.ok ⟨raw, nonzero⟩, allocation.setClaims raw (some counts))
  else (.error (.outOfRange raw), allocation)

/-- The walk of `reserve_next` from the cursor until it is back at `start`, for
at most as many rounds as given. -/
def search (kind : ClaimKind) (start : Int) :
    Nat -> NamespaceAllocation -> Option (Except IdError InternalIdentity × NamespaceAllocation)
  | 0, _ => none
  | rounds + 1, allocation =>
    let candidate := allocation.next
    let advanced := allocation.advance
    if (allocation.claims candidate).isNone then some (advanced.claimEntry candidate kind)
    else if advanced.next = start then some (.error .exhausted, advanced)
    else search kind start rounds advanced

def size (allocation : NamespaceAllocation) : Nat :=
  (allocation.last - allocation.first + 1).toNat

/-- The loop of the source has no bound of its own; `search_settles` shows that
it ends within one round through the range. -/
def reserveNext (allocation : NamespaceAllocation) (kind : ClaimKind) :
    Except IdError InternalIdentity × NamespaceAllocation :=
  (search kind allocation.next allocation.size allocation).getD (.error .exhausted, allocation)

def reserveExact (allocation : NamespaceAllocation) (raw : Int) (kind : ClaimKind) :
    Except IdError InternalIdentity × NamespaceAllocation :=
  if raw < allocation.first ∨ raw > allocation.last then (.error (.outOfRange raw), allocation)
  else if (allocation.claims raw).isSome then (.error (.alreadyReserved raw), allocation)
  else allocation.claimEntry raw kind

def claimRelated (allocation : NamespaceAllocation) (raw : Int) (kind : ClaimKind) :
    Except IdError InternalIdentity × NamespaceAllocation :=
  if nonzero : raw ≠ 0 then
    match allocation.claims raw with
    | none => (.error (.unknownNamespaceId raw), allocation)
    | some claims =>
      match claims.increment kind with
      | none => (.error (.claimCountExhausted raw), allocation)
      | some counts => (.ok ⟨raw, nonzero⟩, allocation.setClaims raw (some counts))
  else (.error (.outOfRange raw), allocation)

/-- The assertion of the source leaves the cursor where it is. -/
def setNext (allocation : NamespaceAllocation) (raw : Int) : NamespaceAllocation :=
  if allocation.first <= raw ∧ raw <= allocation.last then { allocation with next := raw }
  else allocation

def release (allocation : NamespaceAllocation) (raw : InternalIdentity) (kind : ClaimKind) :
    NamespaceAllocation :=
  match allocation.claims raw.raw with
  | none => allocation
  | some claims =>
    match claims.decrement kind with
    | none => allocation
    | some counts =>
      if counts.isEmpty then allocation.setClaims raw.raw none
      else allocation.setClaims raw.raw (some counts)

/-- A new namespace starts after the number of its root. -/
def visibleCursor (allocation : NamespaceAllocation) (namespaceKey : VisibleNamespace) : Nat :=
  (allocation.visibleNext namespaceKey).getD 2

def reserveVisible (allocation : NamespaceAllocation) (namespaceKey : VisibleNamespace) :
    Option Nat × NamespaceAllocation :=
  let next := allocation.visibleCursor namespaceKey
  if next >= visibleLimit then (none, allocation.setVisible namespaceKey (some next))
  else if next = 0 then (none, allocation.setVisible namespaceKey (some next))
  else (some next, allocation.setVisible namespaceKey (some (next + 1)))

def advanceVisiblePast (allocation : NamespaceAllocation) (namespaceKey : VisibleNamespace)
    (member : Nat) : Option Unit × NamespaceAllocation :=
  if member + 1 < counterLimit then
    if member > visibleLimit then (none, allocation)
    else
      (some (), allocation.setVisible namespaceKey
        (some (max (allocation.visibleCursor namespaceKey) (member + 1))))
  else (none, allocation)

def retireVisibleNamespace (allocation : NamespaceAllocation) (namespaceKey : VisibleNamespace) :
    NamespaceAllocation :=
  allocation.setVisible namespaceKey none

/-! ## The walk round the range -/

/-- The `k`th number from the cursor, going on at the start of the range. -/
def cyclic (allocation : NamespaceAllocation) (k : Nat) : Int :=
  if allocation.next + k <= allocation.last then allocation.next + k
  else allocation.first + (allocation.next + k - allocation.last - 1)

/-- The cursor lies in a range of positive numbers. -/
structure InRange (allocation : NamespaceAllocation) : Prop where
  positive : 0 < allocation.first
  lower : allocation.first <= allocation.next
  upper : allocation.next <= allocation.last

/-- The allocation with its cursor `k` numbers further. -/
def walked (allocation : NamespaceAllocation) (k : Nat) : NamespaceAllocation :=
  { allocation with next := allocation.cyclic k }

theorem walked_zero (ranged : allocation.InRange) :
    allocation.walked 0 = allocation := by
  unfold walked cyclic
  rw [Int.natCast_zero, Int.add_zero, if_pos ranged.upper]

theorem size_eq (ranged : allocation.InRange) :
    (allocation.size : Int) = allocation.last - allocation.first + 1 := by
  have lower := ranged.lower
  have upper := ranged.upper
  unfold size
  omega

theorem walked_advance (ranged : allocation.InRange) {k : Nat}
    (inside : k + 1 < allocation.size) :
    (allocation.walked k).advance = allocation.walked (k + 1) := by
  have size := size_eq ranged
  have lower := ranged.lower
  have upper := ranged.upper
  simp only [walked, advance, cyclic, NamespaceAllocation.mk.injEq, true_and, and_true]
  push_cast
  split_ifs <;> omega

theorem walked_returns (ranged : allocation.InRange) {k : Nat}
    (whole : k + 1 = allocation.size) : (allocation.walked k).advance = allocation := by
  have size := size_eq ranged
  have lower := ranged.lower
  have upper := ranged.upper
  have reached : (if allocation.cyclic k = allocation.last then allocation.first
      else allocation.cyclic k + 1) = allocation.next := by
    simp only [cyclic]
    split_ifs <;> omega
  exact congrArg (fun next => { allocation with next }) reached

theorem cyclic_inside (ranged : allocation.InRange) {k : Nat}
    (inside : k < allocation.size) :
    allocation.first <= allocation.cyclic k ∧ allocation.cyclic k <= allocation.last := by
  have size := size_eq ranged
  have lower := ranged.lower
  have upper := ranged.upper
  unfold cyclic
  split_ifs <;> omega

theorem cyclic_ne_next (ranged : allocation.InRange) {k : Nat}
    (positive : 0 < k) (inside : k < allocation.size) : allocation.cyclic k ≠ allocation.next := by
  have size := size_eq ranged
  have lower := ranged.lower
  have upper := ranged.upper
  unfold cyclic
  split_ifs <;> omega

theorem cyclic_onto (ranged : allocation.InRange) {raw : Int}
    (lower : allocation.first <= raw) (upper : raw <= allocation.last) :
    ∃ k, k < allocation.size ∧ allocation.cyclic k = raw := by
  have size := size_eq ranged
  have cursorLower := ranged.lower
  have cursorUpper := ranged.upper
  by_cases ahead : allocation.next <= raw
  · refine ⟨(raw - allocation.next).toNat, by omega, ?_⟩
    unfold cyclic
    split_ifs <;> omega
  · refine ⟨(raw - allocation.first + (allocation.last - allocation.next) + 1).toNat,
      by omega, ?_⟩
    unfold cyclic
    split_ifs <;> omega

/-- How the walk may end: at the first number without an entry, or back at its
start when every number of the range has one. -/
inductive Settles (allocation : NamespaceAllocation) (kind : ClaimKind) :
    Except IdError InternalIdentity × NamespaceAllocation -> Prop
  | found (k : Nat) (inside : k < allocation.size)
      (earlier : ∀ j, j < k -> allocation.claims (allocation.cyclic j) ≠ none)
      (vacant : allocation.claims (allocation.cyclic k) = none) :
      Settles allocation kind
        ((allocation.walked k).advance.claimEntry (allocation.cyclic k) kind)
  | exhausted (full : ∀ k, k < allocation.size ->
      allocation.claims (allocation.cyclic k) ≠ none) :
      Settles allocation kind (.error .exhausted, allocation)

theorem search_settles (ranged : allocation.InRange)
    (kind : ClaimKind) : ∀ (rounds k : Nat), k + rounds = allocation.size -> 0 < rounds ->
      (∀ j, j < k -> allocation.claims (allocation.cyclic j) ≠ none) ->
      ∃ outcome, search kind allocation.next rounds (allocation.walked k) = some outcome ∧
        Settles allocation kind outcome := by
  intro rounds
  induction rounds with
  | zero =>
    intro k _ positive
    exact absurd positive (Nat.lt_irrefl 0)
  | succ rounds ih =>
    intro k counted _ earlier
    have inside : k < allocation.size := by omega
    have same : (allocation.walked k).next = allocation.cyclic k := rfl
    have kept : (allocation.walked k).claims = allocation.claims := rfl
    rw [search, same, kept]
    cases entry : allocation.claims (allocation.cyclic k) with
    | none => exact ⟨_, if_pos rfl, .found k inside earlier entry⟩
    | some counts =>
      have through : ∀ j, j < k + 1 ->
          allocation.claims (allocation.cyclic j) ≠ none := by
        intro j before
        rcases Nat.lt_succ_iff_lt_or_eq.mp before with older | rfl
        · exact earlier j older
        · rw [entry]
          exact Option.some_ne_none counts
      rw [if_neg (by rw [Option.isNone_some]; exact Bool.false_ne_true)]
      by_cases whole : k + 1 = allocation.size
      · rw [walked_returns ranged whole, if_pos rfl]
        refine ⟨_, rfl, .exhausted ?_⟩
        rw [<- whole]
        exact through
      have further : k + 1 < allocation.size := by omega
      have apart : (allocation.walked (k + 1)).next ≠ allocation.next :=
        cyclic_ne_next ranged (Nat.succ_pos k) further
      rw [walked_advance ranged further, if_neg apart]
      exact ih (k + 1) (by omega) (by omega) through

theorem reserveNext_settles (ranged : allocation.InRange)
    (kind : ClaimKind) :
    search kind allocation.next allocation.size allocation =
        some (allocation.reserveNext kind) ∧
      Settles allocation kind (allocation.reserveNext kind) := by
  have positive : 0 < allocation.size := by
    have size := size_eq ranged
    have lower := ranged.lower
    have upper := ranged.upper
    omega
  rcases search_settles ranged kind allocation.size 0 (Nat.zero_add _) positive
    (fun j before => absurd before (Nat.not_lt_zero j)) with ⟨outcome, found, settles⟩
  rw [walked_zero ranged] at found
  unfold reserveNext
  rw [found, Option.getD_some]
  exact ⟨rfl, settles⟩

end NamespaceAllocation

/-! ## The books of claims -/

/-- No claim of any kind on the number is outstanding. -/
def Unclaimed (outstanding : List (Int × ClaimKind)) (raw : Int) : Prop :=
  ∀ kind, (raw, kind) ∉ outstanding

/-- The counters of an allocation are those of the outstanding claims, and a
number without a claim has no counters. -/
structure Books (allocation : NamespaceAllocation) (outstanding : List (Int × ClaimKind)) :
    Prop where
  ranged : allocation.InRange
  counted : ∀ raw counts, allocation.claims raw = some counts ->
    ∀ kind, counts.counter kind = outstanding.count (raw, kind)
  live : ∀ raw counts, allocation.claims raw = some counts -> counts.isEmpty = false
  absent : ∀ raw, allocation.claims raw = none -> Unclaimed outstanding raw

namespace Books

variable {allocation : NamespaceAllocation} {outstanding : List (Int × ClaimKind)}

section Books

variable (books : Books allocation outstanding)

include books

theorem counter_getD (raw : Int) (kind : ClaimKind) :
    ((allocation.claims raw).getD .empty).counter kind = outstanding.count (raw, kind) := by
  cases entry : allocation.claims raw with
  | none =>
    rw [Option.getD_none, ClaimCounts.counter_empty]
    exact (List.count_eq_zero.mpr (books.absent raw entry kind)).symm
  | some counts => exact books.counted raw counts entry kind

theorem vacant_iff {raw : Int} :
    allocation.claims raw = none <-> Unclaimed outstanding raw := by
  constructor
  · exact books.absent raw
  intro unclaimed
  cases entry : allocation.claims raw with
  | none => rfl
  | some counts =>
    have zero : counts.isEmpty = true := by
      rw [ClaimCounts.isEmpty_iff]
      intro kind
      rw [books.counted raw counts entry kind]
      exact List.count_eq_zero.mpr (unclaimed kind)
    rw [books.live raw counts entry] at zero
    cases zero

/-- Replacing one entry keeps the books when it agrees with the new claims. -/
theorem setClaims {claims : List (Int × ClaimKind)} {raw : Int} {entry : Option ClaimCounts}
    (others : ∀ other kind, other ≠ raw -> claims.count (other, kind) = outstanding.count (other, kind))
    (own : ∀ kind, (entry.getD .empty).counter kind = claims.count (raw, kind))
    (live : ∀ counts, entry = some counts -> counts.isEmpty = false) :
    Books (allocation.setClaims raw entry) claims where
  ranged := ⟨books.ranged.positive, books.ranged.lower, books.ranged.upper⟩
  counted := by
    intro number counts present kind
    by_cases same : number = raw
    · subst same
      rw [NamespaceAllocation.claims_setClaims_self] at present
      rw [<- own kind, present, Option.getD_some]
    · rw [NamespaceAllocation.claims_setClaims_of_ne same] at present
      rw [others number kind same]
      exact books.counted number counts present kind
  live := by
    intro number counts present
    by_cases same : number = raw
    · subst same
      rw [NamespaceAllocation.claims_setClaims_self] at present
      exact live counts present
    · rw [NamespaceAllocation.claims_setClaims_of_ne same] at present
      exact books.live number counts present
  absent := by
    intro number missing kind
    rw [<- List.count_eq_zero]
    by_cases same : number = raw
    · subst same
      rw [NamespaceAllocation.claims_setClaims_self] at missing
      rw [<- own kind, missing, Option.getD_none, ClaimCounts.counter_empty]
    · rw [NamespaceAllocation.claims_setClaims_of_ne same] at missing
      rw [others number kind same]
      exact List.count_eq_zero.mpr (books.absent number missing kind)

theorem moved {next : Int} (lower : allocation.first <= next) (upper : next <= allocation.last) :
    Books { allocation with next } outstanding :=
  ⟨⟨books.ranged.positive, lower, upper⟩, books.counted, books.live, books.absent⟩

theorem advance :
    Books allocation.advance outstanding := by
  have lower := books.ranged.lower
  have upper := books.ranged.upper
  refine books.moved ?_ ?_
  · split_ifs <;> omega
  · split_ifs <;> omega

theorem incremented {raw : Int} {kind : ClaimKind} {counts : ClaimCounts}
    (counted : ((allocation.claims raw).getD .empty).increment kind = some counts) :
    Books (allocation.setClaims raw (some counts)) ((raw, kind) :: outstanding) := by
  unfold ClaimCounts.increment at counted
  split at counted
  · cases counted
    have own : ∀ role, (((allocation.claims raw).getD .empty).setCounter
        (((allocation.claims raw).getD .empty).counter kind + 1) kind).counter role =
          ((raw, kind) :: outstanding).count (raw, role) := by
      intro role
      rw [ClaimCounts.counter_setCounter, List.count_cons, books.counter_getD, books.counter_getD]
      by_cases same : role = kind
      · subst same
        rw [if_pos rfl, if_pos (beq_self_eq_true _)]
      · rw [if_neg same, if_neg, Nat.add_zero]
        intro equal
        exact same (Prod.mk.inj (beq_iff_eq.mp equal)).2.symm
    refine books.setClaims ?_ own ?_
    · intro other role apart
      refine List.count_cons_of_ne ?_
      intro equal
      exact apart (Prod.mk.inj equal).1.symm
    intro entry present
    cases present
    rw [<- Bool.not_eq_true, ClaimCounts.isEmpty_iff]
    intro zero
    have positive := zero kind
    rw [own kind, List.count_cons_self] at positive
    cases positive
  · cases counted

theorem released {raw : InternalIdentity} {kind : ClaimKind}
    (matching : (raw.raw, kind) ∈ outstanding) :
    Books (allocation.release raw kind) (outstanding.erase (raw.raw, kind)) := by
  have positive : 1 <= outstanding.count (raw.raw, kind) := List.count_pos_iff.mpr matching
  unfold NamespaceAllocation.release
  cases entry : allocation.claims raw.raw with
  | none => exact absurd matching (books.absent raw.raw entry kind)
  | some claims =>
    have counter := books.counted raw.raw claims entry
    have own : ∀ role, (claims.setCounter (claims.counter kind - 1) kind).counter role =
        (outstanding.erase (raw.raw, kind)).count (raw.raw, role) := by
      intro role
      rw [ClaimCounts.counter_setCounter, counter kind, counter role]
      by_cases same : role = kind
      · subst same
        rw [if_pos rfl, List.count_erase_self]
      · rw [if_neg same, List.count_erase_of_ne]
        intro equal
        exact same (Prod.mk.inj equal).2
    have others : ∀ other role, other ≠ raw.raw ->
        (outstanding.erase (raw.raw, kind)).count (other, role) =
          outstanding.count (other, role) := by
      intro other role apart
      refine List.count_erase_of_ne ?_
      intro equal
      exact apart (Prod.mk.inj equal).1
    dsimp only
    rw [ClaimCounts.decrement, if_pos (by rw [counter kind]; exact positive)]
    dsimp only
    split
    · rename_i empty
      refine books.setClaims others ?_ ?_
      · intro role
        rw [Option.getD_none, ClaimCounts.counter_empty, <- own role]
        exact (ClaimCounts.isEmpty_iff.mp empty role).symm
      · intro counts present
        cases present
    · rename_i remains
      refine books.setClaims others own ?_
      intro counts present
      cases present
      exact Bool.eq_false_iff.mpr remains

end Books

end Books

/-! ## What one operation does to the books -/

/-- The outstanding claims after an operation that asked for a claim. -/
def claimsAfter (outstanding : List (Int × ClaimKind)) (kind : ClaimKind) :
    Except IdError InternalIdentity -> List (Int × ClaimKind)
  | .ok identity => (identity.raw, kind) :: outstanding
  | .error _ => outstanding

/-- The operation keeps the books, the range and the visible cursors. -/
structure Recorded (allocation : NamespaceAllocation) (outstanding : List (Int × ClaimKind))
    (kind : ClaimKind) (outcome : Except IdError InternalIdentity × NamespaceAllocation) :
    Prop where
  books : Books outcome.2 (claimsAfter outstanding kind outcome.1)
  first : outcome.2.first = allocation.first
  last : outcome.2.last = allocation.last
  visible : outcome.2.visibleNext = allocation.visibleNext

/-- The first number from the cursor on without a claim of any kind. -/
def FirstUnclaimed (allocation : NamespaceAllocation) (outstanding : List (Int × ClaimKind))
    (raw : Int) : Prop :=
  ∃ k, k < allocation.size ∧ allocation.cyclic k = raw ∧ Unclaimed outstanding raw ∧
    ∀ j, j < k -> ¬ Unclaimed outstanding (allocation.cyclic j)

theorem FirstUnclaimed.unique {allocation : NamespaceAllocation}
    {outstanding : List (Int × ClaimKind)} {raw other : Int}
    (one : FirstUnclaimed allocation outstanding raw)
    (two : FirstUnclaimed allocation outstanding other) : raw = other := by
  rcases one with ⟨k, _, rfl, free, earlier⟩
  rcases two with ⟨j, _, rfl, vacant, before⟩
  rcases Nat.lt_trichotomy k j with less | same | more
  · exact absurd free (before k less)
  · rw [same]
  · exact absurd vacant (earlier j more)

namespace Books

variable {allocation : NamespaceAllocation} {outstanding : List (Int × ClaimKind)}
  {kind : ClaimKind}

section Books

variable (books : Books allocation outstanding)

include books

theorem refused (error : IdError) :
    Recorded allocation outstanding kind (.error error, allocation) :=
  ⟨books, rfl, rfl, rfl⟩

/-- A number without an entry is claimed at once: its counters are all zero. -/
theorem claimEntry_vacant (kind : ClaimKind) {raw : Int} (nonzero : raw ≠ 0)
    (vacant : allocation.claims raw = none) :
    (allocation.claimEntry raw kind).1 = .ok ⟨raw, nonzero⟩ ∧
      Recorded allocation outstanding kind (allocation.claimEntry raw kind) := by
  have zero : ((allocation.claims raw).getD .empty).counter kind + 1 < counterLimit := by
    rw [vacant, Option.getD_none, ClaimCounts.counter_empty]
    decide
  have counted : ((allocation.claims raw).getD .empty).increment kind =
      some (((allocation.claims raw).getD .empty).setCounter
        (((allocation.claims raw).getD .empty).counter kind + 1) kind) := if_pos zero
  unfold NamespaceAllocation.claimEntry
  rw [dif_pos nonzero, counted]
  exact ⟨rfl, books.incremented counted, rfl, rfl, rfl⟩

theorem reserveNext_cases (kind : ClaimKind) :
    Recorded allocation outstanding kind (allocation.reserveNext kind) ∧
      ((∃ identity, (allocation.reserveNext kind).1 = .ok identity ∧
          FirstUnclaimed allocation outstanding identity.raw) ∨
        (allocation.reserveNext kind).1 = .error .exhausted ∧
          ∀ raw, allocation.first <= raw -> raw <= allocation.last ->
            ¬ Unclaimed outstanding raw) := by
  have settles := (NamespaceAllocation.reserveNext_settles books.ranged kind).2
  generalize allocation.reserveNext kind = outcome at settles ⊢
  cases settles with
  | found k inside earlier vacant =>
    have bounds := NamespaceAllocation.cyclic_inside books.ranged inside
    have positive := books.ranged.positive
    have nonzero : allocation.cyclic k ≠ 0 := by omega
    have walked : Books (allocation.walked k).advance outstanding :=
      (books.moved bounds.1 bounds.2).advance
    rcases walked.claimEntry_vacant kind nonzero vacant with ⟨answer, recorded⟩
    refine ⟨⟨recorded.books, recorded.first, recorded.last, recorded.visible⟩, .inl ?_⟩
    refine ⟨_, answer, k, inside, rfl, books.vacant_iff.mp vacant, ?_⟩
    intro j before
    rw [<- books.vacant_iff]
    exact earlier j before
  | exhausted full =>
    refine ⟨books.refused .exhausted, .inr ⟨rfl, ?_⟩⟩
    intro raw lower upper
    rcases NamespaceAllocation.cyclic_onto books.ranged lower upper with ⟨k, inside, rfl⟩
    rw [<- books.vacant_iff]
    exact full k inside

theorem reserveExact_recorded (raw : Int) :
    Recorded allocation outstanding kind (allocation.reserveExact raw kind) ∧
      ∀ identity, (allocation.reserveExact raw kind).1 = .ok identity ->
        identity.raw = raw ∧ Unclaimed outstanding raw := by
  unfold NamespaceAllocation.reserveExact
  split
  · refine ⟨books.refused _, ?_⟩
    intro identity granted
    cases granted
  rename_i inside
  split
  · refine ⟨books.refused _, ?_⟩
    intro identity granted
    cases granted
  rename_i unreserved
  have vacant : allocation.claims raw = none := by
    rw [Option.not_isSome_iff_eq_none] at unreserved
    exact unreserved
  have positive := books.ranged.positive
  have nonzero : raw ≠ 0 := by omega
  rcases books.claimEntry_vacant kind nonzero vacant with ⟨answer, recorded⟩
  refine ⟨recorded, ?_⟩
  intro identity granted
  rw [answer] at granted
  cases granted
  exact ⟨rfl, books.vacant_iff.mp vacant⟩

theorem claimRelated_recorded (raw : Int) :
    Recorded allocation outstanding kind (allocation.claimRelated raw kind) := by
  unfold NamespaceAllocation.claimRelated
  split
  · cases entry : allocation.claims raw with
    | none => exact books.refused _
    | some claims =>
      dsimp only
      cases counted : claims.increment kind with
      | none => exact books.refused _
      | some counts =>
        have same : ((allocation.claims raw).getD .empty).increment kind = some counts := by
          rw [entry]
          exact counted
        exact ⟨books.incremented same, rfl, rfl, rfl⟩
  · exact books.refused _

theorem setNext (raw : Int) :
    Books (allocation.setNext raw) outstanding := by
  unfold NamespaceAllocation.setNext
  split
  · rename_i inside
    exact books.moved inside.1 inside.2
  · exact books

theorem setVisible (namespaceKey : VisibleNamespace) (cursor : Option Nat) :
    Books (allocation.setVisible namespaceKey cursor) outstanding :=
  ⟨⟨books.ranged.positive, books.ranged.lower, books.ranged.upper⟩, books.counted, books.live,
    books.absent⟩

end Books

end Books

end Identity
end Carrick

import Carrick.BuddyStorage.Nodes

namespace Carrick
namespace BuddyStorage

open Foundation

/-!
# Every history of a pool

The live allocations are the receipts that were handed out and not yet
returned, as the calls' results show them.  They are compared with the blocks
of the tree that the node words hold, after any sequence of allocations and of
releases with receipts of any origin.
-/

variable {size : Nat}

/-- A pool and the receipts outstanding on it, which the code leaves with the
callers. -/
structure Pool (size : Nat) where
  storage : Storage size
  live : List Allocation

/-- A call of a venue, with the verdict of its wait for the lock. -/
inductive Call where
  | allocate (contended : Bool) (bytes : Nat)
  | release (contended : Bool) (allocation : Allocation)

/-- One call and what its result says about the outstanding receipts. -/
def Pool.perform (pool : Pool size) : Call -> Pool size
  | .allocate contended bytes =>
    match pool.storage.allocate contended bytes with
    | (storage, .ok allocation) => { storage, live := allocation :: pool.live }
    | (storage, .error _) => { storage, live := pool.live }
  | .release contended allocation =>
    match pool.storage.release contended allocation with
    | (storage, _, .ok _) => { storage, live := pool.live.erase allocation }
    | (storage, _, .error _) => { storage, live := pool.live }

/-- A fresh pool over so many bytes. -/
def Pool.opened (size bytes : Nat) : Pool size where
  storage := ((Storage.zeroed size).initializeStorage false bytes).1
  live := []

/-- Two receipts name extents without a byte in common. -/
def Allocation.Disjoint (one other : Allocation) : Prop :=
  one.offset + one.bytes <= other.offset ∨ other.offset + other.bytes <= one.offset

/-- A page no outstanding receipt covers. -/
def FreePage (live : List Allocation) (page : Nat) : Prop :=
  ∀ allocation ∈ live,
    ¬ (allocation.offset <= page * 4096 ∧ page * 4096 < allocation.offset + allocation.bytes)

/-- A run of free pages in the pool that starts at a multiple of its size. -/
def FreeRun (live : List Allocation) (pages count start : Nat) : Prop :=
  count ∣ start ∧ start + count <= pages ∧
    ∀ page, start <= page -> page < start + count -> FreePage live page

/-- The pages a request is rounded to. -/
def roundedPages (bytes : Nat) : Nat :=
  2 ^ Nat.clog 2 ((max bytes 1 + 4095) / 4096)

/-- The receipt of a block of the tree. -/
def receipt (block : Nat × Nat) : Allocation where
  offset := 4096 * block.1
  bytes := 4096 * 2 ^ block.2

theorem receipt_injective : Function.Injective receipt := by
  rintro ⟨first, rank⟩ ⟨second, other⟩ same
  simp only [receipt, Allocation.mk.injEq] at same
  have ranks : rank = other := Nat.pow_right_injective (Nat.le_refl 2) (by simp only; omega)
  simp only [Prod.mk.injEq]
  exact ⟨by omega, ranks⟩

theorem orderOf_eq {bytes rank : Nat} (rounded : roundedPages bytes = 2 ^ rank) :
    orderOf bytes = if 2 ^ rank < 2 ^ 64 then .ok (rank + 1) else .error .exhausted := by
  unfold orderOf checkedNextPowerOfTwo
  rw [show 2 ^ Nat.clog 2 ((max bytes 1 + 4095) / 4096) = 2 ^ rank from rounded]
  by_cases fits : 2 ^ rank < 2 ^ 64
  · rw [if_pos fits, if_pos fits]
    simp only [Nat.log2_two_pow]
  · rw [if_neg fits, if_neg fits]

theorem roundedPages_block (rank : Nat) : roundedPages (4096 * 2 ^ rank) = 2 ^ rank := by
  have positive : 0 < 2 ^ rank := Nat.two_pow_pos rank
  unfold roundedPages
  rw [show (max (4096 * 2 ^ rank) 1 + 4095) / 4096 = 2 ^ rank by omega,
    Nat.clog_pow 2 rank Nat.one_lt_two]

/-- What the node words and the receipts of a pool have in common: both are read
off one buddy tree, whose taken blocks are the receipts. -/
structure Pool.Matches (pool : Pool size) (rank : Nat) (tree : BuddyTree) : Prop where
  pages : pool.storage.pages = 2 ^ rank
  bounded : rank < 32
  fits : tree.Fits rank
  holds : Holds pool.storage.nodes rank 1 tree
  live : pool.live.Perm ((tree.blocks rank 0).map receipt)
  counted : pool.storage.live = pool.live.length

namespace Pool.Matches

variable {pool : Pool size} {rank : Nat} {tree : BuddyTree}

section Agrees

variable (agrees : pool.Matches rank tree)

include agrees

theorem mem_iff (block : Nat × Nat) :
    receipt block ∈ pool.live <-> block ∈ tree.blocks rank 0 := by
  rw [agrees.live.mem_iff, List.mem_map_of_injective receipt_injective]

theorem length_le : pool.live.length <= 2 ^ rank := by
  rw [agrees.live.length_eq, List.length_map]
  exact BuddyTree.blocks_length rank 0 tree

theorem pages_log : pool.storage.pages.log2 = rank := by
  rw [agrees.pages, Nat.log2_two_pow]

theorem root_order :
    pool.storage.nodes 1 &&& order = tree.room rank := by
  have bounded := agrees.bounded
  exact agrees.holds.word_order (by omega)

theorem freeRun_iff (target start : Nat) :
    FreeRun pool.live pool.storage.pages (2 ^ target) start <->
      start + 2 ^ target <= 2 ^ rank ∧ BuddyTree.OpenRun (tree.blocks rank 0) target start := by
  have covers : ∀ page block, block ∈ tree.blocks rank 0 ->
      (BuddyTree.Covers block page <-> (receipt block).offset <= page * 4096 ∧
        page * 4096 < (receipt block).offset + (receipt block).bytes) := by
    intro page block _
    simp only [BuddyTree.Covers, receipt]
    omega
  unfold FreeRun BuddyTree.OpenRun FreePage
  rw [agrees.pages]
  constructor
  · rintro ⟨divides, inside, clear⟩
    refine ⟨inside, divides, ?_⟩
    intro page lower upper block member covered
    exact clear page lower upper (receipt block) ((agrees.mem_iff block).mpr member)
      ((covers page block member).mp covered)
  rintro ⟨inside, divides, clear⟩
  refine ⟨divides, inside, ?_⟩
  intro page lower upper allocation member covered
  rcases List.mem_map.mp (agrees.live.mem_iff.mp member) with ⟨block, present, rfl⟩
  exact clear page lower upper block present ((covers page block present).mpr covered)

/-- The root has room exactly when a run of free pages of that size exists. -/
theorem room_iff (target : Nat) :
    target + 1 <= tree.room rank <->
      ∃ start, FreeRun pool.live pool.storage.pages (2 ^ target) start := by
  constructor
  · intro large
    rcases BuddyTree.exists_openRun (dvd_zero (2 ^ rank)) large with
      ⟨start, _, inside, opened⟩
    exact ⟨start, (agrees.freeRun_iff target start).mpr ⟨by omega, opened⟩⟩
  · rintro ⟨start, run⟩
    rcases (agrees.freeRun_iff target start).mp run with ⟨inside, opened⟩
    exact BuddyTree.room_of_openRun (dvd_zero (2 ^ rank)) agrees.fits (Nat.zero_le _)
      (by omega) opened

theorem allocate_cases (bytes : Nat) :
    (¬ (∃ start, FreeRun pool.live pool.storage.pages (roundedPages bytes) start) ∧
      pool.storage.allocate false bytes = (pool.storage, .error .exhausted)) ∨
    ((∃ start, FreeRun pool.live pool.storage.pages (roundedPages bytes) start) ∧
      ∃ after allocation grown, pool.storage.allocate false bytes = (after, .ok allocation) ∧
        allocation.bytes = 4096 * roundedPages bytes ∧
        Pool.Matches { storage := after, live := allocation :: pool.live } rank grown) := by
  obtain ⟨target, rounded⟩ : ∃ target, roundedPages bytes = 2 ^ target := ⟨_, rfl⟩
  have small := agrees.bounded
  have poolSmall : 2 ^ rank <= 2 ^ 31 := Nat.pow_le_pow_right (by decide) (by omega)
  have positivePages : 0 < 2 ^ rank := Nat.two_pow_pos rank
  rw [rounded, <- agrees.room_iff target]
  unfold Storage.allocate
  rw [orderOf_eq rounded]
  by_cases large : target + 1 <= tree.room rank
  · right
    have within : target <= rank := by
      have bound := BuddyTree.room_le rank tree
      omega
    have targetSmall : 2 ^ target < 2 ^ 64 := Nat.pow_lt_pow_right (by decide) (by omega)
    rcases Nat.exists_eq_add_of_le within with ⟨levels, rfl⟩
    have holds := agrees.holds
    rcases descend_spec target 0 Nat.one_pos (by omega) holds large with ⟨leaf, place, rewrites⟩
    have carved := BuddyTree.carve_spec 0 agrees.fits large
    have notEmpty : ¬ pool.storage.pages = 0 := by
      rw [agrees.pages]
      omega
    have levelsIs : target + levels + 1 - (target + 1) = levels := by omega
    have shift : 4096 <<< (target + 1 - 1) = 4096 * 2 ^ target := by
      rw [Nat.shiftLeft_eq, Nat.add_sub_cancel]
    have leafLarge : levels <= (descend (target + 1) levels pool.storage.nodes 1 0).2.1 := by
      have power := Nat.lt_two_pow_self (n := levels)
      have bound := Nat.le_of_not_lt (fun below => by
        rw [Nat.div_eq_of_lt below] at leaf
        exact absurd leaf (by decide) :
        ¬ (descend (target + 1) levels pool.storage.nodes 1 0).2.1 < 2 ^ levels)
      omega
    simp only [if_pos targetSmall, agrees.root_order, if_neg notEmpty, agrees.pages_log, levelsIs,
      Bool.false_eq_true, if_false, if_neg (Nat.not_lt.mpr large), shift]
    rw [ascend_eq splitWord leaf leafLarge]
    refine ⟨large, _, _, (tree.carve target levels).1, rfl, rfl, ?_⟩
    have block : ({ offset := (descend (target + 1) levels pool.storage.nodes 1 0).2.2
                    bytes := 4096 * 2 ^ target } : Allocation) =
          receipt (0 + (tree.carve target levels).2, target) := by
      rw [place]
      simp [receipt]
    constructor
    case pages => exact agrees.pages
    case bounded => exact small
    case fits => exact carved.2.1
    case holds => exact rewrites.holds
    case live =>
      rw [block]
      exact (agrees.live.cons _).trans (carved.2.2.map receipt).symm
    case counted =>
      have bound := agrees.length_le
      simp only [List.length_cons]
      rw [agrees.counted, Nat.mod_eq_of_lt (by omega)]
  · left
    refine ⟨large, ?_⟩
    by_cases targetSmall : 2 ^ target < 2 ^ 64
    · have notEmpty : ¬ pool.storage.pages = 0 := by
        rw [agrees.pages]
        omega
      simp only [if_pos targetSmall, agrees.root_order, if_neg notEmpty, Bool.false_eq_true,
        if_false]
      rw [if_pos (by omega)]
    · simp only [if_neg targetSmall]

/-- A receipt that passes the checks of a release is that of some range of
the tree's size. -/
theorem checked_receipt {allocation : Allocation} (sized : ¬ pool.storage.Malformed allocation) :
    ∃ target offset, target <= rank ∧ offset + 2 ^ target <= 2 ^ rank ∧ 2 ^ target ∣ offset ∧
      allocation = receipt (offset, target) := by
  simp only [Storage.Malformed, not_or, not_not, Nat.not_lt, ge_iff_le, Nat.not_le, gt_iff_lt,
    ne_eq] at sized
  rcases sized with ⟨large, ⟨exponent, power⟩, aligned, _, inside⟩
  rw [agrees.pages] at inside
  have page : (4096 : Nat) = 2 ^ 12 := by decide
  rw [power, page] at large
  have atLeast : 12 <= exponent := (Nat.pow_le_pow_iff_right Nat.one_lt_two).mp large
  have bytesIs : allocation.bytes = 4096 * 2 ^ (exponent - 12) := by
    rw [page, <- pow_add, Nat.add_sub_cancel' atLeast]
    exact power
  generalize exponent - 12 = target at bytesIs
  have divides : 4096 * 2 ^ target ∣ allocation.offset := by
    rw [<- bytesIs]
    exact Nat.dvd_of_mod_eq_zero aligned
  rcases divides with ⟨factor, offsetIs⟩
  refine ⟨target, 2 ^ target * factor, ?_, ?_, dvd_mul_right _ _, ?_⟩
  · have fits : 2 ^ target <= 2 ^ rank := by omega
    exact (Nat.pow_le_pow_iff_right (by decide)).mp fits
  · rw [offsetIs, bytesIs, Nat.mul_assoc] at inside
    omega
  · rcases allocation with ⟨offset, bytes⟩
    simp only [receipt, Allocation.mk.injEq]
    exact ⟨by rw [<- Nat.mul_assoc]; exact offsetIs, bytesIs⟩

theorem live_checked {allocation : Allocation} (member : allocation ∈ pool.live) :
    ¬ pool.storage.Malformed allocation := by
  rcases List.mem_map.mp (agrees.live.mem_iff.mp member) with ⟨⟨start, target⟩, present, rfl⟩
  have inside := BuddyTree.blocks_within (dvd_zero (2 ^ rank)) present
  simp only at inside
  have positive : 0 < 2 ^ target := Nat.two_pow_pos target
  have poolSmall : 2 ^ rank < 2 ^ 32 := Nat.pow_lt_pow_right (by decide) agrees.bounded
  have power : (4096 * 2 ^ target).isPowerOfTwo :=
    ⟨12 + target, (Nat.pow_add 2 12 target).symm⟩
  have aligned : 4096 * start % (4096 * 2 ^ target) = 0 := by
    rw [Nat.mul_mod_mul_left, Nat.mod_eq_zero_of_dvd inside.2.2]
  simp only [Storage.Malformed, receipt, agrees.pages, power, aligned, not_true_eq_false, ne_eq,
    false_or]
  omega

theorem release_cases (allocation : Allocation) :
    (allocation ∉ pool.live ∧
      pool.storage.release false allocation = (pool.storage, allocation, .error .invalid)) ∨
    (allocation ∈ pool.live ∧
      ∃ after shrunk,
        pool.storage.release false allocation = (after, { offset := 0, bytes := 0 }, .ok ()) ∧
        Pool.Matches { storage := after, live := pool.live.erase allocation } rank shrunk) := by
  have small := agrees.bounded
  by_cases refused : pool.storage.Malformed allocation
  · left
    refine ⟨fun member => agrees.live_checked member refused, ?_⟩
    rw [Storage.release, if_neg Bool.false_ne_true, if_pos refused]
  rcases agrees.checked_receipt refused with ⟨target, offset, within, inside, aligned, rfl⟩
  have poolSmall : 2 ^ rank < 2 ^ 32 := Nat.pow_lt_pow_right (by decide) small
  have targetSmall : 2 ^ target < 2 ^ 64 := Nat.pow_lt_pow_right (by decide) (by omega)
  rcases Nat.exists_eq_add_of_le within with ⟨levels, rfl⟩
  have positive : 0 < 2 ^ target := Nat.two_pow_pos target
  have inRange : offset < 2 ^ (target + levels) := by omega
  have levelsIs : target + levels + 1 - (target + 1) = levels := by omega
  have ordered : orderOf (receipt (offset, target)).bytes = .ok (target + 1) := by
    have rounded := orderOf_eq (roundedPages_block target)
    rw [if_pos targetSmall] at rounded
    exact rounded
  have walk := locate_spec target 1 offset Nat.one_pos (by omega) agrees.holds
  unfold Storage.release
  simp only [Bool.false_eq_true, if_false, if_neg refused, ordered, agrees.pages_log, levelsIs]
  rw [agrees.mem_iff]
  cases given : tree.giveBack target levels offset with
  | none =>
    left
    rw [given] at walk
    refine ⟨?_, ?_⟩
    · intro member
      have found := BuddyTree.giveBack_of_mem 0 (dvd_zero (2 ^ (target + levels))) inRange
        (by rw [Nat.zero_add]; exact member)
      rw [given] at found
      cases found
    · rw [show (receipt (offset, target)).offset = 4096 * offset from rfl]
      cases reached : locate (target + 1) pool.storage.nodes levels 1 (4096 * offset) with
      | none => rfl
      | some leaf => simp only [ne_eq, walk leaf reached, not_false_eq_true, if_true]
  | some shrunk =>
    right
    rw [given] at walk
    rcases walk with ⟨leaf, reached, taken, root, rewrites⟩
    have removed := BuddyTree.giveBack_spec 0 agrees.fits inRange given aligned
    have leafLarge : levels <= leaf := by
      have power := Nat.lt_two_pow_self (n := levels)
      have bound := Nat.le_of_not_lt (fun below => by
        rw [Nat.div_eq_of_lt below] at root
        exact absurd root (by decide) : ¬ leaf < 2 ^ levels)
      omega
    rw [Nat.zero_add] at removed
    have member : (offset, target) ∈ tree.blocks (target + levels) 0 :=
      removed.2.mem_iff.mpr List.mem_cons_self
    have reachedHere : locate (target + 1) pool.storage.nodes levels 1
        (receipt (offset, target)).offset = some leaf := reached
    rw [reachedHere]
    simp only [taken, ne_eq, not_true_eq_false, if_false]
    rw [ascend_eq joinWord root leafLarge]
    refine ⟨member, _, shrunk, rfl, ?_⟩
    have live : pool.live.Perm
        (receipt (offset, target) :: (shrunk.blocks (target + levels) 0).map receipt) :=
      agrees.live.trans (removed.2.map receipt)
    have present : receipt (offset, target) ∈ pool.live := (agrees.mem_iff _).mpr member
    constructor
    case pages => exact agrees.pages
    case bounded => exact small
    case fits => exact removed.1
    case holds => exact rewrites.holds
    case live =>
      have erased := live.erase (receipt (offset, target))
      rw [List.erase_cons_head] at erased
      exact erased
    case counted =>
      have nonempty := List.length_pos_of_mem present
      change wrappingPred pool.storage.live = (pool.live.erase _).length
      rw [List.length_erase_of_mem present, agrees.counted, wrappingPred, if_neg (by omega)]

end Agrees

end Pool.Matches

/-- The pool of so many bytes accounts for its outstanding receipts exactly:
they are disjoint, aligned and inside, only they can be released, and a refused
release changes nothing. -/
structure Pool.Exact (pool : Pool size) (bytes : Nat) : Prop where
  apart : pool.live.Pairwise Allocation.Disjoint
  aligned : ∀ allocation ∈ pool.live, allocation.bytes ∣ allocation.offset
  inside : ∀ allocation ∈ pool.live,
    0 < allocation.bytes ∧ allocation.offset + allocation.bytes <= bytes
  released : ∀ allocation,
    (pool.storage.release false allocation).2.2 = .ok () <-> allocation ∈ pool.live
  refused : ∀ contended allocation,
    (pool.storage.release contended allocation).2.2 ≠ .ok () ->
      (pool.storage.release contended allocation).1 = pool.storage ∧
        (pool.storage.release contended allocation).2.1 = allocation
  counted : pool.storage.live = pool.live.length
  granted : ∀ request allocation,
    (pool.storage.allocate false request).2 = .ok allocation ->
      allocation.bytes = 4096 * roundedPages request ∧ request <= allocation.bytes
  exhausted : ∀ request,
    (pool.storage.allocate false request).2 = .error .exhausted <->
      ¬ ∃ start, FreeRun pool.live (bytes / 4096) (roundedPages request) start

theorem le_roundedPages (request : Nat) : request <= 4096 * roundedPages request := by
  have bound := Nat.le_pow_clog Nat.one_lt_two ((max request 1 + 4095) / 4096)
  unfold roundedPages
  omega

theorem opened_matches {bytes : Nat}
    (made : ((Storage.zeroed size).initializeStorage false bytes).2 = .ok ()) :
    ∃ rank, bytes = 4096 * 2 ^ rank ∧ (Pool.opened size bytes).Matches rank .free := by
  unfold Storage.initializeStorage at made
  simp only [Bool.false_eq_true, if_false] at made
  split at made
  case isTrue => cases made
  case isFalse valid =>
    have checks := valid
    simp only [not_or, not_not, ne_eq, Nat.not_lt, gt_iff_lt] at checks
    rcases checks with ⟨whole, ⟨rank, pagesIs⟩, _, narrow, _⟩
    have small : rank < 32 := by
      refine (Nat.pow_lt_pow_iff_right (a := 2) (by decide)).mp ?_
      omega
    refine ⟨rank, by omega, ?_⟩
    unfold Pool.opened Storage.initializeStorage
    simp only [Bool.false_eq_true, if_false, if_neg valid]
    constructor
    case pages => exact pagesIs
    case bounded => exact small
    case fits => cases rank <;> exact trivial
    case holds =>
      have word : Function.update (Storage.zeroed size).nodes 1 ((bytes / 4096).log2 + 1) 1 =
          rank + 1 := by
        rw [Function.update_self, pagesIs, Nat.log2_two_pow]
      cases rank <;> exact word
    case live => cases rank <;> exact List.Perm.refl _
    case counted => rfl

theorem perform_matches {pool : Pool size} {rank : Nat} {tree : BuddyTree}
    (agrees : pool.Matches rank tree) (call : Call) :
    ∃ after, (pool.perform call).Matches rank after := by
  cases call with
  | allocate contended bytes =>
    cases contended with
    | true =>
      rcases pool.storage.allocate_contended bytes with ⟨error, refused⟩
      simp only [Pool.perform, refused]
      exact ⟨tree, agrees⟩
    | false =>
      rcases agrees.allocate_cases bytes with
        ⟨_, refused⟩ | ⟨_, after, allocation, grown, given, _, kept⟩
      · simp only [Pool.perform, refused]
        exact ⟨tree, agrees⟩
      · simp only [Pool.perform, given]
        exact ⟨grown, kept⟩
  | release contended allocation =>
    cases contended with
    | true =>
      simp only [Pool.perform, Storage.release_contended]
      exact ⟨tree, agrees⟩
    | false =>
      rcases agrees.release_cases allocation with ⟨_, refused⟩ | ⟨_, after, shrunk, given, kept⟩
      · simp only [Pool.perform, refused]
        exact ⟨tree, agrees⟩
      · simp only [Pool.perform, given]
        exact ⟨shrunk, kept⟩

theorem run_matches {pool : Pool size} {rank : Nat} {tree : BuddyTree}
    (agrees : pool.Matches rank tree) (calls : List Call) :
    ∃ after, (calls.foldl Pool.perform pool).Matches rank after := by
  induction calls generalizing pool tree with
  | nil => exact ⟨tree, agrees⟩
  | cons call calls ih =>
    rcases perform_matches agrees call with ⟨next, kept⟩
    exact ih kept

theorem receipts_disjoint {one other : Nat × Nat} (apart : BuddyTree.Apart one other) :
    (receipt one).Disjoint (receipt other) := by
  unfold BuddyTree.Apart at apart
  simp only [Allocation.Disjoint, receipt]
  omega

theorem disjoint_symm {one other : Allocation} (disjoint : one.Disjoint other) :
    other.Disjoint one :=
  disjoint.symm

namespace Pool.Matches

variable {pool : Pool size} {rank : Nat} {tree : BuddyTree}

theorem exact (agrees : pool.Matches rank tree) : pool.Exact (4096 * 2 ^ rank) := by
  have pagesIs : 4096 * 2 ^ rank / 4096 = pool.storage.pages := by
    rw [agrees.pages]
    omega
  constructor
  case apart =>
    refine (agrees.live.pairwise_iff disjoint_symm).mpr ?_
    exact (BuddyTree.blocks_apart (dvd_zero (2 ^ rank))).map receipt
      (fun _ _ apart => receipts_disjoint apart)
  case aligned =>
    intro allocation member
    rcases List.mem_map.mp (agrees.live.mem_iff.mp member) with ⟨block, present, rfl⟩
    exact Nat.mul_dvd_mul_left 4096 (BuddyTree.blocks_within (dvd_zero (2 ^ rank)) present).2.2
  case inside =>
    intro allocation member
    rcases List.mem_map.mp (agrees.live.mem_iff.mp member) with ⟨block, present, rfl⟩
    have within := BuddyTree.blocks_within (dvd_zero (2 ^ rank)) present
    have positive : 0 < 2 ^ block.2 := Nat.two_pow_pos block.2
    simp only [receipt]
    omega
  case released =>
    intro allocation
    rcases agrees.release_cases allocation with ⟨absent, refused⟩ | ⟨present, after, _, given, _⟩
    · rw [refused]
      simp [absent]
    · rw [given]
      simp [present]
  case refused =>
    intro contended allocation failed
    cases contended with
    | true =>
      rw [Storage.release_contended]
      exact ⟨rfl, rfl⟩
    | false =>
      rcases agrees.release_cases allocation with ⟨_, refused⟩ | ⟨_, after, _, given, _⟩
      · rw [refused]
        exact ⟨rfl, rfl⟩
      · rw [given] at failed
        exact absurd rfl failed
  case counted => exact agrees.counted
  case granted =>
    intro request allocation given
    rcases agrees.allocate_cases request with
      ⟨_, refused⟩ | ⟨_, after, other, _, result, bytes, _⟩
    · rw [refused] at given
      cases given
    · rw [result] at given
      simp only [Except.ok.injEq] at given
      subst given
      exact ⟨bytes, by rw [bytes]; exact le_roundedPages request⟩
  case exhausted =>
    intro request
    rw [pagesIs]
    rcases agrees.allocate_cases request with ⟨full, refused⟩ | ⟨room, after, _, _, result, _⟩
    · rw [refused]
      simp [full]
    · rw [result]
      simp [room]

end Pool.Matches

/-- After every sequence of allocations and releases, from any set up of any
pool, the outstanding receipts are disjoint, aligned and inside, a release
succeeds exactly for an outstanding receipt, and an allocation fails exactly
when no aligned run of free pages of its size is left. -/
theorem pool_exact {bytes : Nat}
    (made : ((Storage.zeroed size).initializeStorage false bytes).2 = .ok ()) (calls : List Call) :
    (calls.foldl Pool.perform (Pool.opened size bytes)).Exact bytes := by
  rcases opened_matches made with ⟨rank, bytesAre, agrees⟩
  rcases run_matches agrees calls with ⟨tree, reached⟩
  rw [bytesAre] at reached ⊢
  exact reached.exact

/-- Eight pages, an allocation, a forged release inside it and its return. -/
theorem pool_exact_forged :
    (List.foldl Pool.perform (Pool.opened 16 (8 * 4096))
      [.allocate false 8192, .release false { offset := 4096, bytes := 4096 },
        .release false { offset := 0, bytes := 8192 }]).Exact (8 * 4096) :=
  pool_exact (by simp [Storage.initializeStorage, Storage.zeroed, show (8).isPowerOfTwo by decide]) _

end BuddyStorage
end Carrick

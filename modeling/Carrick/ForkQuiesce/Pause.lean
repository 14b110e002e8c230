import Mathlib.Data.Finset.Card
import Carrick.Foundation.Stages
import Carrick.Foundation.Word

namespace Carrick
namespace PtPause

open Foundation

/-!
# The page-table pause and the entrants it refuses

An editor that wins the election lets starving entrants out of the park, raises
the fence, edits and ends its pause.  An entrant waits in the park while the fence
is up and counts how often a pause ended and the fence was up again when it ran.

A step is one access to a flag or one acquisition of the lock of the parked
entrants.  What a thread does to data that only the lock guards is taken together
with its next access, and a wait gives the lock back and sleeps in one step.
-/

/-- How many refusals an entrant bears before it calls itself starving. -/
def entrantRefusalLimit : Nat :=
  4

structure PtQuiesce where
  coordinator : Bool
  quiescing : Bool
  parkedEntrants : Nat
  pausesEnded : Nat
  starving : Bool
deriving DecidableEq, Repr

def PtQuiesce.new : PtQuiesce where
  coordinator := false
  quiescing := false
  parkedEntrants := 0
  pausesEnded := 0
  starving := false

/-- Where a thread stands.  The first group is `park`, with the two local variables
of the call, the second `await_starving_entrants` and the pause, the third `end`. -/
inductive Place where
  | outside
  /-- About to read the fence at the head of the loop. -/
  | looking (seen refused : Nat)
  | asleep (seen refused : Nat)
  /-- Woken, and waiting for the lock. -/
  | woken (seen refused : Nat)
  /-- About to read the fence after a wake. -/
  | judging (seen refused : Nat)
  /-- Refused once more, and about to report itself starving if that is due. -/
  | storing (seen refused : Nat)
  /-- Elected, and about to read whether somebody starves. -/
  | elected
  /-- Waiting for the lock, for the first time or after a wake. -/
  | wanting
  | emptying
  | dozing
  | raising
  /-- The pause is in force. -/
  | raised
  | ending
  | lowering
  | releasing
  | notifying
  /-- A loser of the election inside `park_until`, with the lock. -/
  | visiting
deriving DecidableEq, Repr

namespace Place

def holds : Place -> Bool
  | looking _ _ | judging _ _ | storing _ _ | emptying | ending | lowering | releasing
  | notifying | visiting => true
  | _ => false

/-- What an entrant in the park has seen and borne. -/
def entrant : Place -> Option (Nat × Nat)
  | looking seen refused | asleep seen refused | woken seen refused | judging seen refused
  | storing seen refused => some (seen, refused)
  | _ => none

def coordinates : Place -> Bool
  | elected | wanting | emptying | dozing | raising | raised | ending | lowering | releasing => true
  | _ => false

/-- The fence is up from the store that raises it to the store that lowers it. -/
def fences : Place -> Bool
  | raised | ending | lowering => true
  | _ => false

/-- A pause that has not been counted as ended is certain to come, or in force. -/
def pauses : Place -> Bool
  | raising | raised | ending => true
  | _ => false

/-- The fence is lowered and the sleepers have not been told. -/
def tells : Place -> Bool
  | releasing | notifying => true
  | _ => false

def awaits : Place -> Bool
  | wanting | emptying | dozing => true
  | _ => false

/-- The effect of a wake-up on a thread. -/
def roused : Place -> Place
  | asleep seen refused => woken seen refused
  | dozing => wanting
  | place => place

end Place

structure World where
  barrier : PtQuiesce
  lock : Option Nat
  threads : Nat -> Place

def World.new : World where
  barrier := .new
  lock := none
  threads := fun _ => .outside

/-- The thread goes on to a place and the lock follows it. -/
def World.move (world : World) (thread : Nat) (place : Place) (barrier : PtQuiesce) : World where
  barrier
  lock := if place.holds then some thread
    else if (world.threads thread).holds then none else world.lock
  threads := Function.update world.threads thread place

def World.notifyAll (world : World) : World :=
  { world with threads := fun thread => (world.threads thread).roused }

/-- The end of `park`, with the lock held. -/
def World.leave (world : World) (thread : Nat) : World :=
  let parkedEntrants := world.barrier.parkedEntrants - 1
  let left := world.move thread .outside { world.barrier with parkedEntrants }
  if parkedEntrants = 0 then left.notifyAll else left

/-- The next step of a thread that is inside a call.  A thread whose pause is in
force ends it. -/
def World.go (world : World) (thread : Nat) : World :=
  let barrier := world.barrier
  match world.threads thread with
  | .looking seen refused =>
    if barrier.quiescing then world.move thread (.asleep seen refused) barrier
    else world.leave thread
  | .woken seen refused =>
    if world.lock = none then world.move thread (.judging seen refused) barrier else world
  | .judging seen refused =>
    if barrier.quiescing then
      if barrier.pausesEnded = seen then world.move thread (.asleep seen refused) barrier
      else world.move thread (.storing barrier.pausesEnded (refused + 1)) barrier
    else world.move thread (.looking barrier.pausesEnded refused) barrier
  | .storing seen refused =>
    world.move thread (.looking seen refused)
      { barrier with starving := barrier.starving || decide (entrantRefusalLimit <= refused) }
  | .elected => world.move thread (if barrier.starving then .wanting else .raising) barrier
  | .wanting => if world.lock = none then world.move thread .emptying barrier else world
  | .emptying =>
    if 0 < barrier.parkedEntrants then world.move thread .dozing barrier
    else world.move thread .raising { barrier with starving := false }
  | .raising => world.move thread .raised { barrier with quiescing := true }
  | .raised => if world.lock = none then world.move thread .ending barrier else world
  | .ending =>
    world.move thread .lowering
      { barrier with pausesEnded := (barrier.pausesEnded + 1) % wordLimit }
  | .lowering => world.move thread .releasing { barrier with quiescing := false }
  | .releasing => world.move thread .notifying { barrier with coordinator := false }
  | .notifying => (world.move thread .outside barrier).notifyAll
  | .visiting => world.move thread .outside barrier
  | .outside | .asleep _ _ | .dozing => world

inductive PauseEvent where
  | park (thread : Nat)
  | tryBecomeCoordinator (thread : Nat)
  | parkUntil (thread : Nat)
  /-- A spurious wake-up. -/
  | wake (thread : Nat)
  | go (thread : Nat)
deriving DecidableEq, Repr

def PauseEvent.run (world : World) : PauseEvent -> World
  | park thread =>
    if world.threads thread = .outside ∧ world.lock = none then
      world.move thread (.looking world.barrier.pausesEnded 0)
        { world.barrier with parkedEntrants := world.barrier.parkedEntrants + 1 }
    else world
  | tryBecomeCoordinator thread =>
    if world.threads thread = .outside ∧ world.barrier.coordinator = false then
      world.move thread .elected { world.barrier with coordinator := true }
    else world
  | parkUntil thread =>
    if world.threads thread = .outside ∧ world.lock = none then
      world.move thread .visiting world.barrier
    else world
  | wake thread =>
    match world.threads thread with
    | .asleep seen refused => world.move thread (.woken seen refused) world.barrier
    | .dozing => world.move thread .wanting world.barrier
    | _ => world
  | go thread => world.go thread

/-- The world before the event at position `n`. -/
def worldAt (events : List PauseEvent) (n : Nat) : World :=
  stage PauseEvent.run .new events n

/-! ## What a step can do -/

/-- One thread goes from a place to another and the flags follow.  The last argument
tells whether the step ends with a notification. -/
inductive Shift (world : World) : Place -> Place -> PtQuiesce -> Bool -> Prop where
  | park (free : world.lock = none) :
      Shift world .outside (.looking world.barrier.pausesEnded 0)
        { world.barrier with parkedEntrants := world.barrier.parkedEntrants + 1 } false
  | elect (vacant : world.barrier.coordinator = false) :
      Shift world .outside .elected { world.barrier with coordinator := true } false
  | visit (free : world.lock = none) : Shift world .outside .visiting world.barrier false
  | wake {seen refused : Nat} :
      Shift world (.asleep seen refused) (.woken seen refused) world.barrier false
  | rouse : Shift world .dozing .wanting world.barrier false
  | sleep {seen refused : Nat} (up : world.barrier.quiescing = true) :
      Shift world (.looking seen refused) (.asleep seen refused) world.barrier false
  | leave {seen refused : Nat} :
      Shift world (.looking seen refused) .outside
        { world.barrier with parkedEntrants := world.barrier.parkedEntrants - 1 }
        (decide (world.barrier.parkedEntrants - 1 = 0))
  | judge {seen refused : Nat} (free : world.lock = none) :
      Shift world (.woken seen refused) (.judging seen refused) world.barrier false
  | again {seen refused : Nat} (up : world.barrier.quiescing = true)
      (same : world.barrier.pausesEnded = seen) :
      Shift world (.judging seen refused) (.asleep seen refused) world.barrier false
  | refuse {seen refused : Nat} (up : world.barrier.quiescing = true)
      (ended : world.barrier.pausesEnded ≠ seen) :
      Shift world (.judging seen refused) (.storing world.barrier.pausesEnded (refused + 1))
        world.barrier false
  | pass {seen refused : Nat} (down : world.barrier.quiescing = false) :
      Shift world (.judging seen refused) (.looking world.barrier.pausesEnded refused)
        world.barrier false
  | report {seen refused : Nat} :
      Shift world (.storing seen refused) (.looking seen refused)
        { world.barrier with
          starving := world.barrier.starving || decide (entrantRefusalLimit <= refused) } false
  | await : Shift world .elected .wanting world.barrier false
  | skip (fed : world.barrier.starving = false) :
      Shift world .elected .raising world.barrier false
  | empty (free : world.lock = none) : Shift world .wanting .emptying world.barrier false
  | doze (parked : 0 < world.barrier.parkedEntrants) :
      Shift world .emptying .dozing world.barrier false
  | clear (vacant : world.barrier.parkedEntrants = 0) :
      Shift world .emptying .raising { world.barrier with starving := false } false
  | raise : Shift world .raising .raised { world.barrier with quiescing := true } false
  | finish (free : world.lock = none) : Shift world .raised .ending world.barrier false
  | count : Shift world .ending .lowering
      { world.barrier with pausesEnded := (world.barrier.pausesEnded + 1) % wordLimit } false
  | lower : Shift world .lowering .releasing { world.barrier with quiescing := false } false
  | release : Shift world .releasing .notifying { world.barrier with coordinator := false } false
  | notify : Shift world .notifying .outside world.barrier true
  | stop : Shift world .visiting .outside world.barrier false

/-- The world after a step that goes on to a place. -/
def World.shifted (world : World) (thread : Nat) (place : Place) (barrier : PtQuiesce)
    (loud : Bool) : World :=
  if loud then (world.move thread place barrier).notifyAll else world.move thread place barrier

theorem World.shifted_decide (world : World) (thread : Nat) (place : Place) (barrier : PtQuiesce)
    (parked : Nat) : world.shifted thread place barrier (decide (parked = 0)) =
      if parked = 0 then (world.move thread place barrier).notifyAll
      else world.move thread place barrier := by
  unfold World.shifted
  simp only [decide_eq_true_eq]

/-- What one event makes of a world. -/
inductive Outcome (world : World) (thread : Nat) : World -> Prop where
  | idle : Outcome world thread world
  | shifted {before after : Place} {barrier : PtQuiesce} {loud : Bool}
      (here : world.threads thread = before) (shift : Shift world before after barrier loud) :
      Outcome world thread (world.shifted thread after barrier loud)

theorem go_outcome (world : World) (thread : Nat) : Outcome world thread (world.go thread) := by
  unfold World.go
  cases here : world.threads thread with
  | outside => exact .idle
  | looking seen refused =>
    dsimp only
    split_ifs with up
    · exact .shifted here (.sleep up)
    · unfold World.leave
      dsimp only
      rw [<- World.shifted_decide]
      exact .shifted here .leave
  | asleep seen refused => exact .idle
  | woken seen refused =>
    dsimp only
    split_ifs with free
    · exact .shifted here (.judge free)
    · exact .idle
  | judging seen refused =>
    dsimp only
    split_ifs with up ended
    · exact .shifted here (.again up ended)
    · exact .shifted here (.refuse up ended)
    · exact .shifted here (.pass (Bool.eq_false_iff.mpr up))
  | storing seen refused => exact .shifted here .report
  | elected =>
    dsimp only
    split_ifs with starving
    · exact .shifted here .await
    · exact .shifted here (.skip (Bool.eq_false_iff.mpr starving))
  | wanting =>
    dsimp only
    split_ifs with free
    · exact .shifted here (.empty free)
    · exact .idle
  | emptying =>
    dsimp only
    split_ifs with parked
    · exact .shifted here (.doze parked)
    · exact .shifted here (.clear (Nat.eq_zero_of_not_pos parked))
  | dozing => exact .idle
  | raising => exact .shifted here .raise
  | raised =>
    dsimp only
    split_ifs with free
    · exact .shifted here (.finish free)
    · exact .idle
  | ending => exact .shifted here .count
  | lowering => exact .shifted here .lower
  | releasing => exact .shifted here .release
  | notifying => exact .shifted here .notify
  | visiting => exact .shifted here .stop

theorem run_outcome (world : World) (event : PauseEvent) :
    ∃ thread, Outcome world thread (event.run world) := by
  cases event with
  | park thread =>
    refine ⟨thread, ?_⟩
    rw [PauseEvent.run]
    split_ifs with allowed
    · exact .shifted allowed.1 (.park allowed.2)
    · exact .idle
  | tryBecomeCoordinator thread =>
    refine ⟨thread, ?_⟩
    rw [PauseEvent.run]
    split_ifs with allowed
    · exact .shifted allowed.1 (.elect allowed.2)
    · exact .idle
  | parkUntil thread =>
    refine ⟨thread, ?_⟩
    rw [PauseEvent.run]
    split_ifs with allowed
    · exact .shifted allowed.1 (.visit allowed.2)
    · exact .idle
  | wake thread =>
    refine ⟨thread, ?_⟩
    rw [PauseEvent.run]
    split
    next here => exact .shifted here .wake
    next here => exact .shifted here .rouse
    next => exact .idle
  | go thread => exact ⟨thread, go_outcome world thread⟩

/-! ## What every step keeps -/

structure Sound (world : World) : Prop where
  held : ∀ thread, world.lock = some thread <-> (world.threads thread).holds = true
  single : ∀ thread other, (world.threads thread).coordinates = true ->
    (world.threads other).coordinates = true -> thread = other
  flagged : ∀ thread, (world.threads thread).coordinates = true ->
    world.barrier.coordinator = true
  fenced : world.barrier.quiescing = true -> ∃ thread, (world.threads thread).fences = true
  counted : ∃ parked : Finset Nat, parked.card = world.barrier.parkedEntrants ∧
    ∀ thread, thread ∈ parked <-> (world.threads thread).entrant ≠ none
  bounded : ∀ thread seen refused, (world.threads thread).entrant = some (seen, refused) ->
    refused <= entrantRefusalLimit
  reported : ∀ thread seen, (world.threads thread).entrant = some (seen, entrantRefusalLimit) ->
    world.barrier.starving = true ∨
      world.threads thread = .storing world.barrier.pausesEnded entrantRefusalLimit
  spared : ∀ thread seen, (world.threads thread).entrant = some (seen, entrantRefusalLimit) ->
    seen ≠ world.barrier.pausesEnded -> ∀ other, (world.threads other).pauses = false

structure Heard (world : World) : Prop where
  told : ∀ thread seen refused, world.threads thread = .asleep seen refused ->
    world.barrier.quiescing = true ∨ ∃ other, (world.threads other).tells = true
  dozes : ∀ thread, world.threads thread = .dozing -> 0 < world.barrier.parkedEntrants

attribute [grind =] Place.entrant

theorem Place.coordinates_of_pauses {place : Place} (pauses : place.pauses = true) :
    place.coordinates = true := by
  revert pauses
  cases place <;> simp [Place.pauses, Place.coordinates]

theorem Place.entrant_of_pauses {place : Place} (pauses : place.pauses = true) :
    place.entrant = none := by
  cases place with
  | raising | raised | ending => rfl
  | _ => cases pauses

theorem move_lock (world : World) (thread : Nat) (place : Place) (barrier : PtQuiesce) :
    (world.move thread place barrier).lock = if place.holds then some thread
      else if (world.threads thread).holds then none else world.lock :=
  rfl

@[grind =]
theorem move_threads (world : World) (thread : Nat) (place : Place) (barrier : PtQuiesce)
    (other : Nat) : (world.move thread place barrier).threads other =
      if other = thread then place else world.threads other :=
  Function.update_apply ..

namespace Sound

variable {world : World}

theorem alone (sound : Sound world) {one other : Nat} (first : (world.threads one).holds = true)
    (second : (world.threads other).holds = true) : one = other := by
  have same := (sound.held one).mpr first
  rw [(sound.held other).mpr second] at same
  exact (Option.some.inj same).symm

theorem vacant (sound : Sound world) (unparked : world.barrier.parkedEntrants = 0)
    (thread : Nat) : (world.threads thread).entrant = none := by
  obtain ⟨parked, card, members⟩ := sound.counted
  rw [unparked, Finset.card_eq_zero] at card
  by_contra inside
  have member := (members thread).mpr inside
  rw [card] at member
  exact Finset.notMem_empty thread member

/-- An entrant that has borne the limit is not refused again: the pause that it waits
for is the last one before the park is emptied. -/
theorem refused_lt (sound : Sound world) {thread seen refused : Nat}
    (here : world.threads thread = .judging seen refused) (up : world.barrier.quiescing = true)
    (ended : world.barrier.pausesEnded ≠ seen) : refused < entrantRefusalLimit := by
  have entrant : (world.threads thread).entrant = some (seen, refused) := by rw [here]; rfl
  apply lt_of_le_of_ne (sound.bounded thread seen refused entrant)
  intro limit
  rw [limit] at entrant
  obtain ⟨raiser, fences⟩ := sound.fenced up
  have unpaused := sound.spared thread seen entrant ended.symm raiser
  -- only the store that lowers the fence is left, and it is made with the lock
  have lowering : world.threads raiser = .lowering := by
    revert fences unpaused
    cases world.threads raiser <;> simp [Place.fences, Place.pauses]
  have same : thread = raiser := sound.alone (by rw [here]; rfl) (by rw [lowering]; rfl)
  rw [same, lowering] at here
  cases here

end Sound

/-! ## What a step does to each flag -/

namespace Shift

variable {world : World} {before after : Place} {barrier : PtQuiesce} {loud : Bool}
  (shift : Shift world before after barrier loud)

include shift

theorem locks (holds : after.holds = true) : before.holds = true ∨ world.lock = none := by
  cases shift with
  | park free | visit free | judge free | empty free | finish free => exact .inr free
  | _ => first | exact .inl rfl | cases holds

theorem elects (coordinates : after.coordinates = true) :
    world.barrier.coordinator = false ∧ barrier.coordinator = true ∨
      before.coordinates = true ∧ barrier.coordinator = world.barrier.coordinator := by
  cases shift with
  | elect vacant => exact .inl ⟨vacant, rfl⟩
  | _ => first | exact .inr ⟨rfl, rfl⟩ | cases coordinates

theorem resigns (down : barrier.coordinator = false) :
    world.barrier.coordinator = false ∨ before.coordinates = true := by
  cases shift with
  | elect => cases down
  | release => exact .inr rfl
  | _ => exact .inl down

theorem raises (up : barrier.quiescing = true) :
    world.barrier.quiescing = true ∨ before = .raising := by
  cases shift with
  | raise => exact .inr rfl
  | lower => cases up
  | _ => exact .inl up

theorem fences (up : barrier.quiescing = true) :
    after.fences = true ∨ before.fences = false ∧ world.barrier.quiescing = true := by
  cases shift with
  | raise | finish | count => exact .inl rfl
  | lower => cases up
  | _ => exact .inr ⟨rfl, up⟩

theorem counts {seen refused : Nat} (entrant : after.entrant = some (seen, refused)) :
    (∃ earlier, before.entrant = some (earlier, refused) ∧
      (seen = earlier ∨ seen = barrier.pausesEnded)) ∨ refused = 0 ∨
    ∃ earlier borne, before = .judging earlier borne ∧ refused = borne + 1 ∧
      after = .storing barrier.pausesEnded refused ∧ world.barrier.quiescing = true ∧
      world.barrier.pausesEnded ≠ earlier := by
  cases shift with
  | park =>
    cases entrant
    exact .inr (.inl rfl)
  | refuse up ended =>
    cases entrant
    exact .inr (.inr ⟨_, _, rfl, rfl, rfl, up, ended⟩)
  | pass =>
    cases entrant
    exact .inl ⟨_, rfl, .inr rfl⟩
  | wake | sleep | judge | again | report =>
    cases entrant
    exact .inl ⟨_, rfl, .inl rfl⟩
  | _ => cases entrant

theorem feeds (fed : barrier.starving = false) :
    world.barrier.starving = false ∨ world.barrier.parkedEntrants = 0 := by
  cases shift with
  | report => exact .inl (Bool.or_eq_false_iff.mp fed).1
  | clear vacant => exact .inr vacant
  | _ => exact .inl fed

theorem reports {seen : Nat} (storing : before = .storing seen entrantRefusalLimit) :
    barrier.starving = true := by
  cases shift with
  | report =>
    cases storing
    exact Bool.or_true _
  | _ => cases storing

theorem ends : barrier.pausesEnded = world.barrier.pausesEnded ∨ before = .ending ∧
    barrier.pausesEnded = (world.barrier.pausesEnded + 1) % wordLimit := by
  cases shift with
  | count => exact .inr ⟨rfl, rfl⟩
  | _ => exact .inl rfl

/-- Nobody goes on to raise the fence while an entrant in the park starves. -/
theorem pauses (paused : after.pauses = true) :
    barrier.pausesEnded = world.barrier.pausesEnded ∧ (before.pauses = true ∨
      world.barrier.starving = false ∨ world.barrier.parkedEntrants = 0) := by
  cases shift with
  | skip fed => exact ⟨rfl, .inr (.inl fed)⟩
  | clear vacant => exact ⟨rfl, .inr (.inr vacant)⟩
  | _ => first | exact ⟨rfl, .inl rfl⟩ | cases paused

theorem tells (told : before.tells = true) : after.tells = true ∨ loud = true := by
  cases shift with
  | release => exact .inl rfl
  | notify => exact .inr rfl
  | _ => cases told

theorem lowers (up : world.barrier.quiescing = true) :
    barrier.quiescing = true ∨ after.tells = true := by
  cases shift with
  | lower => exact .inr rfl
  | raise => exact .inl rfl
  | _ => exact .inl up

theorem sleeps {seen refused : Nat} (asleep : after = .asleep seen refused) :
    barrier.quiescing = true := by
  cases shift with
  | sleep up | again up => exact up
  | _ => cases asleep

theorem dozes (dozing : after = .dozing) : 0 < barrier.parkedEntrants := by
  cases shift with
  | doze parked => exact parked
  | _ => cases dozing

theorem leaves (parked : 0 < world.barrier.parkedEntrants) (quiet : loud = false) :
    0 < barrier.parkedEntrants := by
  cases shift with
  | park => exact Nat.succ_pos _
  | leave => exact Nat.pos_of_ne_zero (of_decide_eq_false quiet)
  | _ => exact parked

end Shift

section Shifts

variable {world : World} {thread : Nat} {before after : Place} {barrier : PtQuiesce} {loud : Bool}

theorem Sound.counted_shift (sound : Sound world) (here : world.threads thread = before)
    (shift : Shift world before after barrier loud) :
    ∃ parked : Finset Nat, parked.card = barrier.parkedEntrants ∧ ∀ other,
      other ∈ parked <-> ((world.move thread after barrier).threads other).entrant ≠ none := by
  obtain ⟨parked, card, members⟩ := sound.counted
  have inside := members thread
  cases shift with
  | park free =>
    refine ⟨insert thread parked, ?_, ?_⟩
    · rw [Finset.card_insert_of_notMem (by grind), card]
    · grind
  | leave =>
    refine ⟨parked.erase thread, ?_, ?_⟩
    · rw [Finset.card_erase_of_mem (by grind), card]
    · grind
  | _ => exact ⟨parked, card, by grind⟩

variable (here : world.threads thread = before) (shift : Shift world before after barrier loud)

include here shift

theorem Heard.moved (heard : Heard world) (quiet : loud = false) :
    Heard (world.move thread after barrier) where
  told := by
    intro sleeper seen refused asleep
    rw [move_threads] at asleep
    split_ifs at asleep with moved
    · exact .inl (shift.sleeps asleep)
    have mine : ((world.move thread after barrier).threads thread) = after :=
      Function.update_self ..
    rcases heard.told sleeper seen refused asleep with up | ⟨teller, tells⟩
    · exact (shift.lowers up).imp_right fun tells => ⟨thread, by rw [mine, tells]⟩
    · by_cases same : teller = thread
      · rw [same, here] at tells
        have telling := (shift.tells tells).resolve_right (by rw [quiet]; nofun)
        exact .inr ⟨thread, by rw [mine, telling]⟩
      · exact .inr ⟨teller, by rw [move_threads, if_neg same, tells]⟩
  dozes := by
    intro other dozing
    rw [move_threads] at dozing
    split_ifs at dozing with moved
    · exact shift.dozes dozing
    · exact shift.leaves (heard.dozes other dozing) quiet

variable (sound : Sound world)

include sound

theorem Sound.held_shift (other : Nat) : (world.move thread after barrier).lock = some other <->
    ((world.move thread after barrier).threads other).holds = true := by
  have held := sound.held
  rw [move_lock, move_threads, here]
  by_cases holds : after.holds = true
  · rw [if_pos holds, Option.some.injEq]
    split_ifs with same
    · exact ⟨fun _ => holds, fun _ => same.symm⟩
    · refine ⟨fun moved => absurd moved.symm same, fun locked => ?_⟩
      rcases shift.locks holds with mine | free
      · exact sound.alone (by rw [here, mine]) locked
      · rw [(held other).mpr locked] at free
        cases free
  · rw [if_neg holds]
    by_cases same : other = thread
    · rw [if_pos same, iff_false_right holds, same]
      split_ifs with mine
      · nofun
      · exact fun locked => mine (by rw [<- here]; exact (held thread).mp locked)
    · rw [if_neg same]
      split_ifs with mine
      · refine iff_of_false nofun fun locked => same (sound.alone locked ?_)
        rw [here, mine]
      · exact held other

theorem Sound.single_shift (one other : Nat)
    (first : ((world.move thread after barrier).threads one).coordinates = true)
    (second : ((world.move thread after barrier).threads other).coordinates = true) :
    one = other := by
  -- whoever else coordinates did so before the step, and leaves no room for a new one
  have unmoved : ∀ {rest : Nat}, after.coordinates = true -> rest ≠ thread ->
      (world.threads rest).coordinates = true -> rest = thread := by
    intro rest mine _ coordinates
    rcases shift.elects mine with ⟨vacant, _⟩ | ⟨already, _⟩
    · rw [sound.flagged rest coordinates] at vacant
      cases vacant
    · exact sound.single rest thread coordinates (by rw [here, already])
  rw [move_threads] at first second
  split_ifs at first second with moved moving moving
  · exact moved.trans moving.symm
  · exact moved.trans (unmoved first moving second).symm
  · exact (unmoved second moved first).trans moving.symm
  · exact sound.single one other first second

theorem Sound.flagged_shift (other : Nat)
    (coordinates : ((world.move thread after barrier).threads other).coordinates = true) :
    barrier.coordinator = true := by
  rw [move_threads] at coordinates
  split_ifs at coordinates with moved
  · rcases shift.elects coordinates with ⟨_, won⟩ | ⟨already, kept⟩
    · exact won
    · rw [kept]
      exact sound.flagged thread (by rw [here, already])
  · by_contra down
    rcases shift.resigns (Bool.eq_false_iff.mpr down) with vacant | resigned
    · rw [sound.flagged other coordinates] at vacant
      cases vacant
    · exact moved (sound.single other thread coordinates (by rw [here, resigned]))

theorem Sound.fenced_shift (up : barrier.quiescing = true) :
    ∃ raiser, ((world.move thread after barrier).threads raiser).fences = true := by
  rcases shift.fences up with mine | ⟨idle, raised⟩
  · exact ⟨thread, by rw [move_threads, if_pos rfl, mine]⟩
  · obtain ⟨raiser, fences⟩ := sound.fenced raised
    refine ⟨raiser, ?_⟩
    rw [move_threads, if_neg, fences]
    intro same
    rw [same, here, idle] at fences
    cases fences

theorem Sound.bounded_shift (other seen refused : Nat)
    (entrant : ((world.move thread after barrier).threads other).entrant = some (seen, refused)) :
    refused <= entrantRefusalLimit := by
  rw [move_threads] at entrant
  split_ifs at entrant with moved
  · rcases shift.counts entrant with
      ⟨earlier, kept, _⟩ | unborne | ⟨earlier, borne, judging, more, _, up, ended⟩
    · exact sound.bounded thread earlier refused (by rw [here, kept])
    · rw [unborne]
      exact Nat.zero_le _
    · rw [more]
      exact sound.refused_lt (here.trans judging) up ended
  · exact sound.bounded other seen refused entrant

omit here in
/-- The report of a starving entrant stands while an entrant is in the park. -/
theorem Sound.starves (starving : world.barrier.starving = true) {other : Nat}
    (inside : (world.threads other).entrant ≠ none) : barrier.starving = true := by
  by_contra fed
  rcases shift.feeds (Bool.eq_false_iff.mpr fed) with never | vacant
  · rw [starving] at never
    cases never
  · exact inside (sound.vacant vacant other)

theorem Sound.reported_shift (other seen : Nat)
    (entrant : ((world.move thread after barrier).threads other).entrant =
      some (seen, entrantRefusalLimit)) : barrier.starving = true ∨
    (world.move thread after barrier).threads other =
      .storing barrier.pausesEnded entrantRefusalLimit := by
  rw [move_threads] at entrant ⊢
  split_ifs at entrant ⊢ with moved
  · rcases shift.counts entrant with ⟨earlier, kept, _⟩ | unborne | ⟨_, _, _, _, storing, _⟩
    · rw [<- here] at kept
      rcases sound.reported thread earlier kept with starving | storing
      · exact .inl (sound.starves shift starving (by rw [kept]; nofun))
      · exact .inl (shift.reports (here.symm.trans storing))
    · cases unborne
    · exact .inr storing
  · rcases sound.reported other seen entrant with starving | storing
    · exact .inl (sound.starves shift starving (by rw [entrant]; nofun))
    · rcases shift.ends with same | ⟨ending, _⟩
      · rw [same]
        exact .inr storing
      · exact absurd (sound.alone (by rw [storing]; rfl) (by rw [here, ending]; rfl)) moved

theorem Sound.spared_shift (other seen : Nat)
    (entrant : ((world.move thread after barrier).threads other).entrant =
      some (seen, entrantRefusalLimit)) (stale : seen ≠ barrier.pausesEnded) (one : Nat) :
    ((world.move thread after barrier).threads one).pauses = false := by
  rw [move_threads, Bool.eq_false_iff]
  rw [move_threads] at entrant
  intro paused
  split_ifs at entrant with moved
  · rcases shift.counts entrant with ⟨earlier, kept, fresh⟩ | unborne | ⟨_, _, _, _, storing, _⟩
    · -- the entrant took the step, so whoever pauses did so before it
      split_ifs at paused with mine
      · rw [Place.entrant_of_pauses paused] at entrant
        cases entrant
      have ended := shift.ends.resolve_right (by rintro ⟨rfl, _⟩; cases kept)
      rw [fresh.resolve_right stale, ended] at stale
      rw [sound.spared thread earlier (by rw [here, kept]) stale one] at paused
      cases paused
    · cases unborne
    · rw [storing] at entrant
      cases entrant
      exact stale rfl
  split_ifs at paused with mine
  · obtain ⟨ended, pausing | fed | vacant⟩ := shift.pauses paused
    · rw [<- here, sound.spared other seen entrant (ended ▸ stale) thread] at pausing
      cases pausing
    · rcases sound.reported other seen entrant with starving | storing
      · rw [starving] at fed
        cases fed
      · rw [storing] at entrant
        cases entrant
        exact stale ended.symm
    · rw [sound.vacant vacant other] at entrant
      cases entrant
  · rcases shift.ends with ended | ⟨ending, _⟩
    · rw [sound.spared other seen entrant (ended ▸ stale) one] at paused
      cases paused
    · exact mine (sound.single one thread (Place.coordinates_of_pauses paused) (by rw [here, ending]; rfl))

theorem Sound.moved : Sound (world.move thread after barrier) where
  held := sound.held_shift here shift
  single := sound.single_shift here shift
  flagged := sound.flagged_shift here shift
  fenced := sound.fenced_shift here shift
  counted := sound.counted_shift here shift
  bounded := sound.bounded_shift here shift
  reported := sound.reported_shift here shift
  spared := sound.spared_shift here shift

end Shifts

section Notification

variable (place : Place)

theorem roused_holds : place.roused.holds = place.holds := by cases place <;> rfl

theorem roused_entrant : place.roused.entrant = place.entrant := by cases place <;> rfl

theorem roused_coordinates : place.roused.coordinates = place.coordinates := by
  cases place <;> rfl

theorem roused_fences : place.roused.fences = place.fences := by cases place <;> rfl

theorem roused_pauses : place.roused.pauses = place.pauses := by cases place <;> rfl

theorem roused_awaits : place.roused.awaits = place.awaits := by cases place <;> rfl

theorem roused_storing {seen refused : Nat} (storing : place = .storing seen refused) :
    place.roused = .storing seen refused := by
  rw [storing]
  rfl

theorem roused_ne_asleep (seen refused : Nat) : place.roused ≠ .asleep seen refused := by
  cases place <;> simp [Place.roused]

theorem roused_ne_dozing : place.roused ≠ .dozing := by
  cases place <;> simp [Place.roused]

end Notification

variable {world : World}

theorem Sound.notifyAll (sound : Sound world) : Sound world.notifyAll := by
  unfold World.notifyAll
  constructor
  all_goals simp only [roused_holds, roused_entrant, roused_coordinates, roused_fences,
    roused_pauses]
  · exact sound.held
  · exact sound.single
  · exact sound.flagged
  · exact sound.fenced
  · exact sound.counted
  · exact sound.bounded
  · intro thread seen entrant
    exact (sound.reported thread seen entrant).imp_right (roused_storing _)
  · exact sound.spared

theorem Heard.notifyAll (world : World) : Heard world.notifyAll where
  told := fun _ _ _ asleep => absurd asleep (roused_ne_asleep _ _ _)
  dozes := fun _ dozing => absurd dozing (roused_ne_dozing _)

theorem Outcome.kept {next : World} {thread : Nat} (outcome : Outcome world thread next)
    (kept : Sound world ∧ Heard world) : Sound next ∧ Heard next := by
  cases outcome with
  | idle => exact kept
  | @shifted before after barrier loud here shift =>
    have sound := kept.1.moved here shift
    unfold World.shifted
    cases loud with
    | true => exact ⟨sound.notifyAll, Heard.notifyAll _⟩
    | false => exact ⟨sound, Heard.moved here shift kept.2 rfl⟩

theorem new_kept : Sound World.new ∧ Heard World.new := by
  refine ⟨⟨?_, ?_, ?_, ?_, ⟨∅, rfl, ?_⟩, ?_, ?_, ?_⟩, ⟨?_, ?_⟩⟩ <;>
    simp [World.new, PtQuiesce.new, Place.holds, Place.coordinates, Place.entrant]

theorem worldAt_kept (events : List PauseEvent) (n : Nat) :
    Sound (worldAt events n) ∧ Heard (worldAt events n) :=
  stage_invariant (fun world => Sound world ∧ Heard world) new_kept
    (fun world event _ => (run_outcome world event).choose_spec.kept) n

theorem Outcome.cleared_vacant {next : World} {thread : Nat}
    (outcome : Outcome world thread next) (sound : Sound world)
    (starving : world.barrier.starving = true) (cleared : next.barrier.starving = false)
    (other : Nat) : (world.threads other).entrant = none := by
  cases outcome with
  | idle =>
    rw [starving] at cleared
    cases cleared
  | @shifted before after barrier loud here shift =>
    have stored : barrier.starving = false := by
      unfold World.shifted at cleared
      cases loud <;> exact cleared
    rcases shift.feeds stored with fed | unparked
    · rw [starving] at fed
      cases fed
    · exact sound.vacant unparked other

/-! ## The coordinator empties the park -/

/-- The coordinator waits for the park to empty, in a world where no sleeper
misses the fall of the fence. -/
structure Awaiting (world : World) (coordinator : Nat) : Prop where
  sound : Sound world
  heard : Heard world
  awaits : (world.threads coordinator).awaits = true

/-- Some steps of the threads that are there empty the park and let the coordinator
go on to raise the fence. -/
def Drains (world : World) (coordinator : Nat) : Prop :=
  ∃ schedule : List Nat,
    (schedule.foldl World.go world).barrier.parkedEntrants = 0 ∧
      (schedule.foldl World.go world).threads coordinator = .raising

theorem Drains.of_go {coordinator : Nat} (thread : Nat)
    (drains : Drains (world.go thread) coordinator) : Drains world coordinator := by
  obtain ⟨schedule, drained⟩ := drains
  exact ⟨thread :: schedule, drained⟩

theorem Outcome.awaits {next : World} {thread coordinator : Nat}
    (outcome : Outcome world thread next) (apart : coordinator ≠ thread)
    (awaits : (world.threads coordinator).awaits = true) :
    (next.threads coordinator).awaits = true := by
  cases outcome with
  | idle => exact awaits
  | @shifted before after barrier loud here shift =>
    have kept : (world.move thread after barrier).threads coordinator =
        world.threads coordinator := by
      rw [move_threads, if_neg apart]
    unfold World.shifted
    cases loud with
    | true =>
      change ((world.move thread after barrier).threads coordinator).roused.awaits = true
      rw [kept, roused_awaits]
      exact awaits
    | false =>
      change ((world.move thread after barrier).threads coordinator).awaits = true
      rw [kept]
      exact awaits

namespace Awaiting

variable {coordinator : Nat}

theorem coordinates (awaiting : Awaiting world coordinator) :
    (world.threads coordinator).coordinates = true := by
  have awaits := awaiting.awaits
  revert awaits
  cases world.threads coordinator <;> simp [Place.awaits, Place.coordinates]

theorem down (awaiting : Awaiting world coordinator) : world.barrier.quiescing = false := by
  by_contra up
  obtain ⟨raiser, fences⟩ := awaiting.sound.fenced (Bool.eq_true_of_not_eq_false up)
  have same : raiser = coordinator := by
    apply awaiting.sound.single raiser coordinator _ awaiting.coordinates
    revert fences
    cases world.threads raiser <;> simp [Place.fences, Place.coordinates]
  have awaits := awaiting.awaits
  rw [same] at fences
  revert fences awaits
  cases world.threads coordinator <;> simp [Place.fences, Place.awaits]

theorem go (awaiting : Awaiting world coordinator) {thread : Nat} (apart : coordinator ≠ thread) :
    Awaiting (world.go thread) coordinator where
  sound := ((go_outcome world thread).kept ⟨awaiting.sound, awaiting.heard⟩).1
  heard := ((go_outcome world thread).kept ⟨awaiting.sound, awaiting.heard⟩).2
  awaits := (go_outcome world thread).awaits apart awaiting.awaits

theorem apart (awaiting : Awaiting world coordinator) {thread : Nat} {place : Place}
    (here : world.threads thread = place) (other : place.awaits = false) :
    coordinator ≠ thread := by
  intro same
  have awaits := awaiting.awaits
  rw [same, here, other] at awaits
  cases awaits

section Emptying

variable {bound : Nat} (fewer : ∀ next, Awaiting next coordinator ->
  next.barrier.parkedEntrants < bound -> Drains next coordinator)

include fewer

section Awaiting

variable (awaiting : Awaiting world coordinator) (within : world.barrier.parkedEntrants <= bound)

include awaiting within

theorem drains_of_looking {thread seen refused : Nat}
    (here : world.threads thread = .looking seen refused) : Drains world coordinator := by
  apply Drains.of_go thread
  apply fewer _ (awaiting.go (awaiting.apart here rfl))
  have parked : world.barrier.parkedEntrants ≠ 0 := by
    intro unparked
    have outside := awaiting.sound.vacant unparked thread
    rw [here] at outside
    cases outside
  have left : (world.go thread).barrier.parkedEntrants = world.barrier.parkedEntrants - 1 := by
    simp only [World.go, here, awaiting.down, World.leave, Bool.false_eq_true, if_false]
    split_ifs <;> rfl
  omega

theorem drains_of_judging {thread seen refused : Nat}
    (here : world.threads thread = .judging seen refused) : Drains world coordinator := by
  apply Drains.of_go thread
  have next : world.go thread =
      world.move thread (.looking world.barrier.pausesEnded refused) world.barrier := by
    simp [World.go, here, awaiting.down]
  have kept := awaiting.go (awaiting.apart here rfl)
  rw [next] at kept ⊢
  exact kept.drains_of_looking fewer within (by rw [move_threads, if_pos rfl])

/-- With the lock free every entrant in the park has been woken, and the next one to
take the lock leaves. -/
theorem drains_of_free (free : world.lock = none) :
    Drains world coordinator := by
  have unheld : ∀ thread, (world.threads thread).holds = false := by
    intro thread
    by_contra held
    have locked := (awaiting.sound.held thread).mpr (Bool.eq_true_of_not_eq_false held)
    rw [free] at locked
    cases locked
  by_cases unparked : world.barrier.parkedEntrants = 0
  · have wanting : world.threads coordinator = .wanting := by
      have awaits := awaiting.awaits
      have unlocked := unheld coordinator
      have undozed := awaiting.heard.dozes coordinator
      revert awaits unlocked undozed
      cases world.threads coordinator <;> simp [Place.awaits, Place.holds, unparked]
    refine ⟨[coordinator, coordinator], ?_, ?_⟩ <;>
      simp [World.go, wanting, free, unparked, World.move]
  obtain ⟨parked, card, members⟩ := awaiting.sound.counted
  obtain ⟨thread, member⟩ : parked.Nonempty := by
    rw [<- Finset.card_pos, card]
    exact Nat.pos_of_ne_zero unparked
  have inside := (members thread).mp member
  have unlocked := unheld thread
  have silent : ∀ seen refused, world.threads thread ≠ .asleep seen refused := by
    intro seen refused asleep
    rcases awaiting.heard.told thread seen refused asleep with up | ⟨teller, tells⟩
    · rw [awaiting.down] at up
      cases up
    · have telling := unheld teller
      revert tells telling
      cases world.threads teller <;> simp [Place.tells, Place.holds]
  obtain ⟨seen, refused, here⟩ : ∃ seen refused, world.threads thread = .woken seen refused := by
    revert inside unlocked silent
    cases world.threads thread <;> simp [Place.entrant, Place.holds]
  apply Drains.of_go thread
  have next : world.go thread = world.move thread (.judging seen refused) world.barrier := by
    simp [World.go, here, free]
  have kept := awaiting.go (awaiting.apart here rfl)
  rw [next] at kept ⊢
  exact kept.drains_of_judging fewer within (by rw [move_threads, if_pos rfl])

theorem drains_of_held {thread : Nat} (locked : world.lock = some thread) :
    Drains world coordinator := by
  have holds := (awaiting.sound.held thread).mp locked
  have single := awaiting.sound.single thread coordinator
  cases here : world.threads thread with
  | looking seen refused => exact awaiting.drains_of_looking fewer within here
  | judging seen refused => exact awaiting.drains_of_judging fewer within here
  | storing seen refused =>
    apply Drains.of_go thread
    have kept := awaiting.go (awaiting.apart here rfl)
    simp only [World.go, here] at kept ⊢
    exact kept.drains_of_looking fewer within (by rw [move_threads, if_pos rfl])
  | emptying =>
    have same := single (by rw [here]; rfl) awaiting.coordinates
    subst same
    by_cases parked : 0 < world.barrier.parkedEntrants
    · apply Drains.of_go thread
      have kept := (go_outcome world thread).kept ⟨awaiting.sound, awaiting.heard⟩
      have next : world.go thread = world.move thread .dozing world.barrier := by
        simp [World.go, here, parked]
      rw [next] at kept ⊢
      have still : Awaiting (world.move thread .dozing world.barrier) thread :=
        ⟨kept.1, kept.2, by rw [move_threads, if_pos rfl]; rfl⟩
      exact still.drains_of_free fewer within (by simp [move_lock, here, Place.holds])
    · refine ⟨[thread], ?_, ?_⟩ <;> simp [World.go, here, parked, World.move]
      omega
  | notifying =>
    apply Drains.of_go thread
    have kept := awaiting.go (awaiting.apart here rfl)
    simp only [World.go, here] at kept ⊢
    exact kept.drains_of_free fewer within (by simp [World.notifyAll, move_lock, here, Place.holds])
  | visiting =>
    apply Drains.of_go thread
    have kept := awaiting.go (awaiting.apart here rfl)
    simp only [World.go, here] at kept ⊢
    exact kept.drains_of_free fewer within (by simp [move_lock, here, Place.holds])
  | ending | lowering | releasing =>
    exact absurd (single (by rw [here]; rfl) awaiting.coordinates).symm
      (awaiting.apart here rfl)
  | _ =>
    rw [here] at holds
    cases holds

end Awaiting

end Emptying

theorem drains (awaiting : Awaiting world coordinator) : Drains world coordinator := by
  generalize size : world.barrier.parkedEntrants = bound
  induction bound using Nat.strong_induction_on generalizing world with
  | _ bound ih =>
    have fewer : ∀ next, Awaiting next coordinator ->
        next.barrier.parkedEntrants < bound -> Drains next coordinator :=
      fun next kept less => ih _ less kept rfl
    cases locked : world.lock with
    | none => exact awaiting.drains_of_free fewer (Nat.le_of_eq size) locked
    | some thread => exact awaiting.drains_of_held fewer (Nat.le_of_eq size) locked

end Awaiting

end PtPause
end Carrick

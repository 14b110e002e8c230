import Carrick.ForkQuiesce.Pause

namespace Carrick
namespace PtPause

open Foundation

/-!
# How often an entrant is refused

An entrant is refused when it goes back to sleep although a pause has ended since it
last went to sleep: the end woke it and it found the fence raised again.  The counter
of `park` is raised by the read of the fence after the wake.  If that read finds the
fence down and a coordinator raises it before the read at the head of the loop, the
entrant sleeps again and its counter stays as it is, so nothing bounds how often this
happens in one park.

An observer of the run keeps the true number beside every thread.  In the runs in which
no coordinator steps between the two reads the counter agrees with the observer, and the
entrant is refused at most four times.
-/

/-- What an observer has counted for a thread in the park that it is in now: its
refusals, and the pauses that ended since it went to sleep. -/
structure Wait where
  refusals : Nat
  ended : Nat

namespace Place

def rests : Place -> Bool
  | asleep _ _ => true
  | _ => false

def looks : Place -> Bool
  | looking _ _ => true
  | _ => false

def judges : Place -> Bool
  | judging _ _ => true
  | _ => false

end Place

/-- The account of a thread after one step of the run. -/
def Wait.next (wait : Wait) (before after : World) (thread : Nat) : Wait :=
  if (after.threads thread).entrant = none then ⟨0, 0⟩
  else if (before.threads thread).rests = false ∧ (after.threads thread).rests = true then
    ⟨if wait.ended = 0 then wait.refusals else wait.refusals + 1, 0⟩
  else if after.barrier.pausesEnded = before.barrier.pausesEnded then wait
  else ⟨wait.refusals, wait.ended + 1⟩

structure Watched where
  world : World
  waits : Nat -> Wait

def Watched.run (watched : Watched) (event : PauseEvent) : Watched where
  world := event.run watched.world
  waits := fun thread =>
    (watched.waits thread).next watched.world (event.run watched.world) thread

/-- The run with its observer, before the event at position `n`. -/
def watchedAt (events : List PauseEvent) (n : Nat) : Watched :=
  stage Watched.run ⟨.new, fun _ => ⟨0, 0⟩⟩ events n

theorem watchedAt_world (events : List PauseEvent) (n : Nat) :
    (watchedAt events n).world = worldAt events n := by
  induction n with
  | zero => rfl
  | succ n ih =>
    unfold watchedAt worldAt at ih ⊢
    cases present : events[n]? with
    | none => rw [stage_past present, stage_past present, ih]
    | some event =>
      rw [stage_next present, stage_next present, <- ih]
      rfl

/-- The step does not raise the fence while an entrant that an ended pause has woken
stands between its two reads of it, and an entrant that reads the number of ended pauses
has not slept while that number came round. -/
def Calm (watched : Watched) : PauseEvent -> Prop
  | .go thread =>
    (watched.world.threads thread = .raising -> ∀ holder ∈ watched.world.lock,
      (watched.world.threads holder).looks = true -> (watched.waits holder).ended = 0) ∧
    ((watched.world.threads thread).judges = true -> (watched.waits thread).ended < wordLimit)
  | _ => True

instance (watched : Watched) : ∀ event, Decidable (Calm watched event)
  | .go _ => inferInstanceAs (Decidable (_ ∧ _))
  | .park _ | .tryBecomeCoordinator _ | .parkUntil _ | .wake _ => inferInstanceAs (Decidable True)

/-! ## The counter agrees with the observer -/

/-- What the counter of an entrant says about its account. -/
def Accounted (barrier : PtQuiesce) (wait : Wait) : Place -> Prop
  | .looking seen refused => seen = barrier.pausesEnded ∧ wait.refusals <= refused ∧
      (barrier.quiescing = true -> wait.ended ≠ 0 -> wait.refusals < refused)
  | .storing seen refused => seen = barrier.pausesEnded ∧ wait.refusals < refused
  | .asleep seen refused | .woken seen refused | .judging seen refused =>
      barrier.pausesEnded % wordLimit = (seen + wait.ended) % wordLimit ∧
        wait.refusals <= refused
  | _ => wait = ⟨0, 0⟩

theorem accounted_none {barrier : PtQuiesce} {place : Place} (absent : place.entrant = none) :
    Accounted barrier ⟨0, 0⟩ place := by
  cases place with
  | looking | storing | asleep | woken | judging => cases absent
  | _ => rfl

section Accounts

variable {wait : Wait} {before after : World} {thread : Nat}

theorem Wait.next_none (absent : (after.threads thread).entrant = none) :
    wait.next before after thread = ⟨0, 0⟩ :=
  if_pos absent

theorem Wait.next_awake (inside : (after.threads thread).entrant ≠ none)
    (awake : (after.threads thread).rests = true -> (before.threads thread).rests = true) :
    wait.next before after thread =
      if after.barrier.pausesEnded = before.barrier.pausesEnded then wait
      else ⟨wait.refusals, wait.ended + 1⟩ := by
  rw [Wait.next, if_neg inside, if_neg]
  rintro ⟨unrested, rested⟩
  rw [awake rested] at unrested
  cases unrested

theorem Wait.next_asleep (unrested : (before.threads thread).rests = false)
    (rested : (after.threads thread).rests = true) :
    wait.next before after thread =
      ⟨if wait.ended = 0 then wait.refusals else wait.refusals + 1, 0⟩ := by
  rw [Wait.next, if_neg, if_pos ⟨unrested, rested⟩]
  intro absent
  revert absent rested
  cases after.threads thread <;> simp [Place.entrant, Place.rests]

theorem counted_next {ended seen counted : Nat}
    (same : counted % wordLimit = (seen + ended) % wordLimit) :
    (counted + 1) % wordLimit % wordLimit = (seen + (ended + 1)) % wordLimit := by
  rw [Nat.mod_mod, Nat.add_mod, same, <- Nat.add_mod, Nat.add_assoc]

/-- A thread that another one's step leaves where it is, or wakes, stays accounted. -/
theorem Accounted.kept (accounted : Accounted before.barrier wait (before.threads thread))
    (place : after.threads thread = before.threads thread ∨
      after.threads thread = (before.threads thread).roused)
    (fence : after.barrier.quiescing = true -> before.barrier.quiescing = true ∨
      ((before.threads thread).looks = true -> wait.ended = 0))
    (count : after.barrier.pausesEnded = before.barrier.pausesEnded ∨
      (before.threads thread).holds = false ∧
        after.barrier.pausesEnded = (before.barrier.pausesEnded + 1) % wordLimit) :
    Accounted after.barrier (wait.next before after thread) (after.threads thread) := by
  by_cases absent : (after.threads thread).entrant = none
  · rw [Wait.next_none absent]
    exact accounted_none absent
  have awake : (after.threads thread).rests = true -> (before.threads thread).rests = true := by
    rcases place with same | roused
    · rw [same]
      exact id
    · rw [roused]
      cases before.threads thread with
      | asleep => exact fun _ => rfl
      | _ => exact id
  rw [Wait.next_awake absent awake]
  cases here : before.threads thread with
  | looking seen refused =>
    rw [here] at accounted place fence count
    have counted := count.resolve_right (fun free => absurd free.1 nofun)
    rw [if_pos counted, place.elim id id]
    refine ⟨accounted.1.trans counted.symm, accounted.2.1, fun up stale => ?_⟩
    exact accounted.2.2 ((fence up).resolve_right fun unended => stale (unended rfl)) stale
  | storing seen refused =>
    rw [here] at accounted place count
    have counted := count.resolve_right (fun free => absurd free.1 nofun)
    rw [if_pos counted, place.elim id id]
    exact ⟨accounted.1.trans counted.symm, accounted.2⟩
  | asleep seen refused | woken seen refused | judging seen refused =>
    rw [here] at accounted place
    have kept : Accounted after.barrier (if after.barrier.pausesEnded = before.barrier.pausesEnded
        then wait else ⟨wait.refusals, wait.ended + 1⟩) (.woken seen refused) := by
      split_ifs with same
      · exact ⟨by rw [same]; exact accounted.1, accounted.2⟩
      · refine ⟨?_, accounted.2⟩
        rw [(count.resolve_left same).2]
        exact counted_next accounted.1
    rcases place with place | place <;> rw [place] <;> exact kept
  | _ =>
    rw [here] at place
    rcases place with place | place <;> rw [place] at absent <;> exact absurd rfl absent

end Accounts

section Steps

variable {world : World} {thread : Nat} {before after : Place} {barrier : PtQuiesce} {loud : Bool}
  {waits : Nat -> Wait}

theorem shifted_threads (world : World) (thread : Nat) (place : Place) (barrier : PtQuiesce)
    (loud : Bool) (other : Nat) : (world.shifted thread place barrier loud).threads other =
      if loud then ((world.move thread place barrier).threads other).roused
      else (world.move thread place barrier).threads other := by
  cases loud <;> rfl

theorem shifted_barrier (world : World) (thread : Nat) (place : Place) (barrier : PtQuiesce)
    (loud : Bool) : (world.shifted thread place barrier loud).barrier = barrier := by
  cases loud <;> rfl

theorem Shift.outside_of_loud (shift : Shift world before after barrier loud)
    (noisy : loud = true) : after = .outside := by
  cases shift with
  | leave | notify => rfl
  | _ => cases noisy

/-- The thread that takes the step stays accounted: a refusal that the observer sees was
counted by the read after the wake. -/
theorem Shift.accounted (shift : Shift world before after barrier loud) {wait : Wait}
    (here : world.threads thread = before) (accounted : Accounted world.barrier wait before)
    (calm : before.judges = true -> wait.ended < wordLimit) :
    Accounted barrier (wait.next world (world.move thread after barrier) thread) after := by
  have there : (world.move thread after barrier).threads thread = after :=
    Function.update_self ..
  have stays : after.entrant ≠ none -> after.rests = false ->
      barrier.pausesEnded = world.barrier.pausesEnded ->
      wait.next world (world.move thread after barrier) thread = wait := by
    intro inside awake same
    rw [Wait.next_awake (by rw [there]; exact inside) (by rw [there, awake]; nofun)]
    exact if_pos same
  have falls : before.rests = false -> after.rests = true ->
      wait.next world (world.move thread after barrier) thread =
        ⟨if wait.ended = 0 then wait.refusals else wait.refusals + 1, 0⟩ := by
    intro awake asleep
    exact Wait.next_asleep (by rw [here, awake]) (by rw [there, asleep])
  cases shift with
  | park free =>
    rw [stays nofun rfl rfl, show wait = ⟨0, 0⟩ from accounted]
    exact ⟨rfl, le_rfl, fun _ stale => absurd rfl stale⟩
  | wake | judge free =>
    rw [stays nofun rfl rfl]
    exact accounted
  | sleep up =>
    rw [falls rfl rfl]
    refine ⟨by rw [accounted.1]; rfl, ?_⟩
    dsimp only
    split_ifs with unended
    · exact accounted.2.1
    · exact accounted.2.2 up unended
  | again up same =>
    rw [falls rfl rfl, if_pos]
    · exact ⟨by rw [same]; rfl, accounted.2⟩
    -- the number of ended pauses is as it was, and it did not come round
    have counted := accounted.1
    have within := calm rfl
    unfold wordLimit at counted within
    omega
  | refuse up ended =>
    rw [stays nofun rfl rfl]
    exact ⟨rfl, Nat.lt_succ_of_le accounted.2⟩
  | pass down =>
    rw [stays nofun rfl rfl]
    refine ⟨rfl, accounted.2, fun up => ?_⟩
    rw [down] at up
    cases up
  | report =>
    rw [stays nofun rfl rfl]
    exact ⟨accounted.1, accounted.2.le, fun _ _ => accounted.2⟩
  | _ =>
    rw [Wait.next_none (by rw [there]; rfl)]
    exact accounted_none rfl

end Steps

/-- Every thread's account is what its counter says. -/
def Watched.Balanced (watched : Watched) : Prop :=
  ∀ thread, Accounted watched.world.barrier (watched.waits thread) (watched.world.threads thread)

theorem Watched.Balanced.idle {watched : Watched} (balanced : watched.Balanced) (other : Nat) :
    Accounted watched.world.barrier
      ((watched.waits other).next watched.world watched.world other)
      (watched.world.threads other) :=
  (balanced other).kept (.inl rfl) .inl (.inl rfl)

theorem Watched.Balanced.shifted {watched : Watched} (balanced : watched.Balanced)
    (sound : Sound watched.world) {thread : Nat} {before after : Place} {barrier : PtQuiesce}
    {loud : Bool} (here : watched.world.threads thread = before)
    (shift : Shift watched.world before after barrier loud)
    (unraised : before = .raising -> ∀ holder ∈ watched.world.lock,
      (watched.world.threads holder).looks = true -> (watched.waits holder).ended = 0)
    (within : before.judges = true -> (watched.waits thread).ended < wordLimit) (other : Nat) :
    Accounted (watched.world.shifted thread after barrier loud).barrier
      ((watched.waits other).next watched.world
        (watched.world.shifted thread after barrier loud) other)
      ((watched.world.shifted thread after barrier loud).threads other) := by
  by_cases same : other = thread
  · subst same
    have moved := shift.accounted here (here ▸ balanced other) within
    cases noisy : loud with
    | true =>
      have left : ((watched.world.shifted other after barrier true).threads other) = .outside := by
        rw [shifted_threads, if_pos rfl, move_threads, if_pos rfl, shift.outside_of_loud noisy]
        rfl
      rw [left, Wait.next_none (by rw [left]; rfl)]
      exact accounted_none rfl
    | false =>
      rw [shifted_threads, shifted_barrier, if_neg Bool.false_ne_true, move_threads, if_pos rfl]
      exact moved
  · apply (balanced other).kept
    · rw [shifted_threads, move_threads, if_neg same]
      cases loud with
      | true => exact .inr rfl
      | false => exact .inl rfl
    · rw [shifted_barrier]
      intro up
      refine (shift.raises up).imp_right fun raising looks => ?_
      refine unraised raising other ((sound.held other).mpr ?_) looks
      revert looks
      cases watched.world.threads other <;> simp [Place.looks, Place.holds]
    · rw [shifted_barrier]
      refine shift.ends.imp_right ?_
      rintro ⟨ending, counted⟩
      refine ⟨?_, counted⟩
      by_contra holds
      exact same (sound.alone (Bool.eq_true_of_not_eq_false holds) (by rw [here, ending]; rfl))

theorem Calm.balanced {watched : Watched} {event : PauseEvent} (calm : Calm watched event)
    (sound : Sound watched.world) (balanced : watched.Balanced) :
    (watched.run event).Balanced := by
  unfold Watched.Balanced Watched.run
  dsimp only
  cases event with
  | park thread =>
    rw [PauseEvent.run]
    split_ifs with allowed
    · exact balanced.shifted sound allowed.1 (.park allowed.2) (fun raising => by cases raising)
        (fun judges => by cases judges)
    · exact balanced.idle
  | tryBecomeCoordinator thread =>
    rw [PauseEvent.run]
    split_ifs with allowed
    · exact balanced.shifted sound allowed.1 (.elect allowed.2) (fun raising => by cases raising)
        (fun judges => by cases judges)
    · exact balanced.idle
  | parkUntil thread =>
    rw [PauseEvent.run]
    split_ifs with allowed
    · exact balanced.shifted sound allowed.1 (.visit allowed.2) (fun raising => by cases raising)
        (fun judges => by cases judges)
    · exact balanced.idle
  | wake thread =>
    rw [PauseEvent.run]
    split
    next here =>
      exact balanced.shifted sound here .wake (fun raising => by cases raising)
        (fun judges => by cases judges)
    next here =>
      exact balanced.shifted sound here .rouse (fun raising => by cases raising)
        (fun judges => by cases judges)
    next => exact balanced.idle
  | go thread =>
    rw [PauseEvent.run]
    have outcome := go_outcome watched.world thread
    generalize watched.world.go thread = next at outcome ⊢
    cases outcome with
    | idle => exact balanced.idle
    | shifted here shift =>
      refine balanced.shifted sound here shift ?_ ?_
      · rw [<- here]
        exact calm.1
      · rw [<- here]
        exact calm.2

theorem Accounted.refusals_le {barrier : PtQuiesce} {wait : Wait} {place : Place}
    (accounted : Accounted barrier wait place) {bound : Nat}
    (bounded : ∀ seen refused, place.entrant = some (seen, refused) -> refused <= bound) :
    wait.refusals <= bound := by
  cases place with
  | looking seen refused => exact accounted.2.1.trans (bounded seen refused rfl)
  | storing seen refused => exact accounted.2.le.trans (bounded seen refused rfl)
  | asleep seen refused | woken seen refused | judging seen refused =>
    exact accounted.2.trans (bounded seen refused rfl)
  | _ =>
    rw [show wait = ⟨0, 0⟩ from accounted]
    exact Nat.zero_le _

/-! ## Bounded waiting -/

/-- In a calm run an entrant is refused at most four times in one park.  In every run the
report of a starving entrant is taken back only when nobody is in the park, and the
coordinator that waits for the entrants is never stuck with them. -/
theorem entrants_wait_boundedly (events : List PauseEvent) (n : Nat) :
    ((∀ k < n, ∀ event ∈ events[k]?, Calm (watchedAt events k) event) ->
      ∀ thread, ((watchedAt events n).waits thread).refusals <= entrantRefusalLimit) ∧
    (∀ event : PauseEvent, (worldAt events n).barrier.starving = true ->
      (event.run (worldAt events n)).barrier.starving = false ->
        ∀ thread, ((worldAt events n).threads thread).entrant = none) ∧
    (∀ coordinator, ((worldAt events n).threads coordinator).awaits = true ->
      Drains (worldAt events n) coordinator) := by
  obtain ⟨sound, heard⟩ := worldAt_kept events n
  refine ⟨fun calm thread => ?_, ?_, fun _ awaits => Awaiting.drains ⟨sound, heard, awaits⟩⟩
  · have balanced : (watchedAt events n).Balanced :=
      stage_keeps_between Watched.Balanced (Nat.zero_le n)
        (fun k event _ before present balanced => (calm k before event present).balanced
          (watchedAt_world events k ▸ (worldAt_kept events k).1) balanced)
        (fun _ => rfl)
    have accounted := balanced thread
    rw [watchedAt_world] at accounted
    exact accounted.refusals_le (sound.bounded thread)
  · intro event starving cleared
    obtain ⟨thread, outcome⟩ := run_outcome (worldAt events n) event
    exact outcome.cleared_vacant sound starving cleared

/-- The coordinator raises the fence, the entrant `0` parks behind it, and as often as
asked a pause ends and the coordinator and the entrant take the given steps. -/
def parkedRun (rounds : Nat) (steps : List PauseEvent) : List PauseEvent :=
  [.tryBecomeCoordinator 1, .go 1, .go 1, .park 0, .go 0] ++
    (List.replicate rounds (List.replicate 5 (.go 1) ++ steps)).flatten

/-- The fence is up again before the entrant runs, four times, and the coordinator that
is elected after that waits for the park to empty. -/
def starvingRun : List PauseEvent :=
  parkedRun 4 [.tryBecomeCoordinator 1, .go 1, .go 1, .go 0, .go 0, .go 0, .go 0] ++
    List.replicate 5 (.go 1) ++ [.tryBecomeCoordinator 1, .go 1, .go 1, .go 1]

theorem entrants_wait_boundedly_starving :
    ((watchedAt starvingRun 62).waits 0).refusals = 4 ∧
    (worldAt starvingRun 62).barrier.starving = true ∧
    (worldAt starvingRun 62).threads 1 = .dozing ∧
    (∀ thread, ((watchedAt starvingRun 62).waits thread).refusals <= entrantRefusalLimit) ∧
    Drains (worldAt starvingRun 62) 1 := by
  have waits := entrants_wait_boundedly starvingRun 62
  exact ⟨by decide +kernel, by decide +kernel, by decide +kernel, waits.1 (by decide +kernel),
    waits.2.2 1 (by decide +kernel)⟩

/-- The entrant reads the fence down after each wake and up at the head of the loop. -/
def unluckyRun : List PauseEvent :=
  parkedRun 5 [.go 0, .go 0, .tryBecomeCoordinator 1, .go 1, .go 1, .go 0]

/-- Five refusals in one park, and not one of them is counted. -/
theorem refusals_pass_the_limit :
    entrantRefusalLimit < ((watchedAt unluckyRun 60).waits 0).refusals ∧
    (worldAt unluckyRun 60).threads 0 = .asleep 5 0 ∧
    (worldAt unluckyRun 60).barrier.starving = false := by
  decide +kernel

end PtPause
end Carrick

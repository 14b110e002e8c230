import Carrick.Foundation.Run
import Carrick.Foundation.Word

namespace Carrick
namespace Signal

open Foundation

/-!
# Host interval timers

The three timers of a process each have a slot whose every transition runs
under the slot's gate: arming, disarming, a timer event of the host's kqueue,
a poll of the guest CPU clock, and the reading of the current arm that the
signal pump registers.  A wall timer whose first expiry differs from its
interval is registered as a one-shot, and the first expiry switches it to a
periodic registration exactly once.

What the pump registers last is part of the state.  Events may come late, twice
or for an arm that is gone, so an event is any generation at any time.
-/

def whichCount : Nat := 3
def timerIdentBase : Nat := 0x00C10000
def cpuTimerMaxRecheckNs : Nat := 1000000
def timerArmAdd : Nat := 0x0001
def timerArmOneshot : Nat := 0x0010

/-- First expiry and repeat period.  A zero first expiry disarms instead of
arming, so an arm has a positive one. -/
structure TimerSpecNs where
  value : Nat
  interval : Nat
  arms : 0 < value

structure ItimerSlot where
  generation : Nat
  valueNs : Nat
  intervalNs : Nat
  armed : Bool
  needsPeriodic : Bool
  cpuDueNs : Nat
  liveIdent : Nat

inductive FireOutcome where
  | fired
  | wait (delayNs : Nat)
  | retired

inductive KqueueRearm where
  | oneShot (delayNs : Nat)
  | periodic (intervalNs : Nat)

inductive CpuTimerDecision where
  | fire
  | wait (delayNs : Nat)

structure TimerArm where
  ident : Nat
  flags : Nat
  delayNs : Nat
  generation : Nat

/-- A registration without the one-shot flag fires until it is deleted. -/
def TimerArm.repeats (arm : TimerArm) : Bool := arm.flags &&& timerArmOneshot == 0

def identFor (which : Nat) : Nat := timerIdentBase + which

/-- A fresh ident: `epoch` is the value drawn from the process-wide counter. -/
def nextIdent (epoch which : Nat) : Nat :=
  timerIdentBase + epoch * whichCount % wordLimit + which

def isCpuTimer (which : Nat) : Bool := which == 1 || which == 2

def cpuTimerRecheckDelayWithActive (remainingCpuNs activeVcpus : Nat) : Nat :=
  let scaled := if 1 < activeVcpus then (remainingCpuNs + activeVcpus - 1) / activeVcpus
    else remainingCpuNs
  max 1 (min scaled cpuTimerMaxRecheckNs)

def cpuTimerRecheckDelayNs (remainingCpuNs : Nat) : Nat :=
  cpuTimerRecheckDelayWithActive remainingCpuNs 1

namespace ItimerSlot

def new : ItimerSlot := ⟨0, 0, 0, false, false, 0, 0⟩

def isCurrent (slot : ItimerSlot) (generation : Nat) : Bool :=
  slot.generation == generation && slot.armed

def disarm (slot : ItimerSlot) : ItimerSlot :=
  ⟨(slot.generation + 1) % wordLimit, 0, 0, false, false, 0, 0⟩

/-- Retire a spent one-shot; a periodic arm stays armed. -/
def completeFire (slot : ItimerSlot) : ItimerSlot × Bool :=
  if slot.intervalNs = 0 then (slot.disarm, true) else (slot, false)

def cpuDecision (slot : ItimerSlot) (nowNs activeVcpus : Nat) : ItimerSlot × CpuTimerDecision :=
  if slot.cpuDueNs = 0 then (slot, .fire)
  else if nowNs < slot.cpuDueNs then
    (slot, .wait (cpuTimerRecheckDelayWithActive (slot.cpuDueNs - nowNs) activeVcpus))
  else if 0 < slot.intervalNs then
    ({ slot with cpuDueNs := saturatingAdd nowNs slot.intervalNs }, .fire)
  else ({ slot with cpuDueNs := 0 }, .fire)

def armWithCpuNow (slot : ItimerSlot) (which : Nat) (spec : TimerSpecNs) (needsPeriodic : Bool)
    (cpuNowNs epoch : Nat) : ItimerSlot where
  generation := (slot.generation + 1) % wordLimit
  valueNs := spec.value
  intervalNs := spec.interval
  armed := true
  needsPeriodic := needsPeriodic
  cpuDueNs := if isCpuTimer which then saturatingAdd cpuNowNs spec.value else 0
  liveIdent := nextIdent epoch which

/-- The current arm as the pump registers it. -/
def currentArm (slot : ItimerSlot) (which : Nat) : Option TimerArm :=
  if slot.armed = false ∨ slot.valueNs = 0 then none
  else
    let flags :=
      if slot.intervalNs ≠ 0 ∧ slot.needsPeriodic = false ∧ slot.valueNs = slot.intervalNs ∧
          isCpuTimer which = false then timerArmAdd
      else timerArmAdd ||| timerArmOneshot
    let delayNs := if isCpuTimer which then cpuTimerRecheckDelayNs slot.valueNs else slot.valueNs
    some ⟨if slot.liveIdent = 0 then identFor which else slot.liveIdent, flags,
      min delayNs 0x7fffffffffffffff, slot.generation⟩

end ItimerSlot

/-- What one attempt to fire does: whether it ran the delivery callback, and
what it asks the pump to register. -/
structure Fire where
  slot : ItimerSlot
  outcome : FireOutcome
  delivered : Bool
  rearm : Option KqueueRearm

def Fire.refused (slot : ItimerSlot) : Fire := ⟨slot, .retired, false, none⟩

/-- A spent one-shot is retired before its delivery. -/
def ItimerSlot.fire (slot : ItimerSlot) : Fire :=
  let completed := slot.completeFire
  ⟨completed.1, if completed.2 then .retired else .fired, true, none⟩

def ItimerSlot.fireCpuIfCurrent (slot : ItimerSlot) (which generation nowNs activeVcpus : Nat) :
    Fire :=
  if isCpuTimer which = false ∨ slot.isCurrent generation = false then .refused slot
  else
    match slot.cpuDecision nowNs activeVcpus with
    | (later, .wait delayNs) => ⟨later, .wait delayNs, false, none⟩
    | (later, .fire) => later.fire

/-- A wall timer switches to its periodic registration at its first expiry. -/
def ItimerSlot.requestRearm (slot : ItimerSlot) (which : Nat) : ItimerSlot × Option KqueueRearm :=
  if isCpuTimer which then (slot, some (.oneShot (cpuTimerRecheckDelayNs slot.intervalNs)))
  else if slot.needsPeriodic then
    ({ slot with needsPeriodic := false }, some (.periodic slot.intervalNs))
  else (slot, none)

def ItimerSlot.fireKqueueIfCurrent (slot : ItimerSlot)
    (which generation nowNs activeVcpus : Nat) : Fire :=
  if slot.isCurrent generation = false then .refused slot
  else
    match if isCpuTimer which then slot.cpuDecision nowNs activeVcpus else (slot, .fire) with
    | (later, .wait delayNs) => ⟨later, .wait delayNs, false, some (.oneShot delayNs)⟩
    | (later, .fire) =>
      let fired := later.fire
      match fired.outcome with
      | .retired => fired
      | _ =>
        let requested := fired.slot.requestRearm which
        { fired with slot := requested.1, rearm := requested.2 }

/-! ## Runs of one table -/

/-- One timer and its registration in the kqueue: whether the host repeats it
by itself.  An arm takes a fresh ident, so it starts unregistered. -/
structure HostTimer where
  slot : ItimerSlot
  registered : Option Bool

def HostTimer.new : HostTimer := ⟨.new, none⟩

inductive TimerOp where
  | arm (spec : TimerSpecNs) (needsPeriodic : Bool) (cpuNowNs epoch : Nat)
  | disarm
  | kqueue (generation nowNs activeVcpus : Nat)
  | pollCpu (generation nowNs activeVcpus : Nat)
  | register

/-- The attempt to fire that an operation makes. -/
def HostTimer.attempt (timer : HostTimer) (which : Nat) : TimerOp -> Option Fire
  | .kqueue generation nowNs activeVcpus =>
    some (timer.slot.fireKqueueIfCurrent which generation nowNs activeVcpus)
  | .pollCpu generation nowNs activeVcpus =>
    some (timer.slot.fireCpuIfCurrent which generation nowNs activeVcpus)
  | _ => none

def HostTimer.step (which : Nat) (timer : HostTimer) (op : TimerOp) : HostTimer :=
  match op with
  | .arm spec needsPeriodic cpuNowNs epoch =>
    ⟨timer.slot.armWithCpuNow which spec needsPeriodic cpuNowNs epoch, none⟩
  | .disarm => ⟨timer.slot.disarm, none⟩
  | .kqueue generation nowNs activeVcpus =>
    let fire := timer.slot.fireKqueueIfCurrent which generation nowNs activeVcpus
    ⟨fire.slot, match fire.rearm with
      | some (.oneShot _) => some false
      | some (.periodic _) => some true
      | none => timer.registered⟩
  | .pollCpu generation nowNs activeVcpus =>
    { timer with slot := (timer.slot.fireCpuIfCurrent which generation nowNs activeVcpus).slot }
  | .register =>
    match timer.slot.currentArm which with
    | none => timer
    | some arm => { timer with registered := some arm.repeats }

/-- One operation on the table; a `which` out of range has no slot. -/
def stepTable (table : Nat -> HostTimer) (event : Nat × TimerOp) : Nat -> HostTimer :=
  if event.1 < whichCount then
    Function.update table event.1 ((table event.1).step event.1 event.2)
  else table

def tableAfter (history : List (Nat × TimerOp)) : Nat -> HostTimer :=
  replay stepTable (fun _ => HostTimer.new) history

/-- The operations of a history on one timer. -/
def opsOf (which : Nat) (history : List (Nat × TimerOp)) : List TimerOp :=
  (history.filter (fun event => event.1 = which)).map Prod.snd

theorem tableAfter_eq {which : Nat} (inRange : which < whichCount)
    (history : List (Nat × TimerOp)) :
    tableAfter history which = replay (HostTimer.step which) .new (opsOf which history) := by
  induction history with
  | nil => rfl
  | cons event earlier ih =>
    by_cases own : event.1 = which
    · simp [tableAfter, replay, stepTable, opsOf, own, inRange] at ih ⊢
      rw [ih]
    simp only [tableAfter, replay, stepTable, opsOf, own, decide_false, List.filter_cons] at ih ⊢
    split
    · rw [Function.update_of_ne (Ne.symm own)]
      exact ih
    · exact ih

/-! ## What a history says about a timer -/

section Ghost

variable (which : Nat)

def stateOf (history : List TimerOp) : HostTimer := replay (HostTimer.step which) .new history

/-- The attempt of the operation in the state after `earlier`. -/
def attemptOf (earlier : List TimerOp) (op : TimerOp) : Option Fire :=
  (stateOf which earlier).attempt which op

def lastArm : List TimerOp -> Option TimerSpecNs
  | [] => none
  | .arm spec _ _ _ :: _ => some spec
  | _ :: earlier => lastArm earlier

/-- How many attempts since the last arm had the property. -/
def sinceArm (counts : Fire -> Bool) : List TimerOp -> Nat
  | [] => 0
  | .arm _ _ _ _ :: _ => 0
  | op :: earlier => sinceArm counts earlier +
      if (attemptOf which earlier op).any counts then 1 else 0

/-- The arm an attempt was made for. -/
def TimerOp.generation : TimerOp -> Nat
  | .kqueue generation _ _ | .pollCpu generation _ _ => generation
  | _ => 0

def TimerOp.nowNs : TimerOp -> Nat
  | .kqueue _ nowNs _ | .pollCpu _ nowNs _ => nowNs
  | _ => 0

/-- When the CPU timer is due: its first expiry after the arm, and then an
interval after each delivery. -/
def dueNs : List TimerOp -> Nat
  | [] => 0
  | .arm spec _ cpuNowNs _ :: _ => saturatingAdd cpuNowNs spec.value
  | op :: earlier =>
    if (attemptOf which earlier op).any (·.delivered) then
      saturatingAdd op.nowNs (stateOf which earlier).slot.intervalNs
    else dueNs earlier

end Ghost

def Fire.switches (fire : Fire) : Bool :=
  match fire.rearm with
  | some (.periodic _) => true
  | _ => false

/-! ## One attempt -/

theorem fire_eq (slot : ItimerSlot) : slot.fire =
    if slot.intervalNs = 0 then ⟨slot.disarm, .retired, true, none⟩
    else ⟨slot, .fired, true, none⟩ := by
  unfold ItimerSlot.fire ItimerSlot.completeFire
  split <;> rfl

theorem cpuDecision_cases (slot : ItimerSlot) (nowNs activeVcpus : Nat) :
    (∃ delayNs, slot.cpuDecision nowNs activeVcpus = (slot, .wait delayNs)) ∨
    (slot.cpuDueNs <= nowNs ∧ ∃ due,
      slot.cpuDecision nowNs activeVcpus = ({ slot with cpuDueNs := due }, .fire) ∧
      (0 < slot.cpuDueNs -> slot.intervalNs ≠ 0 -> due = saturatingAdd nowNs slot.intervalNs)) := by
  unfold ItimerSlot.cpuDecision
  split_ifs with unset early repeats
  · exact .inr ⟨by omega, slot.cpuDueNs, rfl, by omega⟩
  · exact .inl ⟨_, rfl⟩
  · exact .inr ⟨by omega, _, rfl, fun _ _ => rfl⟩
  · exact .inr ⟨by omega, 0, rfl, by omega⟩

/-- What an attempt can do: nothing but ask for another look, or deliver for
the current arm, which retires a one-shot and keeps a periodic arm. -/
theorem attempt_cases {timer : HostTimer} {which : Nat} {op : TimerOp} {fire : Fire}
    (tried : timer.attempt which op = some fire) :
    (fire.delivered = false ∧ fire.slot = timer.slot ∧ fire.switches = false) ∨
    (fire.delivered = true ∧ timer.slot.armed = true ∧ timer.slot.generation = op.generation ∧
      (isCpuTimer which = true -> timer.slot.cpuDueNs <= op.nowNs) ∧
      ((timer.slot.intervalNs = 0 ∧ fire.slot.armed = false ∧ fire.slot.needsPeriodic = false ∧
          fire.switches = false) ∨
        (timer.slot.intervalNs ≠ 0 ∧ fire.slot.armed = true ∧
          fire.slot.valueNs = timer.slot.valueNs ∧ fire.slot.intervalNs = timer.slot.intervalNs ∧
          (isCpuTimer which = true -> 0 < timer.slot.cpuDueNs ->
            fire.slot.cpuDueNs = saturatingAdd op.nowNs timer.slot.intervalNs) ∧
          ((fire.switches = true ∧ timer.slot.needsPeriodic = true ∧
              fire.slot.needsPeriodic = false) ∨
            (fire.switches = false ∧ fire.slot.needsPeriodic = timer.slot.needsPeriodic))))) := by
  cases op with
  | arm | disarm | register => cases tried
  | kqueue generation nowNs activeVcpus =>
    cases tried
    simp only [ItimerSlot.fireKqueueIfCurrent, TimerOp.generation, TimerOp.nowNs]
    by_cases current : timer.slot.isCurrent generation = false
    · simp [current, Fire.refused, Fire.switches]
    simp only [if_neg current]
    simp only [ItimerSlot.isCurrent, Bool.not_eq_false, Bool.and_eq_true, beq_iff_eq] at current
    by_cases cpu : isCpuTimer which = true
    · rcases cpuDecision_cases timer.slot nowNs activeVcpus with
        ⟨delayNs, decided⟩ | ⟨reached, due, decided, following⟩
      · simp [cpu, decided, Fire.switches]
      by_cases once : timer.slot.intervalNs = 0
      · simp [cpu, decided, fire_eq, once, current, reached, ItimerSlot.disarm, Fire.switches]
      · simp [cpu, decided, fire_eq, once, current, reached, ItimerSlot.requestRearm,
          Fire.switches]
        exact fun positive => following positive once
    · by_cases once : timer.slot.intervalNs = 0
      · simp [cpu, fire_eq, once, current, ItimerSlot.disarm, Fire.switches]
      · cases owing : timer.slot.needsPeriodic <;>
          simp [cpu, fire_eq, once, current, owing, ItimerSlot.requestRearm, Fire.switches]
  | pollCpu generation nowNs activeVcpus =>
    cases tried
    simp only [ItimerSlot.fireCpuIfCurrent, TimerOp.generation, TimerOp.nowNs]
    by_cases refused : isCpuTimer which = false ∨ timer.slot.isCurrent generation = false
    · simp [refused, Fire.refused, Fire.switches]
    simp only [if_neg refused]
    simp only [ItimerSlot.isCurrent, not_or, Bool.not_eq_false, Bool.and_eq_true,
      beq_iff_eq] at refused
    rcases cpuDecision_cases timer.slot nowNs activeVcpus with
      ⟨delayNs, decided⟩ | ⟨reached, due, decided, following⟩
    · simp [decided, Fire.switches]
    · by_cases once : timer.slot.intervalNs = 0
      · simp [decided, fire_eq, once, refused, reached, ItimerSlot.disarm, Fire.switches]
      · simp [decided, fire_eq, once, refused, reached, Fire.switches]
        exact fun positive => following positive once

/-! ## Whole runs -/

/-- What holds of a timer after any history: the values of its last arm, the
deadline of a CPU timer, and at most one signal of a one-shot arm. -/
structure Disciplined (which : Nat) (history : List TimerOp) : Prop where
  armed : (stateOf which history).slot.armed = true -> ∃ spec, lastArm history = some spec ∧
    (stateOf which history).slot.valueNs = spec.value ∧
    (stateOf which history).slot.intervalNs = spec.interval
  due : isCpuTimer which = true -> (stateOf which history).slot.armed = true ->
    0 < (stateOf which history).slot.cpuDueNs ∧
      (stateOf which history).slot.cpuDueNs = dueNs which history
  oneShot : ∀ spec, lastArm history = some spec -> spec.interval = 0 ->
    sinceArm which (·.delivered) history <= 1 ∧
      ((stateOf which history).slot.armed = true -> sinceArm which (·.delivered) history = 0)
  switch : sinceArm which Fire.switches history <= 1 ∧
    ((stateOf which history).slot.needsPeriodic = true ->
      sinceArm which Fire.switches history = 0)

theorem saturatingAdd_pos {left right : Nat} (positive : 0 < right) :
    0 < saturatingAdd left right := by
  unfold saturatingAdd wordLimit
  omega

variable {which : Nat} {earlier : List TimerOp}

/-- An operation that makes an attempt, in terms of the attempt alone. -/
theorem Disciplined.attempted {op : TimerOp} {fire : Fire} (disciplined : Disciplined which earlier)
    (tried : attemptOf which earlier op = some fire)
    (moved : (stateOf which (op :: earlier)).slot = fire.slot) :
    Disciplined which (op :: earlier) := by
  have last : lastArm (op :: earlier) = lastArm earlier := by
    cases op <;> first | rfl | simp [attemptOf, HostTimer.attempt] at tried
  have count (counts : Fire -> Bool) : sinceArm which counts (op :: earlier) =
      sinceArm which counts earlier + if counts fire then 1 else 0 := by
    cases op <;> simp [attemptOf, HostTimer.attempt] at tried <;>
      simp [sinceArm, attemptOf, HostTimer.attempt, tried]
  have due : dueNs which (op :: earlier) = if fire.delivered then
      saturatingAdd op.nowNs (stateOf which earlier).slot.intervalNs else dueNs which earlier := by
    cases op <;> simp [attemptOf, HostTimer.attempt] at tried <;>
      simp [dueNs, attemptOf, HostTimer.attempt, tried]
  rcases disciplined with ⟨armed, dueSo, oneShot, switch⟩
  rcases attempt_cases tried with ⟨quiet, same, stays⟩ | ⟨loud, was, _, reached, ended⟩
  · have still := moved.trans same
    refine ⟨?_, ?_, ?_, ?_⟩
    · rw [still, last]
      exact armed
    · rw [still, due, quiet]
      exact dueSo
    · rw [still, last, count, quiet]
      exact oneShot
    · rw [still, count, stays]
      exact switch
  rcases armed was with ⟨spec, found, value, interval⟩
  rcases ended with ⟨once, off, calm, stays⟩ | ⟨repeats, on, sameValue, sameInterval, next, owes⟩
  · have retired : (stateOf which (op :: earlier)).slot.armed ≠ true := by
      rw [moved, off]
      exact Bool.false_ne_true
    refine ⟨fun live => absurd live retired, fun _ live => absurd live retired, ?_, ?_⟩
    · intro other named single
      rw [last] at named
      rw [count, loud, (oneShot other named single).2 was]
      exact ⟨Nat.le_refl 1, fun live => absurd live retired⟩
    · rw [count, stays, moved, calm]
      exact ⟨switch.1, nofun⟩
  · refine ⟨fun _ => ⟨spec, last.trans found, ?_, ?_⟩, fun cpu _ => ?_, ?_, ?_⟩
    · rw [moved, sameValue, value]
    · rw [moved, sameInterval, interval]
    · rw [moved, next cpu (dueSo cpu was).1, due, loud, if_pos rfl]
      exact ⟨saturatingAdd_pos (Nat.pos_of_ne_zero repeats), rfl⟩
    · intro other named single
      -- a one-shot has no interval, and this arm repeats
      rw [last, found] at named
      cases named
      exact absurd (interval.trans single) repeats
    · rw [count, moved]
      rcases owes with ⟨switches, owed, paid⟩ | ⟨stays, same⟩
      · rw [switches, switch.2 owed, paid]
        exact ⟨Nat.le_refl 1, nofun⟩
      · rw [stays, same]
        exact switch

theorem disciplined (which : Nat) (history : List TimerOp) : Disciplined which history := by
  induction history with
  | nil => exact ⟨nofun, fun _ => nofun, nofun, Nat.zero_le 1, nofun⟩
  | cons op earlier ih =>
    cases op with
    | arm spec needsPeriodic cpuNowNs epoch =>
      refine ⟨fun _ => ⟨spec, rfl, rfl, rfl⟩, fun cpu _ => ?_,
        fun _ _ _ => ⟨Nat.zero_le 1, fun _ => rfl⟩, Nat.zero_le 1, fun _ => rfl⟩
      simp only [stateOf, replay, HostTimer.step, ItimerSlot.armWithCpuNow, if_pos cpu]
      exact ⟨saturatingAdd_pos spec.arms, rfl⟩
    | disarm =>
      refine ⟨nofun, fun _ => nofun, fun spec named single => ⟨?_, nofun⟩, ?_, nofun⟩
      · exact (ih.oneShot spec named single).1
      · exact ih.switch.1
    | kqueue generation nowNs activeVcpus => exact ih.attempted rfl rfl
    | pollCpu generation nowNs activeVcpus => exact ih.attempted rfl rfl
    | register =>
      have same : (stateOf which (.register :: earlier)).slot = (stateOf which earlier).slot := by
        simp only [stateOf, replay, HostTimer.step]
        split <;> rfl
      refine ⟨?_, ?_, ?_, ?_⟩
      · rw [same]
        exact ih.armed
      · rw [same]
        exact ih.due
      · rw [same]
        exact ih.oneShot
      · rw [same]
        exact ih.switch

/-! ## Repeating registrations -/

/-- A registered periodic wall timer that the host repeats, or that its next
event switches to a repeating registration. -/
def HostTimer.Repeating (timer : HostTimer) : Prop :=
  timer.slot.armed = true -> timer.slot.intervalNs ≠ 0 -> ∀ repeats,
    timer.registered = some repeats -> repeats = true ∨ timer.slot.needsPeriodic = true

/-- A periodic arm is registered only while it still owes the switch to its
interval, or when its first expiry equals the interval. -/
def RegistersOwing (timer : HostTimer) (op : TimerOp) : Prop :=
  match op with
  | .register => timer.slot.armed = true -> timer.slot.intervalNs ≠ 0 ->
      timer.slot.needsPeriodic = true ∨ timer.slot.valueNs = timer.slot.intervalNs
  | _ => True

section Wall

variable (wall : isCpuTimer which = false)
include wall

theorem currentArm_repeats {slot : ItimerSlot} (armed : slot.armed = true)
    (first : 0 < slot.valueNs) (periodic : slot.intervalNs ≠ 0) :
    (∃ arm, slot.currentArm which = some arm ∧
        (arm.repeats = true ∨ slot.needsPeriodic = true)) <->
      slot.needsPeriodic = true ∨ slot.valueNs = slot.intervalNs := by
  cases owing : slot.needsPeriodic <;> by_cases same : slot.valueNs = slot.intervalNs <;>
    simp [ItimerSlot.currentArm, armed, Nat.ne_of_gt first, periodic, owing, same, wall,
      TimerArm.repeats] <;> decide

theorem repeating {history : List TimerOp}
    (owing : Guarded (HostTimer.step which) .new RegistersOwing history) :
    (stateOf which history).Repeating := by
  induction history with
  | nil =>
    intro armed
    cases armed
  | cons op earlier ih =>
    have before := ih owing.2
    cases op with
    | arm | disarm =>
      intro _ _ repeats registered
      cases registered
    | kqueue generation nowNs activeVcpus =>
      simp only [HostTimer.Repeating, stateOf, replay, HostTimer.step,
        ItimerSlot.fireKqueueIfCurrent, wall] at before ⊢
      generalize replay (HostTimer.step which) .new earlier = timer at before ⊢
      by_cases current : timer.slot.isCurrent generation = false
      · simpa [current, Fire.refused] using before
      by_cases once : timer.slot.intervalNs = 0
      · simp [current, fire_eq, once, ItimerSlot.disarm]
      · cases owes : timer.slot.needsPeriodic with
        | true => simp [current, fire_eq, once, ItimerSlot.requestRearm, wall, owes]
        | false => simpa [current, fire_eq, once, ItimerSlot.requestRearm, wall, owes] using before
    | pollCpu generation nowNs activeVcpus =>
      have refused : stateOf which (.pollCpu generation nowNs activeVcpus :: earlier) =
          stateOf which earlier := by
        simp [stateOf, replay, HostTimer.step, ItimerSlot.fireCpuIfCurrent, wall, Fire.refused]
      rw [refused]
      exact before
    | register =>
      intro armed periodic repeats registered
      simp only [stateOf, replay, HostTimer.step] at armed periodic registered ⊢
      cases read : (replay (HostTimer.step which) .new earlier).slot.currentArm which with
      | none =>
        simp only [read] at armed periodic registered ⊢
        exact before armed periodic repeats registered
      | some arm =>
        simp only [read] at armed periodic registered ⊢
        rcases (disciplined which earlier).armed armed with ⟨spec, _, value, _⟩
        rcases (currentArm_repeats wall armed (value ▸ spec.arms) periodic).mpr
          (owing.1 armed periodic) with ⟨found, same, holds⟩
        cases read.symm.trans same
        cases registered
        exact holds

end Wall

/-- In every run on a table: a delivery is for the arm that is current, and of
a CPU timer not before it is due; a one-shot arm delivers at most once; an arm
is switched to a periodic registration at most once.  What the current arm of a
periodic wall timer registers keeps it repeating exactly when the arm still
owes that switch or its first expiry equals its interval, and the timer repeats
in every state of a run that registers only such arms. -/
theorem host_timers_deliver_current_arms (history : List (Nat × TimerOp)) (which : Nat)
    (inRange : which < whichCount) :
    let timer := tableAfter history which
    let ops := opsOf which history
    (∀ op fire, timer.attempt which op = some fire -> fire.delivered = true ->
      timer.slot.armed = true ∧ timer.slot.generation = op.generation ∧
        (isCpuTimer which = true -> dueNs which ops <= op.nowNs)) ∧
    (∀ spec, lastArm ops = some spec -> spec.interval = 0 ->
      sinceArm which (·.delivered) ops <= 1) ∧
    sinceArm which Fire.switches ops <= 1 ∧
    (isCpuTimer which = false ->
      (timer.slot.armed = true -> timer.slot.intervalNs ≠ 0 ->
        ((∃ arm, timer.slot.currentArm which = some arm ∧
            (arm.repeats = true ∨ timer.slot.needsPeriodic = true)) <->
          timer.slot.needsPeriodic = true ∨ timer.slot.valueNs = timer.slot.intervalNs)) ∧
      (Guarded (HostTimer.step which) .new RegistersOwing ops -> timer.Repeating)) := by
  rw [tableAfter_eq inRange]
  intro timer ops
  have facts := disciplined which ops
  refine ⟨?_, fun spec found once => (facts.oneShot spec found once).1, facts.switch.1,
    fun wall => ⟨?_, fun owing => repeating wall owing⟩⟩
  · intro op fire tried delivered
    rcases attempt_cases tried with ⟨quiet, _⟩ | ⟨_, armed, current, reached, _⟩
    · rw [quiet] at delivered
      cases delivered
    · exact ⟨armed, current, fun cpu => (facts.due cpu armed).2 ▸ reached cpu⟩
  · intro armed periodic
    rcases facts.armed armed with ⟨spec, _, value, _⟩
    exact currentArm_repeats wall armed (value ▸ spec.arms) periodic

/-- A two-phase timer of 5 and 7 nanoseconds, registered before its first
expiry, repeats after it. -/
theorem two_phase_timer_repeats :
    (tableAfter [(0, .kqueue 1 0 0), (0, .register), (0, .arm ⟨5, 7, by decide⟩ true 0 0)]
      0).Repeating := by
  refine ((host_timers_deliver_current_arms [(0, .kqueue 1 0 0), (0, .register),
    (0, .arm ⟨5, 7, by decide⟩ true 0 0)] 0 (by decide)).2.2.2 rfl).2 ⟨trivial, ?_, trivial, trivial⟩
  exact fun _ _ => .inl rfl

/-- Registered again after that, it is armed as a one-shot whose event asks for
nothing more. -/
theorem registered_again_stops_repeating :
    let timer := tableAfter [(0, .register), (0, .kqueue 1 0 0), (0, .register),
      (0, .arm ⟨5, 7, by decide⟩ true 0 0)] 0
    timer.slot.armed = true ∧ timer.slot.intervalNs = 7 ∧ timer.registered = some false ∧
      (timer.slot.fireKqueueIfCurrent 0 1 0 0).rearm = none ∧ ¬ timer.Repeating := by
  intro timer
  refine ⟨rfl, rfl, rfl, rfl, fun repeating => ?_⟩
  rcases repeating rfl (by decide) false rfl with impossible | impossible <;> cases impossible

end Signal
end Carrick

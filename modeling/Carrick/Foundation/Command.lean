import Mathlib.Order.Defs.Unbundled
import Mathlib.Tactic.Common

namespace Carrick
namespace Foundation

/-!
# Commands that refuse without undoing

A command runs on a state and ends with a value or with a reason for its
refusal.  Unlike a transaction it keeps the state it reached in both cases, so
a caller of a refused command sees what was done before the refusal.  The
rules below follow a sequence of commands: through a first command that
returned, through one that refused, and for a relation that every command of
the sequence maintains however it ends.
-/

universe u

/-- A state transformer that returns a value or refuses, and keeps its state. -/
def Command (ε σ : Type) (α : Type u) : Type u := σ -> Except ε α × σ

namespace Command

variable {ε σ α β : Type}

instance : Monad (Command ε σ) where
  pure value := fun state => (.ok value, state)
  bind first next := fun state =>
    match first state with
    | (.ok value, middle) => next value middle
    | (.error reason, middle) => (.error reason, middle)

def refuse (reason : ε) : Command ε σ α := fun state => (.error reason, state)

def observe (view : σ -> α) : Command ε σ α := fun state => (.ok (view state), state)

def edit (change : σ -> σ) : Command ε σ Unit := fun state => (.ok (), change state)

/-- Refuse unless the condition holds. -/
def require (condition : Bool) (reason : ε) : Command ε σ Unit :=
  if condition then pure () else refuse reason

/-- The value of an option, or a refusal. -/
def demand (found : Option α) (reason : ε) : Command ε σ α :=
  match found with
  | none => refuse reason
  | some value => pure value

/-- An answer computed without the state. -/
def ofExcept (answer : Except ε α) : Command ε σ α := fun state => (answer, state)

/-- Run a command and go on with its answer, whether it returned or refused. -/
def attempt (command : Command ε σ α) : Command ε σ (Except ε α) := fun state =>
  (.ok (command state).1, (command state).2)

/-- Run a command on one part of the state. -/
def zoom {τ : Type} (part : σ -> τ) (restore : σ -> τ -> σ) (command : Command ε τ α) :
    Command ε σ α := fun state =>
  ((command (part state)).1, restore state (command (part state)).2)

/-- Run a command for each item and gather what they return. -/
def collect {ι : Type} (command : ι -> Command ε σ (List α)) : List ι -> Command ε σ (List α)
  | [] => pure []
  | item :: rest => do
      let first ← command item
      let later ← collect command rest
      pure (first ++ later)

@[simp] theorem pure_apply (value : α) (state : σ) :
    (pure value : Command ε σ α) state = (.ok value, state) := rfl

@[simp] theorem refuse_apply (reason : ε) (state : σ) :
    (refuse reason : Command ε σ α) state = (.error reason, state) := rfl

@[simp] theorem edit_apply (change : σ -> σ) (state : σ) :
    (edit change : Command ε σ Unit) state = (.ok (), change state) := rfl

theorem bind_apply (first : Command ε σ α) (next : α -> Command ε σ β) (state : σ) :
    (first >>= next) state =
      match first state with
      | (.ok value, middle) => next value middle
      | (.error reason, middle) => (.error reason, middle) := rfl

@[simp] theorem observe_bind_apply (view : σ -> α) (next : α -> Command ε σ β) (state : σ) :
    (observe view >>= next) state = next (view state) state := rfl

@[simp] theorem edit_bind_apply (change : σ -> σ) (next : Unit -> Command ε σ β) (state : σ) :
    (edit change >>= next) state = next () (change state) := rfl

@[simp] theorem zoom_apply {τ : Type} (part : σ -> τ) (restore : σ -> τ -> σ)
    (command : Command ε τ α) (state : σ) :
    zoom part restore command state =
      ((command (part state)).1, restore state (command (part state)).2) := rfl

theorem attempt_bind_apply (command : Command ε σ α) (next : Except ε α -> Command ε σ β)
    (state : σ) : (attempt command >>= next) state = next (command state).1 (command state).2 := rfl

variable {first : Command ε σ α} {next : α -> Command ε σ β} {value : α}

theorem bind_of_ok {state middle : σ} (returned : first state = (.ok value, middle)) :
    (first >>= next) state = next value middle := by
  rw [bind_apply, returned]

variable {reason : ε}

theorem bind_of_error {state middle : σ} (refused : first state = (.error reason, middle)) :
    (first >>= next) state = (.error reason, middle) := by
  rw [bind_apply, refused]

variable {found : Option α}

theorem demand_bind_some (present : found = some value) (reason : ε) (next : α -> Command ε σ β)
    (state : σ) :
    (demand found reason >>= next) state = next value state := by
  rw [present]
  rfl

theorem demand_bind_none (absent : found = none) (reason : ε) (next : α -> Command ε σ β)
    (state : σ) :
    (demand found reason >>= next) state = (.error reason, state) := by
  rw [absent]
  rfl

variable {condition : Bool}

theorem require_bind_true (holds : condition = true) (reason : ε) (next : Unit -> Command ε σ β)
    (state : σ) :
    (require condition reason >>= next) state = next () state := by
  rw [holds]
  rfl

theorem require_bind_false (fails : condition = false) (reason : ε) (next : Unit -> Command ε σ β)
    (state : σ) :
    (require condition reason >>= next) state = (.error reason, state) := by
  rw [fails]
  rfl

theorem ofExcept_bind_ok {answer : Except ε α} (returned : answer = .ok value)
    (next : α -> Command ε σ β) (state : σ) :
    (ofExcept answer >>= next) state = next value state := by
  rw [returned]
  rfl

theorem ofExcept_bind_error {answer : Except ε α} (refused : answer = .error reason)
    (next : α -> Command ε σ β) (state : σ) :
    (ofExcept answer >>= next) state = (.error reason, state) := by
  rw [refused]
  rfl

variable {after : σ}

/-- A sequence that returned went through a first command that returned. -/
theorem bind_eq_ok {state : σ} {answer : β}
    (returned : (first >>= next) state = (.ok answer, after)) :
    ∃ value middle, first state = (.ok value, middle) ∧ next value middle = (.ok answer, after) := by
  rw [bind_apply] at returned
  split at returned
  · exact ⟨_, _, by assumption, returned⟩
  · cases returned

theorem demand_eq_ok {state : σ}
    (returned : (demand found reason : Command ε σ α) state = (.ok value, after)) :
    found = some value ∧ after = state := by
  cases found with
  | none => cases returned
  | some other =>
    cases returned
    exact ⟨rfl, rfl⟩

theorem require_eq_ok {value : Unit} {state : σ}
    (returned : (require condition reason : Command ε σ Unit) state = (.ok value, after)) :
    condition = true ∧ after = state := by
  cases condition with
  | false => cases returned
  | true =>
    cases returned
    exact ⟨rfl, rfl⟩

theorem except_bind_eq_ok {first : Except ε α} {next : α -> Except ε β} {answer : β}
    (passed : (first >>= next) = .ok answer) :
    ∃ value, first = .ok value ∧ next value = .ok answer := by
  cases first with
  | error reason => cases passed
  | ok value => exact ⟨value, rfl, passed⟩

/-- The rule for `collect`: a property of the items done, of what they returned
and of the state, which each item carries over and returns. -/
theorem collect_returns {ι : Type} {command : ι -> Command ε σ (List α)}
    (holds : List ι -> List α -> σ -> Prop)
    (step : ∀ done item gathered state, holds done gathered state ->
      ∃ more after, command item state = (.ok more, after) ∧
        holds (done ++ [item]) (gathered ++ more) after) :
    ∀ (items done : List ι) (gathered : List α) (state : σ), holds done gathered state ->
      ∃ more after, collect command items state = (.ok more, after) ∧
        holds (done ++ items) (gathered ++ more) after := by
  intro items
  induction items with
  | nil =>
    intro done gathered state holding
    exact ⟨[], state, rfl, by simpa using holding⟩
  | cons item rest ih =>
    intro done gathered state holding
    rcases step done item gathered state holding with ⟨first, middle, ran, held⟩
    rcases ih _ _ _ held with ⟨later, after, ranRest, ends⟩
    refine ⟨first ++ later, after, ?_, ?_⟩
    · unfold collect
      rw [bind_of_ok ran, bind_of_ok ranRest, pure_apply]
    · rw [List.append_assoc, List.singleton_append, List.append_assoc] at ends
      exact ends

/-- The answer and the state that the command ends with from this state. -/
def Ends (post : Except ε α -> σ -> Prop) (command : Command ε σ α) (state : σ) : Prop :=
  post (command state).1 (command state).2

namespace Ends

variable {post : Except ε β -> σ -> Prop} {state : σ}

theorem of_eq {command : Command ε σ β} {answer : Except ε β} {after : σ}
    (ends : Ends post command state) (ran : command state = (answer, after)) : post answer after := by
  unfold Ends at ends
  rw [ran] at ends
  exact ends

theorem observe {view : σ -> α} (rest : Ends post (next (view state)) state) :
    Ends post (observe view >>= next) state :=
  rest

theorem require {condition : Bool} {reason : ε} {next : Unit -> Command ε σ β}
    (refused : post (.error reason) state)
    (rest : condition = true -> Ends post (next ()) state) :
    Ends post (require condition reason >>= next) state := by
  cases condition with
  | false => exact refused
  | true => exact rest rfl

theorem demand {found : Option α} {reason : ε} (refused : post (.error reason) state)
    (rest : ∀ value, found = some value -> Ends post (next value) state) :
    Ends post (demand found reason >>= next) state := by
  cases found with
  | none => exact refused
  | some value => exact rest value rfl

theorem ofExcept {answer : Except ε α} (refused : ∀ reason, post (.error reason) state)
    (rest : ∀ value, answer = .ok value -> Ends post (next value) state) :
    Ends post (ofExcept answer >>= next) state := by
  cases answer with
  | error reason => exact refused reason
  | ok value => exact rest value rfl

theorem bind {first : Command ε σ α}
    (refused : ∀ reason middle, first state = (.error reason, middle) -> post (.error
      reason) middle)
    (rest : ∀ value middle, first state = (.ok value, middle) -> Ends post (next value)
      middle) : Ends post (first >>= next) state := by
  cases answered : first state with
  | mk answer middle =>
    unfold Ends
    cases answer with
    | error reason =>
      rw [bind_of_error answered]
      exact refused reason middle answered
    | ok value =>
      rw [bind_of_ok answered]
      exact rest value middle answered

theorem answer {good : σ -> Prop} {first : Command ε σ α} {value : α -> β}
    (ends : Ends (fun _ => good) first state) :
    Ends (fun _ => good) (first >>= fun found => pure (value found)) state :=
  bind (fun _ _ ran => ends.of_eq ran) (fun _ _ ran => ends.of_eq ran)

end Ends

/-- The command maintains a relation between the states before and after it,
however it ends. -/
def Relates (relation : σ -> σ -> Prop) (command : Command ε σ α) : Prop :=
  ∀ state, relation state (command state).2

namespace Relates

variable {relation : σ -> σ -> Prop} [IsPreorder σ relation]

theorem pure (value : α) : Relates relation (pure value : Command ε σ α) :=
  fun state => refl_of relation state

theorem refuse (reason : ε) : Relates relation (refuse reason : Command ε σ α) :=
  fun state => refl_of relation state

theorem observe (view : σ -> α) : Relates relation (observe view : Command ε σ α) :=
  fun state => refl_of relation state

theorem require (condition : Bool) (reason : ε) :
    Relates relation (require condition reason : Command ε σ Unit) := by
  intro state
  cases condition with
  | false => exact refl_of relation state
  | true => exact refl_of relation state

theorem demand (found : Option α) (reason : ε) :
    Relates relation (demand found reason : Command ε σ α) := by
  intro state
  cases found with
  | none => exact refl_of relation state
  | some value => exact refl_of relation state

theorem ofExcept (answer : Except ε α) : Relates relation (ofExcept answer : Command ε σ α) :=
  fun state => refl_of relation state

theorem bind {first : Command ε σ α} {next : α -> Command ε σ β}
    (firstRelates : Relates relation first)
    (nextRelates : ∀ value, Relates relation (next value)) :
    Relates relation (first >>= next) := by
  intro state
  have step := firstRelates state
  rw [bind_apply]
  split
  · rename_i value middle answered
    rw [answered] at step
    exact trans_of relation step (nextRelates value middle)
  · rename_i reason middle answered
    rw [answered] at step
    exact step

/-! What a command reads or checks first changes nothing. -/

theorem observing {view : σ -> α} {next : α -> Command ε σ β}
    (onward : ∀ value, Relates relation (next value)) :
    Relates relation (Command.observe view >>= next) :=
  bind (observe view) onward

theorem requiring {condition : Bool} {reason : ε} {next : Unit -> Command ε σ β}
    (onward : Relates relation (next ())) :
    Relates relation (Command.require condition reason >>= next) :=
  bind (require condition reason) (fun _ => onward)

theorem demanding {found : Option α} {reason : ε} {next : α -> Command ε σ β}
    (onward : ∀ value, Relates relation (next value)) :
    Relates relation (Command.demand found reason >>= next) :=
  bind (demand found reason) onward

end Relates

/-- The command never changes what the view reads, however it ends.  It is a
class: the instances below, one for each way to build a command, find it for a
sequence from what is known of the parts. -/
class Keeps {τ : Type} (view : σ -> τ) (command : Command ε σ α) : Prop where
  same : Relates (fun before after => view after = view before) command

namespace Keeps

variable {τ : Type} {view : σ -> τ}

instance : IsPreorder σ (fun before after => view after = view before) where
  refl := fun _ => rfl
  trans := fun _ _ _ earlier later => later.trans earlier

instance pure (value : α) : Keeps view (pure value : Command ε σ α) where
  same := Relates.pure value

instance refuse (reason : ε) : Keeps view (refuse reason : Command ε σ α) where
  same := Relates.refuse reason

instance observe (read : σ -> α) : Keeps view (observe read : Command ε σ α) where
  same := Relates.observe read

instance require (condition : Bool) (reason : ε) :
    Keeps view (require condition reason : Command ε σ Unit) where
  same := Relates.require condition reason

instance demand (found : Option α) (reason : ε) :
    Keeps view (demand found reason : Command ε σ α) where
  same := Relates.demand found reason

instance ofExcept (answer : Except ε α) : Keeps view (ofExcept answer : Command ε σ α) where
  same := Relates.ofExcept answer

theorem edit {change : σ -> σ} (same : ∀ state, view (change state) = view state) :
    Keeps view (edit change : Command ε σ Unit) :=
  ⟨same⟩

theorem bind {first : Command ε σ α} {next : α -> Command ε σ β} (firstKeeps : Keeps view first)
    (nextKeeps : ∀ value, Keeps view (next value)) : Keeps view (first >>= next) where
  same := Relates.bind firstKeeps.same (fun value => (nextKeeps value).same)

theorem past {first : Command ε σ α} {next : α -> Command ε σ β} [firstKeeps : Keeps view first]
    (onward : ∀ value, Keeps view (next value)) : Keeps view (first >>= next) :=
  bind firstKeeps onward

instance {first : Command ε σ α} {next : α -> Command ε σ β} [Keeps view first]
    [onward : ∀ value, Keeps view (next value)] : Keeps view (first >>= next) :=
  past onward

instance {condition : Prop} [Decidable condition] {first second : Command ε σ α}
    [firstKeeps : Keeps view first] [secondKeeps : Keeps view second] :
    Keeps view (if condition then first else second) := by
  split_ifs
  · exact firstKeeps
  · exact secondKeeps

instance attempt {command : Command ε σ α} [keeps : Keeps view command] :
    Keeps view (attempt command) where
  same := keeps.same

theorem of_eq {command : Command ε σ α} {answer : Except ε α} {state after : σ}
    (keeps : Keeps view command) (ran : command state = (answer, after)) :
    view after = view state := by
  have kept := keeps.same state
  simp only at kept
  rw [ran] at kept
  exact kept

theorem zoom {part : Type} {get : σ -> part} {restore : σ -> part -> σ} {inner : part -> τ}
    (reads : ∀ state after, view (restore state after) = inner after)
    (whole : ∀ state, view state = inner (get state))
    {command : Command ε part α} (keeps : Keeps inner command) :
    Keeps view (zoom get restore command) where
  same := by
    intro state
    show view (restore state (command (get state)).2) = view state
    rw [reads, whole]
    exact keeps.same (get state)

theorem collect {ι : Type} {command : ι -> Command ε σ (List α)}
    (keeps : ∀ item, Keeps view (command item)) (items : List ι) :
    Keeps view (collect command items) := by
  induction items with
  | nil => exact Keeps.pure []
  | cons item rest ih =>
    unfold Command.collect
    infer_instance

end Keeps

end Command

end Foundation
end Carrick

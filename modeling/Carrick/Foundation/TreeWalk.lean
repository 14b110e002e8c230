import Carrick.Foundation.BalancedTree
import Carrick.Foundation.Command
import Mathlib.Logic.Relation

namespace Carrick
namespace Foundation

/-!
# Tree walks over explicit stacks

Loops that walk a search tree with a stack of bounded size instead of
recursion: an in-order walk that visits, one that copies before it descends, the
build of a tree from a list, and the insertion along a recorded path.  A stack
as large as the tree is deep makes no difference to any of them.
-/

universe u v w

/-! ## Loops -/

section Loops

variable {State : Type u} {Result : Type v}

/-- A loop whose step goes on or ends; `none` is a loop that has not ended. -/
def drive (step : State -> State ⊕ Result) : Nat -> State -> Option Result
  | 0, _ => none
  | fuel + 1, state =>
    match step state with
    | .inl next => drive step fuel next
    | .inr result => some result

/-- The states a loop passes through. -/
def Leads (step : State -> State ⊕ Result) : State -> State -> Prop :=
  Relation.ReflTransGen (fun state next => step state = .inl next)

variable {step other : State -> State ⊕ Result}

theorem Leads.single {state next : State} (goes : step state = .inl next) : Leads step state next :=
  Relation.ReflTransGen.single goes

theorem Leads.ends {state last : State} (leads : Leads step state last) {result : Result}
    (stops : step last = .inr result) :
    ∃ enough, ∀ fuel, enough <= fuel -> drive step fuel state = some result := by
  induction leads using Relation.ReflTransGen.head_induction_on with
  | refl =>
    refine ⟨1, fun fuel many => ?_⟩
    cases fuel with
    | zero => omega
    | succ fuel => rw [drive, stops]
  | head goes _ ih =>
    rcases ih with ⟨enough, ended⟩
    refine ⟨enough + 1, fun fuel many => ?_⟩
    cases fuel with
    | zero => omega
    | succ fuel =>
      rw [drive, goes]
      exact ended fuel (by omega)

theorem drive_congr (admitted : State -> Prop)
    (agrees : ∀ state, admitted state -> step state = other state)
    (keeps : ∀ state next, admitted state -> step state = .inl next -> admitted next)
    (fuel : Nat) : ∀ state, admitted state -> drive step fuel state = drive other fuel state := by
  induction fuel with
  | zero => exact fun _ _ => rfl
  | succ fuel ih =>
    intro state holds
    rw [drive, drive, <- agrees state holds]
    cases goes : step state with
    | inl next => exact ih next (keeps state next holds goes)
    | inr result => rfl

end Loops

namespace SearchTree

variable {α : Type u} {σ : Type v} {γ : Type w}

/-- The stack has room for what is left of the walk. -/
def Waits (room : Nat) : List (γ × SearchTree α σ) -> Prop
  | [] => True
  | (_, right) :: rest => right.depth + rest.length <= room ∧ Waits room rest

/-- The walk from `next` on stays within the room. -/
def Fits (room : Nat) (next : SearchTree α σ) (waiting : List (γ × SearchTree α σ)) : Prop :=
  next.depth + waiting.length <= room ∧ Waits room waiting

theorem Fits.start {room : Nat} {tree : SearchTree α σ} (enough : tree.depth <= room) :
    Fits room tree ([] : List (γ × SearchTree α σ)) :=
  ⟨enough, trivial⟩

variable {left right : SearchTree α σ} {value : α} {cached : σ}
  {waiting : List (γ × SearchTree α σ)}

theorem Fits.push {room : Nat} {entry : γ}
    (fits : Fits room (node left value cached right) waiting) :
    Fits room left ((entry, right) :: waiting) := by
  rcases fits with ⟨bound, waits⟩
  rw [depth_node] at bound
  refine ⟨?_, ?_, waits⟩
  · rw [List.length_cons]
    omega
  · omega

theorem Fits.room {room : Nat} (fits : Fits room (node left value cached right) waiting) :
    waiting.length < room := by
  have bound := fits.1
  rw [depth_node] at bound
  omega

theorem Fits.pop {room : Nat} {next : SearchTree α σ} {entry : γ}
    {rest : List (γ × SearchTree α σ)} (fits : Fits room next ((entry, right) :: rest)) :
    Fits room right rest :=
  fits.2

theorem Fits.skip {room : Nat} (fits : Fits room (node left value cached right) waiting) :
    Fits room right waiting := by
  refine ⟨?_, fits.2⟩
  have bound := fits.1
  rw [depth_node] at bound
  omega

end SearchTree

open SearchTree

/-! ## The visiting walk -/

section Visits

variable {ε W : Type} {α : Type u} {σ : Type v}

/-- A node with a left subtree waits until that subtree is visited. -/
structure VisitWalk (W : Type) (α : Type u) (σ : Type v) where
  world : W
  next : SearchTree α σ
  waiting : List (α × SearchTree α σ)

/-- Visit a node and go on to its right. -/
def VisitWalk.visited (visit : α -> Command ε W Unit) (world : W) (value : α)
    (right : SearchTree α σ) (waiting : List (α × SearchTree α σ)) :
    VisitWalk W α σ ⊕ (Except ε Unit × W) :=
  match visit value world with
  | (.ok _, after) => .inl ⟨after, right, waiting⟩
  | (.error reason, after) => .inr (.error reason, after)

def VisitWalk.step (room : Nat) (full : ε) (visit : α -> Command ε W Unit)
    (walk : VisitWalk W α σ) : VisitWalk W α σ ⊕ (Except ε Unit × W) :=
  match walk.next with
  | .leaf =>
    match walk.waiting with
    | [] => .inr (.ok (), walk.world)
    | (value, right) :: rest => visited visit walk.world value right rest
  | .node .leaf value _ right => visited visit walk.world value right walk.waiting
  | .node left value _ right =>
    if walk.waiting.length = room then .inr (.error full, walk.world)
    else .inl ⟨walk.world, left, (value, right) :: walk.waiting⟩

theorem VisitWalk.visited_eq_inl {visit : α -> Command ε W Unit} {world : W} {value : α}
    {right : SearchTree α σ} {waiting : List (α × SearchTree α σ)} {next : VisitWalk W α σ}
    (goes : visited visit world value right waiting = .inl next) :
    next.next = right ∧ next.waiting = waiting := by
  unfold visited at goes
  split at goes
  · cases goes
    exact ⟨rfl, rfl⟩
  · cases goes

/-- A stack with room for the depth of the tree is as good as a larger one. -/
theorem visitWalk_unbounded {room larger : Nat} (more : room <= larger) (full : ε)
    (visit : α -> Command ε W Unit) (world : W) {tree : SearchTree α σ} (enough : tree.depth <= room)
    (fuel : Nat) :
    drive (VisitWalk.step room full visit) fuel ⟨world, tree, []⟩ =
      drive (VisitWalk.step larger full visit) fuel ⟨world, tree, []⟩ := by
  refine drive_congr (fun walk => Fits room walk.next walk.waiting) ?_ ?_ fuel _
    (Fits.start enough)
  · rintro ⟨world, next, waiting⟩ fits
    cases next with
    | leaf => rfl
    | node left value cached right =>
      cases left with
      | leaf => rfl
      | node low middle other high =>
        have bound : waiting.length < room := Fits.room fits
        simp only [VisitWalk.step]
        rw [if_neg (by omega), if_neg (by omega)]
  rintro ⟨world, next, waiting⟩ after fits goes
  cases next with
  | leaf =>
    cases waiting with
    | nil => cases goes
    | cons entry rest =>
      rcases VisitWalk.visited_eq_inl goes with ⟨nextIs, waitingIs⟩
      rw [nextIs, waitingIs]
      exact Fits.pop fits
  | node left value cached right =>
    cases left with
    | leaf =>
      rcases VisitWalk.visited_eq_inl goes with ⟨nextIs, waitingIs⟩
      rw [nextIs, waitingIs]
      exact Fits.skip fits
    | node low middle other high =>
      simp only [VisitWalk.step] at goes
      split_ifs at goes
      cases goes
      exact Fits.push fits

end Visits

/-! ## The copying walk -/

section Copies

variable {ε W : Type} {α : Type u} {σ : Type v} {γ : Type w}

/-- What the copying walk does at a node: take something for it, note it once
it waits on the stack, and give it back when it cannot wait. -/
structure CopySteps (ε W : Type) (α : Type u) (γ : Type w) where
  take : α -> Command ε W γ
  note : α -> Command ε W Unit
  undo : γ -> W -> W

structure CopyWalk (W : Type) (α : Type u) (σ : Type v) (γ : Type w) where
  world : W
  next : SearchTree α σ
  waiting : List (γ × SearchTree α σ)
  listed : List γ

def CopyWalk.step (room : Nat) (full : ε) (steps : CopySteps ε W α γ) (walk : CopyWalk W α σ γ) :
    CopyWalk W α σ γ ⊕ (Except ε Unit × CopyWalk W α σ γ) :=
  match walk.next with
  | .leaf =>
    match walk.waiting with
    | [] => .inr (.ok (), walk)
    | (copy, right) :: rest =>
      .inl { walk with next := right, waiting := rest, listed := walk.listed ++ [copy] }
  | .node left value _ right =>
    match steps.take value walk.world with
    | (.error reason, world) => .inr (.error reason, { walk with world := world })
    | (.ok copy, world) =>
      if walk.waiting.length = room then
        .inr (.error full, { walk with world := steps.undo copy world })
      else
        match steps.note value world with
        | (.ok _, noted) =>
          .inl { walk with
            world := noted, next := left, waiting := (copy, right) :: walk.waiting }
        | (.error reason, noted) =>
          .inr (.error reason,
            { walk with world := noted, next := left, waiting := (copy, right) :: walk.waiting })

theorem copyWalk_unbounded {room larger : Nat} (more : room <= larger) (full : ε)
    (steps : CopySteps ε W α γ) (world : W) {tree : SearchTree α σ} (enough : tree.depth <= room)
    (fuel : Nat) :
    drive (CopyWalk.step room full steps) fuel ⟨world, tree, [], []⟩ =
      drive (CopyWalk.step larger full steps) fuel ⟨world, tree, [], []⟩ := by
  refine drive_congr (fun walk => Fits room walk.next walk.waiting) ?_ ?_ fuel _
    (Fits.start enough)
  · rintro ⟨world, next, waiting, listed⟩ fits
    cases next with
    | leaf => rfl
    | node left value cached right =>
      have bound : waiting.length < room := Fits.room fits
      simp only [CopyWalk.step]
      cases taken : steps.take value world with
      | mk answer after =>
        cases answer with
        | error reason => rfl
        | ok copy =>
          dsimp only
          rw [if_neg (by omega), if_neg (by omega)]
  rintro ⟨world, next, waiting, listed⟩ after fits goes
  cases next with
  | leaf =>
    cases waiting with
    | nil => cases goes
    | cons entry rest =>
      cases goes
      exact Fits.pop fits
  | node left value cached right =>
    simp only [CopyWalk.step] at goes
    split at goes
    · cases goes
    split_ifs at goes
    split at goes
    · cases goes
      exact Fits.push fits
    · cases goes

end Copies

/-! ## The build of a balanced tree -/

section Builds

variable {ε : Type} {α : Type u} {σ : Type v}

/-- A level whose subtree of `len` elements is being built; its own element is
taken once its left half is done. -/
structure BuildLevel (α : Type u) (σ : Type v) where
  len : Nat
  left : SearchTree α σ
  taken : Option α

inductive BuildPhase (α : Type u) (σ : Type v) where
  | descend (request : Nat)
  | ascend (built : SearchTree α σ)

structure Building (α : Type u) (σ : Type v) where
  phase : BuildPhase α σ
  levels : List (BuildLevel α σ)
  rest : List α

def Building.step (room : Nat) (full : ε) (summary : Summary α σ) (building : Building α σ) :
    Building α σ ⊕ Except ε (SearchTree α σ × List α) :=
  match building.phase with
  | .descend request =>
    if request = 0 then .inl { building with phase := .ascend .leaf }
    else if building.levels.length = room then .inr (.error full)
    else
      .inl { building with
        phase := .descend (request / 2), levels := ⟨request, .leaf, none⟩ :: building.levels }
  | .ascend built =>
    match building.levels with
    | [] => .inr (.ok (built, building.rest))
    | level :: levels =>
      match level.taken with
      | none =>
        match building.rest with
        | [] => .inr (.ok (built, []))
        | value :: rest =>
          .inl { phase := .descend (level.len - level.len / 2 - 1)
                 levels := { level with left := built, taken := some value } :: levels
                 rest := rest }
      | some value =>
        .inl { building with phase := .ascend (fix summary level.left value built), levels := levels }

/-- A stack with a level for each halving of the request builds the tree. -/
theorem building_leads (full : ε) (summary : Summary α σ) (room len : Nat) :
    ∀ (depth : Nat) (levels : List (BuildLevel α σ)) (list : List α), len < 2 ^ depth ->
      depth + levels.length <= room -> len <= list.length ->
      Leads (Building.step room full summary) ⟨.descend len, levels, list⟩
        ⟨.ascend (build summary len list).1, levels, (build summary len list).2⟩ := by
  induction len using Nat.strongRecOn with
  | ind len ih =>
    intro depth levels list small fits enough
    rw [build]
    by_cases none : len = 0
    · rw [if_pos none]
      refine Leads.single ?_
      simp only [Building.step]
      rw [if_pos none]
    rw [if_neg none]
    have positive : 0 < depth := by
      by_contra zero
      rw [show depth = 0 by omega] at small
      omega
    rcases Nat.exists_eq_succ_of_ne_zero (Nat.ne_of_gt positive) with ⟨below, rfl⟩
    rw [Nat.succ_eq_add_one, Nat.pow_succ] at small
    have room_left : len / 2 < list.length := by omega
    have shape := (build_spec summary (len / 2) (Nat.le_of_lt room_left)).2
    rw [List.drop_eq_getElem_cons room_left] at shape
    have lower := ih (len / 2) (by omega) below (⟨len, .leaf, .none⟩ :: levels)
      list (by omega) (by rw [List.length_cons]; omega) (Nat.le_of_lt room_left)
    have upper := ih (len - len / 2 - 1) (by omega) below
      (⟨len, (build summary (len / 2) list).1, some list[len / 2]⟩ :: levels)
      (list.drop (len / 2 + 1)) (by omega) (by rw [List.length_cons]; omega)
      (by rw [List.length_drop]; omega)
    dsimp only
    rw [shape] at lower ⊢
    dsimp only
    refine Relation.ReflTransGen.head (b := ⟨.descend (len / 2), ⟨len, .leaf, .none⟩ :: levels, list⟩)
      ?_ (lower.trans (Relation.ReflTransGen.head ?_ (upper.trans (Leads.single ?_))))
    · simp only [Building.step]
      rw [if_neg none, if_neg (by omega)]
    · rfl
    · rfl

theorem building_ends (full : ε) (summary : Summary α σ) {room : Nat} {list : List α}
    (small : list.length < 2 ^ room) :
    ∃ enough, ∀ fuel, enough <= fuel ->
      drive (Building.step room full summary) fuel ⟨.descend list.length, [], list⟩ =
        some (.ok (build summary list.length list)) :=
  (building_leads full summary room list.length room [] list small (by simp) (le_refl _)).ends rfl

end Builds

/-! ## Insertion along a path -/

section Paths

variable {ε : Type} {α : Type u} {σ : Type v} {κ : Type w} [LinearOrder κ]

/-- The way down to the place of an element: at each node whether it went to
the left, the node's value and the subtree not taken. -/
def insertPath (room : Nat) (full : ε) (key : α -> κ) (element : α) :
    SearchTree α σ -> List (Bool × α × SearchTree α σ) -> Except ε (List (Bool × α × SearchTree α σ))
  | .leaf, path => .ok path
  | .node left value _ right, path =>
    if path.length = room then .error full
    else if key element < key value then
      insertPath room full key element left ((true, value, right) :: path)
    else insertPath room full key element right ((false, value, left) :: path)

def climb (summary : Summary α σ) :
    SearchTree α σ -> List (Bool × α × SearchTree α σ) -> SearchTree α σ
  | subtree, [] => subtree
  | subtree, (true, value, right) :: path => climb summary (balance summary subtree value right) path
  | subtree, (false, value, left) :: path => climb summary (balance summary left value subtree) path

def insertByPath (room : Nat) (full : ε) (summary : Summary α σ) (key : α -> κ) (element : α)
    (tree : SearchTree α σ) : Except ε (SearchTree α σ) :=
  match insertPath room full key element tree [] with
  | .error reason => .error reason
  | .ok path => .ok (climb summary (fix summary .leaf element .leaf) path)

theorem insertPath_spec (full : ε) (summary : Summary α σ) (key : α -> κ) (element : α) {room : Nat}
    (tree : SearchTree α σ) : ∀ path, tree.depth + path.length <= room ->
    ∃ whole, insertPath room full key element tree path = .ok whole ∧
      climb summary (fix summary .leaf element .leaf) whole =
        climb summary (tree.insert summary key element) path := by
  induction tree with
  | leaf => exact fun path _ => ⟨path, rfl, rfl⟩
  | node left value cached right leftHypothesis rightHypothesis =>
    intro path fits
    rw [depth_node] at fits
    rw [insertPath, SearchTree.insert, if_neg (by omega)]
    split
    · rcases leftHypothesis ((true, value, right) :: path)
        (by rw [List.length_cons]; omega) with ⟨whole, found, same⟩
      exact ⟨whole, found, same⟩
    · rcases rightHypothesis ((false, value, left) :: path)
        (by rw [List.length_cons]; omega) with ⟨whole, found, same⟩
      exact ⟨whole, found, same⟩

/-- A path with room for the depth of the tree inserts as the recursion does. -/
theorem insertByPath_eq (full : ε) (summary : Summary α σ) (key : α -> κ) (element : α) {room : Nat}
    {tree : SearchTree α σ} (enough : tree.depth <= room) :
    insertByPath room full summary key element tree = .ok (tree.insert summary key element) := by
  rcases insertPath_spec full summary key element tree [] (by simpa using enough) with
    ⟨whole, found, same⟩
  unfold insertByPath
  rw [found]
  exact congrArg Except.ok same

end Paths

end Foundation
end Carrick

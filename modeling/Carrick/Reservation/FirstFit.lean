import Carrick.Reservation.Aggregates

namespace Carrick
namespace Reservation

open Foundation

/-!
# The lowest hole of the arena

The descent of `gap` prunes by the cached ends and gaps; on a tree with true
aggregates it finds what a scan of the nodes in address order finds.  The scan
stops at the least address whose extent no node meets, and the search steps
over the owed extents in its way without passing a hole.
-/

/-- The scan that `gap` prunes: move the cursor over the nodes until `len`
bytes fit before the next one and below `stop`. -/
def scanGap (len stop : Nat) : List Node -> Nat -> Option Nat × Nat
  | [], cursor => (none, cursor)
  | node :: rest, cursor =>
    if len <= min node.start stop - cursor then (some cursor, cursor)
    else scanGap len stop rest (max cursor node.stop)

section Scan

variable {len stop : Nat}

theorem scanGap_append (earlier later : List Node) (cursor : Nat) :
    scanGap len stop (earlier ++ later) cursor =
      match scanGap len stop earlier cursor with
      | (some found, moved) => (some found, moved)
      | (none, moved) => scanGap len stop later moved := by
  induction earlier generalizing cursor with
  | nil => rfl
  | cons node rest ih =>
    rw [List.cons_append, scanGap, scanGap]
    split
    · rfl
    · exact ih _

theorem scanGap_behind (positive : 0 < len) {nodes : List Node} {cursor : Nat}
    (behind : ∀ node ∈ nodes, node.start <= node.stop ∧ node.stop <= cursor) :
    scanGap len stop nodes cursor = (none, cursor) := by
  induction nodes with
  | nil => rfl
  | cons node rest ih =>
    have here := behind node List.mem_cons_self
    rw [scanGap, if_neg (by omega), Nat.max_eq_left here.2]
    exact ih (fun other member => behind other (List.mem_cons_of_mem _ member))

theorem scanGap_narrow {nodes : List Node} {cursor : Nat}
    (apart : nodes.Pairwise (fun earlier later => earlier.stop <= later.start))
    (formed : ∀ node ∈ nodes, node.start <= node.stop)
    (narrow : widestGap nodes < len) (before : cursor <= firstStart nodes)
    (misses : min (firstStart nodes) stop - cursor < len) (nonempty : nodes ≠ []) :
    scanGap len stop nodes cursor = (none, lastStop nodes) := by
  induction nodes generalizing cursor with
  | nil => exact absurd rfl nonempty
  | cons node rest ih =>
    have here := formed node List.mem_cons_self
    rcases List.pairwise_cons.mp apart with ⟨ahead, restApart⟩
    rw [firstStart_cons] at before misses
    rw [scanGap, if_neg (by omega), Nat.max_eq_right (by omega)]
    cases rest with
    | nil => rfl
    | cons second others =>
      have full : second :: others ≠ [] := List.cons_ne_nil _ _
      have order := ahead second List.mem_cons_self
      rw [widestGap_cons node full] at narrow
      rw [lastStop_cons full]
      refine ih restApart
        (fun other member => formed other (List.mem_cons_of_mem _ member)) (by omega) order ?_ full
      omega

theorem gap_eq_scan (positive : 0 < len) {tree : MappingTree}
    (balanced : tree.Balanced mappingSummary) (tidy : Tidy tree) (cursor : Nat) :
    gap len stop tree cursor = scanGap len stop tree.toList cursor := by
  induction tree generalizing cursor with
  | leaf => rfl
  | node left node cached right leftHypothesis rightHypothesis =>
    have lower := leftHypothesis balanced.1 tidy.left
    have upper := rightHypothesis balanced.2.1 tidy.right
    have caches := Option.some.inj (cached_eq balanced tidy)
    have firstIs : cached.first = firstStart (SearchTree.node left node cached right).toList :=
      congrArg Aggregates.first caches
    have lastIs : cached.last = lastStop (SearchTree.node left node cached right).toList :=
      congrArg Aggregates.last caches
    have gapIs : cached.gap = widestGap (SearchTree.node left node cached right).toList :=
      congrArg Aggregates.gap caches
    have full : (SearchTree.node left node cached right).toList ≠ [] := toList_ne_nil
    have formed : ∀ other ∈ (SearchTree.node left node cached right).toList,
        other.start <= other.stop := fun other member => le_of_lt (tidy.formed other member).ordered
    rw [gap]
    by_cases behind : cached.last <= cursor
    · rw [if_pos behind]
      refine (scanGap_behind positive (fun other member => ?_)).symm
      have bounds := ends_bound tidy.apart tidy.formed member
      exact ⟨formed other member, by omega⟩
    rw [if_neg behind]
    by_cases fits : cursor <= cached.first ∧ len <= min cached.first stop - cursor
    · rw [if_pos fits]
      rw [firstIs] at fits
      cases nodes : (SearchTree.node left node cached right).toList with
      | nil => exact absurd nodes full
      | cons first rest =>
        rw [nodes, firstStart_cons] at fits
        rw [scanGap, if_pos fits.2]
    rw [if_neg fits]
    by_cases narrow : cursor <= cached.first ∧ cached.gap < len
    · rw [if_pos narrow, lastIs]
      rw [firstIs] at fits
      rw [firstIs, gapIs] at narrow
      refine (scanGap_narrow tidy.apart formed narrow.2 narrow.1 ?_ full).symm
      omega
    rw [if_neg narrow, lower, SearchTree.toList_node, scanGap_append]
    cases scanned : scanGap len stop left.toList cursor with
    | mk found moved =>
      cases found with
      | some address => rfl
      | none =>
        simp only [scanGap]
        split
        · rfl
        · exact upper _

/-! ## The least fit -/

/-- `len` bytes from an address on meet none of the nodes. -/
def Clears (len : Nat) (nodes : List Node) (address : Nat) : Prop :=
  ∀ node ∈ nodes, node.stop <= address ∨ address + len <= node.start

/-- What a scan from a cursor finds out. -/
def Scanned (len stop : Nat) (nodes : List Node) (cursor : Nat) : Option Nat × Nat -> Prop
  | (some found, _) => cursor <= found ∧ found + len <= stop ∧ Clears len nodes found ∧
      ∀ other, cursor <= other -> other + len <= stop -> Clears len nodes other -> found <= other
  | (none, moved) => cursor <= moved ∧ (∀ node ∈ nodes, node.stop <= moved) ∧
      ∀ other, cursor <= other -> other + len <= stop -> Clears len nodes other -> moved <= other

theorem scanGap_spec (positive : 0 < len) {nodes : List Node} (cursor : Nat)
    (apart : nodes.Pairwise (fun earlier later => earlier.stop <= later.start))
    (formed : ∀ node ∈ nodes, node.start < node.stop) :
    Scanned len stop nodes cursor (scanGap len stop nodes cursor) := by
  induction nodes generalizing cursor with
  | nil =>
    refine ⟨le_refl _, ?_, fun other lower _ _ => lower⟩
    intro node member
    cases member
  | cons node rest ih =>
    have here := formed node List.mem_cons_self
    rcases List.pairwise_cons.mp apart with ⟨ahead, restApart⟩
    rw [scanGap]
    split
    · rename_i fits
      refine ⟨le_refl _, by omega, ?_, fun other lower _ _ => lower⟩
      intro other member
      rcases List.mem_cons.mp member with same | later
      · rw [same]
        omega
      · have order := ahead other later
        omega
    rename_i misses
    -- No extent from the cursor on ends before the node, so a clear one starts behind it.
    have beyond : ∀ other, cursor <= other -> other + len <= stop ->
        Clears len (node :: rest) other ->
        max cursor node.stop <= other ∧ Clears len rest other := by
      intro other lower within clears
      refine ⟨?_, fun later member => clears later (List.mem_cons_of_mem _ member)⟩
      have side := clears node List.mem_cons_self
      omega
    have onward := ih (max cursor node.stop) restApart
      (fun other member => formed other (List.mem_cons_of_mem _ member))
    cases scanned : scanGap len stop rest (max cursor node.stop) with
    | mk found moved =>
      rw [scanned] at onward
      cases found with
      | some address =>
        rcases onward with ⟨lower, within, clears, least⟩
        refine ⟨by omega, within, ?_, ?_⟩
        · intro other member
          rcases List.mem_cons.mp member with same | later
          · rw [same]
            exact .inl (by omega)
          · exact clears other later
        · intro other otherLower otherWithin otherClears
          rcases beyond other otherLower otherWithin otherClears with ⟨past, restClears⟩
          exact least other past otherWithin restClears
      | none =>
        rcases onward with ⟨lower, passed, least⟩
        refine ⟨by omega, ?_, ?_⟩
        · intro other member
          rcases List.mem_cons.mp member with same | later
          · rw [same]
            omega
          · exact passed other later
        · intro other otherLower otherWithin otherClears
          rcases beyond other otherLower otherWithin otherClears with ⟨past, restClears⟩
          exact least other past otherWithin restClears

end Scan

/-! ## The search -/

/-- `len` bytes of the arena from an address on that neither a committed node
nor an owed extent meets. -/
structure Vacant (root : Root) (len address : Nat) : Prop where
  starts : root.layout.arena.start <= address
  ends : address + len <= root.layout.arena.stop
  clears : Clears len root.tree.toList address
  returned : ∀ owed ∈ root.around.owed,
    owed.stop <= address ∨ address + len <= owed.start

/-- The first hole between nodes from an address on. -/
def Root.candidate (root : Root) (len start : Nat) : Option Nat :=
  match gap len root.layout.arena.stop root.tree start with
  | (some found, _) => some found
  | (none, cursor) => if len <= root.layout.arena.stop - cursor then some cursor else none

/-- The owed extents that an extent meets. -/
def Root.owedMet (root : Root) (len found : Nat) : List ReservationRange :=
  root.around.owed.filter (fun owed =>
    decide (owed.start < found + len) && decide (found < owed.stop))

section Search

variable {root : Root} {len : Nat}

/-- An answer is the least address from `start` on with a property, if any has it. -/
structure LeastFrom (fits : Nat -> Prop) (start : Nat) (answer : Option Nat) : Prop where
  found : ∀ address, answer = some address ->
    start <= address ∧ fits address ∧ ∀ other, start <= other -> fits other -> address <= other
  none : answer = none -> ∀ other, start <= other -> ¬ fits other

theorem LeastFrom.eq_some {fits : Nat -> Prop} {start : Nat} {answer : Option Nat}
    (least : LeastFrom fits start answer) {address : Nat} (lower : start <= address)
    (here : fits address) (smallest : ∀ other, start <= other -> fits other -> address <= other) :
    answer = some address := by
  cases given : answer with
  | none => exact absurd here (least.none given address lower)
  | some found =>
    rcases least.found found given with ⟨after, there, smaller⟩
    rw [le_antisymm (smaller address lower here) (smallest found after there)]

theorem LeastFrom.unique {fits : Nat -> Prop} {start : Nat} {first second : Option Nat}
    (one : LeastFrom fits start first) (other : LeastFrom fits start second) : first = second := by
  cases given : second with
  | none =>
    cases answer : first with
    | none => rfl
    | some found =>
      rcases one.found found answer with ⟨after, here, _⟩
      exact absurd here (other.none given found after)
  | some found =>
    rcases other.found found given with ⟨after, here, smallest⟩
    exact one.eq_some after here smallest

theorem candidate_spec (positive : 0 < len) (tidy : Tidy root.tree)
    (balanced : root.tree.Balanced mappingSummary) (start : Nat) :
    LeastFrom (fun address => address + len <= root.layout.arena.stop ∧
      Clears len root.tree.toList address) start (root.candidate len start) := by
  have scanned : Scanned len root.layout.arena.stop root.tree.toList start
      (scanGap len root.layout.arena.stop root.tree.toList start) :=
    scanGap_spec positive start tidy.apart (fun node member => (tidy.formed node member).ordered)
  unfold Root.candidate
  rw [gap_eq_scan positive balanced tidy]
  cases result : scanGap len root.layout.arena.stop root.tree.toList start with
  | mk found moved =>
    rw [result] at scanned
    cases found with
    | some address =>
      rcases scanned with ⟨lower, within, clears, least⟩
      refine ⟨?_, nofun⟩
      rintro other ⟨rfl⟩
      exact ⟨lower, ⟨within, clears⟩, fun next after fits => least next after fits.1 fits.2⟩
    | none =>
      rcases scanned with ⟨lower, passed, least⟩
      dsimp only
      refine ⟨?_, ?_⟩
      · intro address moreover
        split_ifs at moreover with fits
        cases moreover
        exact ⟨lower, ⟨by omega, fun node member => .inl (passed node member)⟩,
          fun next after here => least next after here.1 here.2⟩
      · intro moreover other after here
        split_ifs at moreover with fits
        have past := least other after here.1 here.2
        omega

theorem firstFitFrom_succ (rounds start : Nat) :
    root.firstFitFrom len (rounds + 1) start =
      match root.candidate len start with
      | none => none
      | some found =>
        match checkedAdd found len with
        | none => none
        | some stop =>
          match ((root.around.owed.filter (fun owed =>
              decide (owed.start < stop) && decide (found < owed.stop))).map
                ReservationRange.stop).max? with
          | none => some found
          | some owedStop => root.firstFitFrom len rounds owedStop := by
  rfl

/-- A vacant extent behind a hole that an owed extent meets starts behind that extent. -/
theorem owed_passed {found other : Nat} {owed : ReservationRange}
    (met : owed ∈ root.owedMet len found) (vacant : Vacant root len other) (order : found <= other) :
    owed.stop <= other := by
  rcases List.mem_filter.mp met with ⟨listed, meets⟩
  rw [Bool.and_eq_true, decide_eq_true_eq, decide_eq_true_eq] at meets
  have side := vacant.returned owed listed
  omega

/-- The owed extents that end behind an address. -/
def Root.owedBehind (root : Root) (start : Nat) : List ReservationRange :=
  root.around.owed.filter (fun owed => decide (start < owed.stop))

theorem owedBehind_shrinks {start later : Nat} {owed : ReservationRange}
    (listed : owed ∈ root.around.owed) (behind : start < owed.stop) (passed : owed.stop <= later) :
    (root.owedBehind later).length < (root.owedBehind start).length := by
  unfold Root.owedBehind
  have nested : root.around.owed.filter (fun owed => decide (later < owed.stop)) =
      (root.around.owed.filter (fun owed => decide (start < owed.stop))).filter
        (fun owed => decide (later < owed.stop)) := by
    rw [List.filter_filter]
    refine List.filter_congr (fun other _ => ?_)
    by_cases late : later < other.stop
    · have early : start < other.stop := by omega
      simp [late, early]
    · simp [late]
  rw [nested]
  refine List.length_filter_lt_length_iff_exists.mpr ⟨owed, ?_, ?_⟩
  · exact List.mem_filter.mpr ⟨listed, decide_eq_true behind⟩
  · simpa using passed

/-- Enough rounds find the least vacant extent from an address on. -/
theorem firstFitFrom_spec (positive : 0 < len) (tidy : Tidy root.tree)
    (balanced : root.tree.Balanced mappingSummary) (rounds : Nat) : ∀ start,
    root.layout.arena.start <= start -> (root.owedBehind start).length < rounds ->
    LeastFrom (Vacant root len) start (root.firstFitFrom len rounds start) := by
  induction rounds with
  | zero =>
    intro start _ few
    omega
  | succ rounds ih =>
    intro start inArena few
    have holes := candidate_spec positive tidy balanced start
    rw [firstFitFrom_succ]
    cases hole : root.candidate len start with
    | none =>
      refine ⟨nofun, ?_⟩
      intro _ other lower vacant
      exact holes.none hole other lower ⟨vacant.ends, vacant.clears⟩
    | some address =>
      rcases holes.found address hole with ⟨lower, ⟨within, clears⟩, least⟩
      have word := root.layout.arena.in_word
      have sum : checkedAdd address len = some (address + len) :=
        checkedAdd_eq_some_iff.mpr ⟨rfl, by omega⟩
      have leastVacant : ∀ other, start <= other -> Vacant root len other ->
          address <= other :=
        fun other after vacant => least other after ⟨vacant.ends, vacant.clears⟩
      simp only [sum]
      rw [show root.around.owed.filter (fun owed => decide (owed.start < address + len) &&
        decide (address < owed.stop)) = root.owedMet len address from rfl]
      cases latest : ((root.owedMet len address).map ReservationRange.stop).max? with
      | none =>
        have nobody : root.owedMet len address = [] := by
          rw [List.max?_eq_none_iff] at latest
          exact List.map_eq_nil_iff.mp latest
        refine ⟨?_, nofun⟩
        rintro other ⟨rfl⟩
        refine ⟨lower, ⟨by omega, within, clears, ?_⟩, leastVacant⟩
        intro owed listed
        by_contra meets
        have member : owed ∈ root.owedMet len address := by
          refine List.mem_filter.mpr ⟨listed, ?_⟩
          rw [Bool.and_eq_true, decide_eq_true_eq, decide_eq_true_eq]
          omega
        rw [nobody] at member
        cases member
      | some owedStop =>
        rcases List.max?_eq_some_iff.mp latest with ⟨stops, _⟩
        rcases List.mem_map.mp stops with ⟨owed, met, same⟩
        rcases List.mem_filter.mp met with ⟨listed, meets⟩
        rw [Bool.and_eq_true, decide_eq_true_eq, decide_eq_true_eq] at meets
        have passed : ∀ other, start <= other -> Vacant root len other ->
            owedStop <= other := by
          intro other after vacant
          rw [<- same]
          exact owed_passed met vacant (leastVacant other after vacant)
        have fewer := owedBehind_shrinks listed (by omega : start < owed.stop)
          (le_of_eq same)
        have onward := ih owedStop (by omega) (by omega)
        dsimp only
        refine ⟨?_, ?_⟩
        · intro chosen answer
          rcases onward.found chosen answer with ⟨behind, vacant, leastLater⟩
          exact ⟨by omega, vacant,
            fun other after here => leastLater other (passed other after here) here⟩
        · intro answer other after vacant
          exact onward.none answer other (passed other after vacant) vacant

end Search

/-- On every reachable root and for every journal of owed extents, the search
ends within a round for each of them and one more, and finds the least vacant
extent of the arena exactly when there is one. -/
theorem firstFit_least {root : Root} (reachable : Reachable (fun _ _ => True) root)
    (around : Surroundings) {len : Nat} (positive : 0 < len) :
    (∀ rounds, around.owed.length + 1 <= rounds ->
      (root.within around).firstFitFrom len rounds root.layout.arena.start =
        (root.within around).firstFit len) ∧
    (∀ found, (root.within around).firstFit len = some found <->
      Vacant (root.within around) len found ∧
        ∀ other, Vacant (root.within around) len other -> found <= other) ∧
    ((root.within around).firstFit len = none <->
      ∀ address, ¬ Vacant (root.within around) len address) := by
  have spec : ∀ rounds, around.owed.length + 1 <= rounds ->
      LeastFrom (Vacant (root.within around) len) root.layout.arena.start
        ((root.within around).firstFitFrom len rounds root.layout.arena.start) := by
    intro rounds many
    have tidy : Tidy (root.within around).tree := reachable.aged.tidy
    have balanced : (root.within around).tree.Balanced mappingSummary := reachable.shaped.tree
    refine firstFitFrom_spec positive tidy balanced rounds _ (le_refl _) ?_
    exact lt_of_le_of_lt (List.length_filter_le _ _) (by omega : around.owed.length < rounds)
  have least := spec (around.owed.length + 1) (le_refl _)
  refine ⟨fun rounds many => (spec rounds many).unique least, ?_, ?_⟩
  · intro found
    refine ⟨fun answer => ?_, fun chosen => ?_⟩
    · rcases least.found found answer with ⟨_, vacant, smallest⟩
      exact ⟨vacant, fun other here => smallest other here.starts here⟩
    · exact least.eq_some chosen.1.starts chosen.1 (fun other _ here => chosen.2 other here)
  refine ⟨fun answer address vacant => least.none answer address vacant.starts vacant, ?_⟩
  intro nothing
  cases answer : (root.within around).firstFit len with
  | none => rfl
  | some found => exact absurd (least.found found answer).2.1 (nothing found)

/-- Three pages are mapped and the fourth is owed: the fifth is the least
vacant page. -/
theorem firstFit_least_owed :
    let around := { withLeftover none with owed := [arenaPages 3 4 (by decide) (by decide)] }
    Vacant ((runAll threePages emptyRoot).within around) pageSize 0x6000004000 ∧
      ∀ other, Vacant ((runAll threePages emptyRoot).within around) pageSize other ->
        0x6000004000 <= other := by
  intro around
  have reachable : Reachable (fun _ _ => True) (runAll threePages emptyRoot) :=
    reachable_runAll (.claimed emptyRoot_claimed) (allowedAll_true threePages emptyRoot)
  have found := (firstFit_least reachable around (by decide : 0 < pageSize)).2.1 0x6000004000
  exact found.mp (by decide +kernel)

end Reservation
end Carrick

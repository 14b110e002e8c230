import Carrick.Reservation.Sources

namespace Carrick
namespace Reservation

open Foundation
open Command

/-!
# What the range edits commit

Removing a range, rewriting the protection or the attributes of a range and
creating a node in a free range, described on the map of the tree.  The
description of a removal holds for a run that refuses half way as well: what
it took out lies in the range, and the watermark was raised for anonymous
memory first.  A root whose index counts exactly the bytes of its nodes never
gets stuck, and keeps that property.
-/

def Cell.isAnonymous (cell : Cell) : Bool := cell.flags.contains .anonymous

/-- The index counts the bytes that the committed nodes map from each source,
over an index and nodes that are in order. -/
structure Counted (root : Root) : Prop where
  index : IndexOk root
  reaching : Reaching root.tree
  counts : ∀ name, root.sourceRefCount name = total root.tree name

variable {root : Root} {tree : MappingTree}

theorem Counted.recut (counted : Counted root) (recut : Recut root.tree tree) :
    Counted { root with tree := tree } := by
  rcases recut.sources counted.reaching with ⟨reaching, totals⟩
  refine ⟨counted.index.congr ⟨rfl, rfl⟩, reaching, fun name => ?_⟩
  rw [totals]
  exact counted.counts name

/-- The counts stayed exact through an edit, and a source awaits its retirement
after it when it has no bytes left and had some, or was awaiting already. -/
structure Settled (before after : Root) : Prop extends Counted after where
  awaits : ∀ name, after.awaitsRetirement name <-> after.sourceRefCount name = 0 ∧
    (0 < before.sourceRefCount name ∨ before.awaitsRetirement name)

/-- A settled edit that only took bytes away. -/
structure Released (before after : Root) : Prop extends Settled before after where
  fewer : ∀ name, after.sourceRefCount name <= before.sourceRefCount name

variable {first second third : Root}

/-- Releases compose with a later edit: what it finds without bytes either had
some before or was awaiting already. -/
theorem Released.settled (earlier : Released first second) (later : Settled second third)
    (empty : ∀ name, third.sourceRefCount name = 0 -> 0 < second.sourceRefCount name -> 0 <
      first.sourceRefCount name) : Settled first third := by
  refine ⟨later.toCounted, fun name => ?_⟩
  have before := earlier.awaits name
  have after := later.awaits name
  have grounds := empty name
  rw [after, before]
  constructor
  · rintro ⟨none, held | ⟨_, reason⟩⟩
    · exact ⟨none, .inl (grounds none held)⟩
    · exact ⟨none, reason⟩
  rintro ⟨none, reason⟩
  refine ⟨none, ?_⟩
  by_cases held : 0 < second.sourceRefCount name
  · exact .inl held
  · exact .inr ⟨by omega, reason⟩

theorem Released.trans (earlier : Released first second) (later : Released second third) :
    Released first third :=
  ⟨earlier.settled later.toSettled (fun name _ held =>
      Nat.lt_of_lt_of_le held (earlier.fewer name)),
    fun name => Nat.le_trans (later.fewer name) (earlier.fewer name)⟩

variable {before after : Root}

theorem Settled.of_sameEntries (counted : Counted after)
    (awaits : ∀ name, after.awaitsRetirement name <-> before.awaitsRetirement name)
    (counts : ∀ name, after.sourceRefCount name = before.sourceRefCount name) :
    Settled before after := by
  refine ⟨counted, fun name => ?_⟩
  rw [awaits, counts]
  constructor
  · exact fun waiting => ⟨refCount_of_awaitsRetirement waiting, .inr waiting⟩
  · rintro ⟨none, held | waiting⟩
    · omega
    · exact waiting

theorem Released.of_sameIndex (counted : Counted after) (same : SameIndex before after) :
    Released before after :=
  ⟨Settled.of_sameEntries counted (fun name => awaitsRetirement_congr (same.find name))
      same.refCount,
    fun name => Nat.le_of_eq (same.refCount name)⟩

theorem Counted.congr (counted : Counted before) (tree : after.tree = before.tree)
    (same : SameIndex before after) : Counted after := by
  refine ⟨counted.index.congr same, tree ▸ counted.reaching, fun name => ?_⟩
  rw [same.refCount, tree]
  exact counted.counts name

theorem Settled.congr {middle : Root} (settled : Settled before middle)
    (tree : after.tree = middle.tree) (same : SameIndex middle after) : Settled before after := by
  refine ⟨settled.toCounted.congr tree same, fun name => ?_⟩
  rw [awaitsRetirement_congr (same.find name), same.refCount]
  exact settled.awaits name

/-! ## The bytes of a tidy tree -/

private theorem sum_len_le {nodes : List Node} {base top : Nat} (within : base <= top)
    (apart : nodes.Pairwise (fun earlier later => earlier.stop <= later.start))
    (ordered : ∀ node ∈ nodes, base <= node.start ∧ node.start < node.stop ∧
      node.stop <= top) :
    (nodes.map Node.len).sum <= top - base := by
  induction nodes generalizing base with
  | nil => simp
  | cons node rest ih =>
    rw [List.pairwise_cons] at apart
    have here := ordered node List.mem_cons_self
    have later := ih here.2.2 apart.2 (fun other member =>
      ⟨apart.1 other member, (ordered other (List.mem_cons_of_mem _ member)).2⟩)
    rw [List.map_cons, List.sum_cons]
    unfold Node.len at later ⊢
    omega

theorem Node.weight_le (node : Node) (name : SourceName) : node.weight name <= node.len := by
  unfold Node.weight
  split <;> omega

theorem total_lt (tidy : Tidy tree) (name : SourceName) :
    total tree name < wordLimit := by
  have lengths : (tree.toList.map Node.len).sum <= (wordLimit - 1) - 0 := by
    refine sum_len_le (Nat.zero_le _) tidy.apart (fun node member => ?_)
    have formed := tidy.formed node member
    have inWord := formed.in_word
    exact ⟨Nat.zero_le _, formed.ordered, by omega⟩
  have weights : total tree name <= (tree.toList.map Node.len).sum := by
    unfold total
    induction tree.toList with
    | nil => simp
    | cons node rest ih =>
      have here := node.weight_le name
      simp only [List.map_cons, List.sum_cons]
      omega
  have positive := wordLimit_pos
  omega

/-! ## Removing a range -/

/-- Some nodes inside the range are gone, and nothing else happened to the map. -/
structure Emptied (range : ReservationRange) (before after : Root) : Prop
    extends Frame before after where
  tidy : Tidy after.tree
  minted : after.minted = before.minted
  cells_or : ∀ address, cells after.tree address = cells before.tree address ∨
    range.contains address = true ∧ cells after.tree address = none
  cuts : ∀ address, Cut before.tree address -> Cut after.tree address
  watermark : after.retiredBelow = before.retiredBelow ∨ after.retiredBelow = before.minted
  lost : ∀ address cell, cells before.tree address = some cell -> cell.isAnonymous = true ->
    cells after.tree address = none -> after.retiredBelow = before.minted

theorem Emptied.refl (tidy : Tidy root.tree) (range : ReservationRange) :
    Emptied range root root := by
  refine ⟨Frame.refl root, tidy, rfl, fun _ => .inl rfl, fun _ cut => cut, .inl rfl, ?_⟩
  intro address cell found _ absent
  rw [found] at absent
  cases absent

theorem Emptied.trans {range : ReservationRange} (earlier : Emptied range first second)
    (later : Emptied range second third) :
    Emptied range first third := by
  refine ⟨earlier.toFrame.trans later.toFrame, later.tidy, later.minted.trans earlier.minted,
    ?_, fun address cut => later.cuts address (earlier.cuts address cut), ?_, ?_⟩
  · intro address
    rcases later.cells_or address with same | gone
    · rcases earlier.cells_or address with kept | ⟨inside, absent⟩
      · exact .inl (same.trans kept)
      · exact .inr ⟨inside, same.trans absent⟩
    · exact .inr gone
  · rcases later.watermark with same | raised
    · rcases earlier.watermark with kept | raisedBefore
      · exact .inl (same.trans kept)
      · exact .inr (same.trans raisedBefore)
    · exact .inr (raised.trans earlier.minted)
  intro address cell found anonymous absent
  cases middle : cells second.tree address with
  | none =>
    have raised := earlier.lost address cell found anonymous middle
    rcases later.watermark with same | raisedLater
    · exact same.trans raised
    · exact raisedLater.trans earlier.minted
  | some kept =>
    have same : kept = cell := by
      rcases earlier.cells_or address with equal | ⟨_, gone⟩
      · rw [middle, found] at equal
        exact Option.some.inj equal
      · rw [middle] at gone
        cases gone
    exact (later.lost address kept middle (same ▸ anonymous) absent).trans earlier.minted

theorem Emptied.of_recut (range : ReservationRange) (recut : Recut root.tree tree)
    (cuts : ∀ address, Cut root.tree address -> Cut tree address) :
    Emptied range root { root with tree := tree } := by
  refine ⟨⟨rfl, rfl, rfl, rfl, rfl, rfl, rfl⟩, recut.tidy, rfl,
    fun address => .inl (recut.cells_eq address), cuts, .inl rfl, ?_⟩
  intro address cell found _ absent
  rw [recut.cells_eq, found] at absent
  cases absent

theorem Emptied.of_sameMap (tidy : Tidy before.tree) (same : SameMap before after)
    (range : ReservationRange) : Emptied range before after := by
  refine ⟨same.toFrame, same.tree ▸ tidy, same.minted, fun address => .inl (by rw [same.tree]),
    fun address cut => same.tree ▸ cut, .inl same.retiredBelow, ?_⟩
  intro address cell found _ absent
  rw [same.tree, found] at absent
  cases absent

variable {node : Node}

theorem Emptied.forget (tidy : Tidy root.tree) {range : ReservationRange}
    (member : node ∈ root.tree.toList) (above : range.start <= node.start)
    (below : node.stop <= range.stop) : Emptied range root (forgetNode node root).2 := by
  have erased := cells_erase tidy member
  refine ⟨⟨rfl, rfl, rfl, rfl, rfl, rfl, rfl⟩, tidy.erase _, rfl, ?_, ?_, ?_, ?_⟩
  · intro address
    change cells (eraseNode node.start root.tree) address = _ ∨ _ ∧
      cells (eraseNode node.start root.tree) address = _
    rw [erased]
    by_cases covers : node.covers address
    · rw [if_pos covers]
      refine .inr ⟨ReservationRange.contains_iff.mpr ?_, rfl⟩
      unfold Node.covers at covers
      omega
    · rw [if_neg covers]
      exact .inl rfl
  · intro address cut other otherMember
    exact cut other ((mem_eraseNode tidy member).mp otherMember).1
  · change (if node.isAnonymous then root.minted else root.retiredBelow) = _ ∨
      (if node.isAnonymous then root.minted else root.retiredBelow) = _
    split
    · exact .inr rfl
    · exact .inl rfl
  intro address cell found anonymous absent
  change cells (eraseNode node.start root.tree) address = none at absent
  rw [erased] at absent
  split at absent
  · rename_i covers
    rw [cells_of_mem tidy member covers] at found
    cases found
    have flagged : node.isAnonymous = true := anonymous
    change (if node.isAnonymous then root.minted else root.retiredBelow) = _
    rw [if_pos flagged]
  · rw [found] at absent
    cases absent

/-- Taking a node out and counting its bytes off keeps the counts exact. -/
theorem releaseSource_spec (tidy : Tidy root.tree) (counted : Counted root)
    (member : node ∈ root.tree.toList) :
    ∃ after, releaseSource node (forgetNode node root).2 = (.ok (), after) ∧
      Released root after := by
  have kept := total_erase tidy member
  have reaching : Reaching (eraseNode node.start root.tree) := counted.reaching.erase tidy _
  have index : IndexOk (forgetNode node root).2 := counted.index.congr ⟨rfl, rfl⟩
  have ordered := (tidy.formed node member).ordered
  have counts : ∀ name, ((forgetNode node root).2).sourceRefCount name =
      node.weight name + total (eraseNode node.start root.tree) name :=
    fun name => (counted.counts name).trans (kept name)
  cases has : node.hostBacking with
  | none =>
    refine ⟨(forgetNode node root).2, ?_,
      Released.of_sameIndex ⟨index, reaching, fun name => ?_⟩ ⟨rfl, rfl⟩⟩
    · unfold releaseSource
      rw [has]
      rfl
    rw [counts]
    change _ = total (eraseNode node.start root.tree) name
    unfold Node.weight
    rw [has]
    simp
  | some source =>
    have weight : node.weight source.name = node.len := by
      unfold Node.weight
      rw [has]
      simp
    have positive : 0 < ((forgetNode node root).2).sourceRefCount source.name := by
      rw [counts, weight]
      unfold Node.len
      omega
    rcases find_of_refCount positive with ⟨entry, found, count⟩
    have enough : node.len <= entry.count := by
      rw [count, counts, weight]
      omega
    rcases sourceSub_spec index found enough with ⟨after, ran, indexAfter, _, entries⟩
    have same : SameMap (forgetNode node root).2 after := by
      have relates := SameMap.kept.sub source.name node.len (forgetNode node root).2
      rw [ran] at relates
      exact relates
    have named := (entries source.name).trans (if_pos rfl)
    have others : ∀ name, name ≠ source.name ->
        after.sourceFind name = ((forgetNode node root).2).sourceFind name :=
      fun name different => (entries name).trans (if_neg different)
    have sameCount : ∀ name, name ≠ source.name ->
        after.sourceRefCount name = root.sourceRefCount name :=
      fun name different => refCount_congr (congrArg _ (others name different))
    have countNamed : after.sourceRefCount source.name = entry.count - node.len :=
      refCount_of_find named
    have countBefore : root.sourceRefCount source.name = entry.count := count.symm
    refine ⟨after, ?_, ⟨⟨indexAfter, same.tree ▸ reaching, fun name => ?_⟩, fun name => ?_⟩,
      fun name => ?_⟩
    · unfold releaseSource
      rw [has]
      exact ran
    · rw [same.tree]
      change _ = total (eraseNode node.start root.tree) name
      have before := counts name
      by_cases asked : name = source.name
      · rw [asked] at before ⊢
        rw [countNamed]
        omega
      have unweighted : node.weight name = 0 := by
        unfold Node.weight
        rw [has, Option.map_some, if_neg]
        intro equal
        exact asked (Option.some.inj equal).symm
      have unchanged : after.sourceRefCount name =
          ((forgetNode node root).2).sourceRefCount name := sameCount name asked
      omega
    · by_cases asked : name = source.name
      · rw [asked, awaitsRetirement_of_find named, countNamed]
        have held : 0 < root.sourceRefCount source.name := positive
        simp only [held, true_or, and_true, Bool.or_eq_true, decide_eq_true_eq]
        exact ⟨fun both => both.1, fun none => ⟨none, .inr none⟩⟩
      rw [sameCount name asked, awaitsRetirement_congr (others name asked)]
      change root.awaitsRetirement name <-> _
      constructor
      · exact fun waiting => ⟨refCount_of_awaitsRetirement waiting, .inr waiting⟩
      · rintro ⟨none, held | waiting⟩
        · omega
        · exact waiting
    · by_cases asked : name = source.name
      · rw [asked, countNamed, countBefore]
        exact Nat.sub_le _ _
      · exact Nat.le_of_eq (sameCount name asked)

theorem length_eraseNode (tidy : Tidy tree) (member : node ∈ tree.toList) :
    tree.toList.length = (eraseNode node.start tree).toList.length + 1 := by
  have counted := (eraseNode_perm tidy member).length_eq
  simpa using counted

/-- The removal loop, by induction on its fuel.  Each round takes out the
lowest node of the range, which the earlier splits made lie inside it. -/
theorem removeNodes_spec (range : ReservationRange) (fuel : Nat) (tidy : Tidy root.tree)
    (cutStart : Cut root.tree range.start) (cutStop : Cut root.tree range.stop)
    (enough : root.tree.toList.length <= fuel) :
    ∃ answer after, removeNodes range fuel root = (answer, after) ∧ Emptied range root after ∧
      (answer = .ok () -> ∀ address, range.contains address = true ->
        cells after.tree address = none) ∧
      (Counted root -> answer = .ok () ∧ Released root after) := by
  have idle : Counted root -> (.ok () : Except Refusal Unit) = .ok () ∧ Released root root :=
    fun counted => ⟨rfl, Released.of_sameIndex counted (SameIndex.refl root)⟩
  induction fuel generalizing root with
  | zero =>
    refine ⟨.ok (), root, rfl, Emptied.refl tidy range, fun _ address _ => ?_, idle⟩
    rw [cells_eq_none_iff]
    intro node member
    rw [List.length_eq_zero_iff.mp (Nat.le_zero.mp enough)] at member
    cases member
  | succ fuel ih =>
    have stopped : (∀ node ∈ root.tree.toList,
        node.stop <= range.start ∨ range.stop <= node.start) ->
        ∀ address, range.contains address = true -> cells root.tree address = none := by
      intro outside address inside
      rw [cells_eq_none_iff]
      intro node member covers
      have bounds := ReservationRange.contains_iff.mp inside
      unfold Node.covers at covers
      rcases outside node member with below | above <;> omega
    rw [removeNodes, observe_bind_apply]
    cases found : root.next range.start with
    | none =>
      refine ⟨.ok (), root, rfl, Emptied.refl tidy range, fun _ => stopped (fun node member =>
        .inl (next_eq_none tidy found node member)), idle⟩
    | some node =>
      rcases next_eq_some tidy found with ⟨member, reaches, others⟩
      have ordered := (tidy.formed node member).ordered
      by_cases beyond : range.stop <= node.start
      · dsimp only
        rw [if_pos beyond]
        refine ⟨.ok (), root, rfl, Emptied.refl tidy range, fun _ => stopped ?_, idle⟩
        intro other otherMember
        by_cases same : other = node
        · exact .inr (same ▸ beyond)
        · rcases others other otherMember same with below | above
          · exact .inl below.1
          · exact .inr (by omega)
      dsimp only
      rw [if_neg beyond]
      have above : range.start <= node.start := by
        rcases cutStart node member with low | high <;> omega
      have below : node.stop <= range.stop := by
        rcases cutStop node member with low | high <;> omega
      have forgotten := Emptied.forget tidy member above below
      have ranForget : forgetNode node root = (.ok (), (forgetNode node root).2) := rfl
      rw [bind_of_ok ranForget]
      have sameMap := SameMap.kept.release node (forgetNode node root).2
      cases released : releaseSource node (forgetNode node root).2 with
      | mk answer middle =>
        rw [released] at sameMap
        have emptied := forgotten.trans (Emptied.of_sameMap forgotten.tidy sameMap range)
        cases answer with
        | error reason =>
          rw [bind_of_error released]
          refine ⟨.error reason, middle, rfl, emptied, nofun, ?_⟩
          intro counted
          rcases releaseSource_spec tidy counted member with ⟨after, ran, _⟩
          rw [released] at ran
          cases ran
        | ok done =>
          rw [bind_of_ok released]
          have shorter : middle.tree.toList.length <= fuel := by
            have count := length_eraseNode tidy member
            rw [sameMap.tree]
            change (eraseNode node.start root.tree).toList.length <= fuel
            omega
          rcases ih emptied.tidy (emptied.cuts _ cutStart)
            (emptied.cuts _ cutStop) shorter (fun counted =>
              ⟨rfl, Released.of_sameIndex counted (SameIndex.refl middle)⟩) with
            ⟨answer, after, ran, rest, cleared, keeps⟩
          refine ⟨answer, after, ran, emptied.trans rest, cleared, fun counted => ?_⟩
          rcases releaseSource_spec tidy counted member with ⟨other, ranRelease, release⟩
          rw [released] at ranRelease
          cases ranRelease
          rcases keeps release.toCounted with ⟨returned, releaseRest⟩
          exact ⟨returned, release.trans releaseRest⟩

theorem splitBounds_spec (range : ReservationRange) (spares : List SpareNode)
    (tidy : Tidy root.tree) :
    ∃ tree answer,
      splitBounds range spares root = (answer, { root with tree := tree }) ∧
      Recut root.tree tree ∧ (∀ address, Cut root.tree address -> Cut tree address) ∧
      (∀ rest, answer = .ok rest -> Cut tree range.start ∧ Cut tree range.stop ∧
        spares.length <= rest.length + root.splitsNeeded range) ∧
      (root.splitsNeeded range <= spares.length -> ∃ rest, answer = .ok rest) := by
  unfold splitBounds
  rcases splitAt_spec root tidy range.start_aligned spares with ⟨refused, empty, straddling⟩ | split
  · refine ⟨root.tree, .error .stale, bind_of_error refused, Recut.refl tidy, fun _ cut => cut,
      nofun, fun enough => ?_⟩
    unfold Root.splitsNeeded at enough
    rw [straddling, empty] at enough
    simp at enough
  rcases split with ⟨first, ran, recut, cutStart, cuts⟩
  rw [bind_of_ok ran]
  have straddleLe : (Root.straddles { root with tree := first } range.stop).toNat <=
      (root.straddles range.stop).toNat := by
    cases whole : root.straddles range.stop with
    | true => exact Bool.toNat_le _
    | false =>
      have cut := cuts range.stop (cut_of_not_straddles tidy whole)
      rw [not_straddles_of_cut { root with tree := first } recut.tidy cut]
  rcases splitAt_spec { root with tree := first } recut.tidy range.stop_aligned
    (spares.drop (root.straddles range.start).toNat) with ⟨refused, empty, straddling⟩ | split
  · refine ⟨first, .error .stale, refused, recut, cuts, nofun,
      fun enough => ?_⟩
    rw [straddling] at straddleLe
    have short := List.drop_eq_nil_iff.mp empty
    unfold Root.splitsNeeded at enough
    simp only [Bool.toNat_true] at straddleLe
    omega
  rcases split with ⟨second, ranSecond, recutSecond, cutStop, cutsSecond⟩
  refine ⟨second, _, ranSecond, recut.trans recutSecond,
    fun address cut => cutsSecond address (cuts address cut), ?_, fun _ => ⟨_, rfl⟩⟩
  intro rest answered
  cases answered
  refine ⟨cutsSecond _ cutStart, cutStop, ?_⟩
  rw [List.length_drop, List.length_drop]
  unfold Root.splitsNeeded
  omega

theorem removeRange_spec (range : ReservationRange) (spares : List SpareNode)
    (tidy : Tidy root.tree) :
    ∃ answer after, removeRange range spares root = (answer, after) ∧ Emptied range root after ∧
      (∀ rest, answer = .ok rest ->
        (∀ address, range.contains address = true -> cells after.tree address = none) ∧
        spares.length <= rest.length + root.splitsNeeded range) ∧
      (root.splitsNeeded range <= spares.length -> Counted root ->
        (∃ rest, answer = .ok rest) ∧ Released root after) := by
  rcases splitBounds_spec range spares tidy with ⟨tree, answer, ran, recut, cuts, done, enough⟩
  have split := Emptied.of_recut range recut cuts
  unfold removeRange
  cases answer with
  | error reason =>
    refine ⟨.error reason, _, bind_of_error ran, split, nofun, ?_⟩
    intro room _
    rcases enough room with ⟨rest, wrong⟩
    cases wrong
  | ok rest =>
    rcases done rest rfl with ⟨cutStart, cutStop, used⟩
    rw [bind_of_ok ran, observe_bind_apply]
    rcases removeNodes_spec range tree.toList.length split.tidy cutStart cutStop
      le_rfl with ⟨answer, after, removed, emptied, cleared, keeps⟩
    cases answer with
    | error reason =>
      refine ⟨.error reason, after, bind_of_error removed, split.trans emptied,
        nofun, ?_⟩
      intro _ counted
      have wrong := (keeps (counted.recut recut)).1
      cases wrong
    | ok done =>
      refine ⟨.ok rest, after, bind_of_ok removed, split.trans emptied, ?_, ?_⟩
      · intro other same
        cases same
        exact ⟨cleared rfl, used⟩
      intro _ counted
      have recounted := counted.recut recut
      have unchanged : Released root { root with tree := tree } :=
        Released.of_sameIndex recounted ⟨rfl, rfl⟩
      exact ⟨⟨rest, rfl⟩, unchanged.trans (keeps recounted).2⟩

/-! ## Relations across a removal -/

/-- A relation that holds across a cut, across taking a node out and across the
writes to the index. -/
structure KeptByRemoval (relation : Root -> Root -> Prop) : Prop extends KeptByWrites relation where
  cut : ∀ address (node : Node), Relates relation (edit (fun root : Root =>
    { root with
      tree := insertNode (node.highHalf address)
        (insertNode (node.lowHalf address) (eraseNode node.start root.tree)) }) : Guarded Unit)
  forget : ∀ node, Relates relation (forgetNode node)

section Removal

variable {relation : Root -> Root -> Prop} [IsPreorder Root relation]

theorem takeSpare_relates (spares : List SpareNode) : Relates relation (takeSpare spares) := by
  cases spares with
  | nil => exact Relates.refuse _
  | cons spare rest => exact Relates.pure _

namespace KeptByRemoval

variable (kept : KeptByRemoval relation)

include kept

theorem splitAt (address : Nat) (spares : List SpareNode) :
    Relates relation (splitAt address spares) := by
  refine Relates.observing (fun found => ?_)
  split
  · exact Relates.pure _
  · refine Relates.bind (takeSpare_relates spares) (fun rest => ?_)
    exact Relates.bind (kept.cut _ _) (fun _ => Relates.pure _)

theorem splitBounds (range : ReservationRange) (spares : List SpareNode) :
    Relates relation (splitBounds range spares) :=
  Relates.bind (kept.splitAt _ _) (fun _ => kept.splitAt _ _)

theorem removeNodes (range : ReservationRange) (fuel : Nat) :
    Relates relation (removeNodes range fuel) := by
  induction fuel with
  | zero => exact Relates.pure _
  | succ fuel ih =>
    refine Relates.observing (fun found => ?_)
    split
    · exact Relates.pure _
    split
    · exact Relates.pure _
    · refine Relates.bind (kept.forget _) (fun _ => ?_)
      exact Relates.bind (kept.release _) (fun _ => ih)

theorem removeRange (range : ReservationRange) (spares : List SpareNode) :
    Relates relation (removeRange range spares) := by
  refine Relates.bind (kept.splitBounds _ _) (fun rest => ?_)
  refine Relates.observing (fun count => ?_)
  exact Relates.bind (kept.removeNodes _ _) (fun _ => Relates.pure _)

end KeptByRemoval

end Removal

/-! ## Entries survive the edits of the tree -/

def KeepsEntries (before after : Root) : Prop :=
  ∀ name, (before.sourceFind name).isSome = true -> (after.sourceFind name).isSome = true

theorem KeepsEntries.refl (root : Root) : KeepsEntries root root := fun _ found => found

theorem KeepsEntries.trans (first second third : Root) (earlier : KeepsEntries first second)
    (later : KeepsEntries second third) : KeepsEntries first third :=
  fun name found => later name (earlier name found)

instance : IsPreorder Root KeepsEntries where
  refl := KeepsEntries.refl
  trans := KeepsEntries.trans

theorem writeSource_keepsEntries (entry : SourceEntry) :
    Relates KeepsEntries (writeSource entry) := by
  intro root name found
  rw [writeSource_find]
  split
  · simpa using found
  · exact found

theorem KeepsEntries.kept : KeptByRemoval KeepsEntries :=
  ⟨⟨writeSource_keepsEntries, fun _ _ _ present => present⟩, fun _ _ _ _ present => present,
    fun _ _ _ present => present⟩

/-! ## Creating a node -/

/-- Where the incarnation of a created node comes from: a neighbour younger
than the watermark, or a fresh mint. -/
def Adopted (before after : Root) (incarnation : Nat) : Prop :=
  (∃ neighbour ∈ before.tree.toList, neighbour.incarnation = incarnation ∧
    before.retiredBelow < incarnation ∧ after.minted = before.minted) ∨
  (incarnation = before.minted + 1 ∧ after.minted = before.minted + 1)

theorem incarnationFor_spec (tidy : Tidy root.tree) (node : Node) :
    ∃ incarnation minted, incarnationFor node root =
        (.ok incarnation, { root with minted := minted }) ∧
      Adopted root { root with minted := minted } incarnation := by
  unfold incarnationFor
  rw [observe_bind_apply]
  cases onLeft : (root.leftNeighbour node).filter (root.joinable node) with
  | some left =>
    rcases Option.filter_eq_some_iff.mp onLeft with ⟨searched, joinable⟩
    unfold Root.joinable at joinable
    rw [Bool.and_eq_true, decide_eq_true_eq] at joinable
    exact ⟨left.incarnation, root.minted, rfl,
      .inl ⟨left, (leftNeighbour_eq_some tidy searched).1, rfl, joinable.2, rfl⟩⟩
  | none =>
    dsimp only
    rw [observe_bind_apply]
    cases onRight : (root.rightNeighbour node).filter (root.joinable node) with
    | some right =>
      rcases Option.filter_eq_some_iff.mp onRight with ⟨searched, joinable⟩
      unfold Root.joinable at joinable
      rw [Bool.and_eq_true, decide_eq_true_eq] at joinable
      exact ⟨right.incarnation, root.minted, rfl,
        .inl ⟨right, (rightNeighbour_eq_some tidy searched).1, rfl, joinable.2, rfl⟩⟩
    | none => exact ⟨root.minted + 1, root.minted + 1, rfl, .inr ⟨rfl, rfl⟩⟩

/-- A created node is the only change of the map. -/
structure Created (node : Node) (before after : Root) : Prop extends Frame before after where
  tidy : Tidy after.tree
  retiredBelow : after.retiredBelow = before.retiredBelow
  placed : ∃ incarnation, Adopted before after incarnation ∧
    ∀ address, cells after.tree address =
      if node.covers address then some ({ node with incarnation := incarnation }.cell address)
      else cells before.tree address

/-- A creation that was refused by its source leaves the tree as it was. -/
structure NotCreated (before after : Root) : Prop extends Frame before after where
  tree : after.tree = before.tree
  retiredBelow : after.retiredBelow = before.retiredBelow
  minted : after.minted = before.minted ∨ after.minted = before.minted + 1

theorem Adopted.minted_cases {incarnation : Nat} (adopted : Adopted before after incarnation) :
    after.minted = before.minted ∨ after.minted = before.minted + 1 := by
  rcases adopted with ⟨_, _, _, _, same⟩ | ⟨_, more⟩
  · exact .inl same
  · exact .inr more

theorem createNode_cases (tidy : Tidy root.tree) (formed : node.WellFormed)
    (free : Free root.tree node.start node.stop) :
    ∃ incarnation minted answer middle, Adopted root { root with minted := minted } incarnation ∧
      chargeSource node { root with minted := minted } = (answer, middle) ∧
      SameMap { root with minted := minted } middle ∧
      (∀ reason, answer = .error reason -> createNode node root = (.error reason, middle)) ∧
      (answer = .ok () -> ∃ tree merged, createNode node root = (.ok (), { middle with tree := tree }) ∧
        Coalesced root.tree { node with incarnation := incarnation } tree merged) := by
  rcases incarnationFor_spec tidy node with ⟨incarnation, minted, ranIncarnation, adopted⟩
  have charged := SameMap.kept.charge node { root with minted := minted }
  cases ran : chargeSource node { root with minted := minted } with
  | mk answer middle =>
    rw [ran] at charged
    refine ⟨incarnation, minted, answer, middle, adopted, ran, charged, ?_, ?_⟩
    · rintro reason rfl
      unfold createNode
      rw [bind_of_ok ranIncarnation, bind_of_error ran]
    rintro rfl
    have sameTree : middle.tree = root.tree := charged.tree
    have placedFormed : ({ node with incarnation := incarnation } : Node).WellFormed :=
      ⟨formed.ordered, formed.start_aligned, formed.stop_aligned, formed.in_word⟩
    rcases insertCoalescing_spec middle (sameTree ▸ tidy) placedFormed (sameTree ▸ free) with
      ⟨tree, merged, ranInsert, coalesced⟩
    refine ⟨tree, merged, ?_, sameTree ▸ coalesced⟩
    unfold createNode
    rw [bind_of_ok ranIncarnation, bind_of_ok ran]
    exact ranInsert

theorem createNode_spec (tidy : Tidy root.tree) (formed : node.WellFormed)
    (free : Free root.tree node.start node.stop) :
    (∃ reason after, createNode node root = (.error reason, after) ∧ NotCreated root after) ∨
    ∃ after, createNode node root = (.ok (), after) ∧ Created node root after := by
  rcases createNode_cases tidy formed free with
    ⟨incarnation, minted, answer, middle, adopted, _, charged, failing, returning⟩
  have frame : Frame root middle := ⟨charged.mm, charged.generation, charged.sequence,
    charged.layout, charged.pending, charged.admitted, charged.forkPending⟩
  cases answer with
  | error reason =>
    refine .inl ⟨reason, middle, failing reason rfl, frame, charged.tree,
      charged.retiredBelow, ?_⟩
    rw [charged.minted]
    exact adopted.minted_cases
  | ok done =>
    rcases returning rfl with ⟨tree, merged, ran, coalesced⟩
    have placedFormed : ({ node with incarnation := incarnation } : Node).WellFormed :=
      ⟨formed.ordered, formed.start_aligned, formed.stop_aligned, formed.in_word⟩
    refine .inr ⟨_, ran, ⟨frame.mm, frame.generation, frame.sequence, frame.layout,
      frame.pending, frame.admitted, frame.forkPending⟩, coalesced.recut.tidy,
      charged.retiredBelow, incarnation, ?_, ?_⟩
    · rcases adopted with ⟨neighbour, member, same, young, kept⟩ | ⟨fresh, more⟩
      · exact .inl ⟨neighbour, member, same, young, charged.minted.trans kept⟩
      · exact .inr ⟨fresh, charged.minted.trans more⟩
    intro address
    rw [coalesced.recut.cells_eq, cells_insert tidy placedFormed free]
    have coverage : ({ node with incarnation := incarnation } : Node).covers address <->
        node.covers address := Iff.rfl
    rw [if_congr coverage rfl rfl]

/-- The bytes of a node are counted against a source that has an entry. -/
theorem chargeSource_spec (root : Root) (tidy : Tidy root.tree) (index : IndexOk root)
    (counts : ∀ name, root.sourceRefCount name = total root.tree name)
    (formed : node.WellFormed) (free : Free root.tree node.start node.stop)
    (registered : ∀ backing, node.hostBacking = some backing -> (root.sourceFind
      backing.name).isSome = true) :
    ∃ after, chargeSource node root = (.ok (), after) ∧ IndexOk after ∧
      (∀ name, after.sourceRefCount name = node.weight name + root.sourceRefCount name) ∧
      ∀ name, after.sourceRefCount name = 0 -> after.sourceFind name = root.sourceFind name := by
  cases has : node.hostBacking with
  | none =>
    refine ⟨root, ?_, index, fun name => ?_, fun _ _ => rfl⟩
    · unfold chargeSource
      rw [has]
      rfl
    · unfold Node.weight
      rw [has]
      simp
  | some backing =>
    have weight : node.weight backing.name = node.len := by
      unfold Node.weight
      rw [has]
      simp
    rcases Option.isSome_iff_exists.mp (registered backing has) with ⟨entry, found⟩
    have fits : entry.count + node.len < wordLimit := by
      have room := total_lt (tidy.insert formed free) backing.name
      rw [total_insert, weight, <- counts, refCount_of_find found] at room
      omega
    rcases sourceAdd_spec index found fits with ⟨after, ran, indexAfter, _, entries⟩
    refine ⟨after, ?_, indexAfter, fun name => ?_, fun name none => ?_⟩
    · unfold chargeSource
      rw [has]
      exact ran
    · by_cases asked : name = backing.name
      · rw [refCount_of_find ((entries name).trans (if_pos asked)), asked, weight,
          refCount_of_find found]
        exact Nat.add_comm _ _
      have unweighted : node.weight name = 0 := by
        unfold Node.weight
        rw [has, Option.map_some, if_neg]
        intro equal
        exact asked (Option.some.inj equal).symm
      have sameCount : after.sourceRefCount name = root.sourceRefCount name := by
        refine refCount_congr ?_
        rw [entries, if_neg asked]
      omega
    · refine (entries name).trans (if_neg ?_)
      intro asked
      have ordered := formed.ordered
      rw [refCount_of_find ((entries name).trans (if_pos asked))] at none
      unfold Node.len at none
      dsimp only at none
      omega

/-- A node whose source is registered is created, and its bytes are counted. -/
theorem createNode_counted (tidy : Tidy root.tree) (counted : Counted root)
    (formed : node.WellFormed) (free : Free root.tree node.start node.stop)
    (reaches : node.Reaches)
    (registered : ∀ backing, node.hostBacking = some backing -> (root.sourceFind
      backing.name).isSome = true) :
    ∃ after, createNode node root = (.ok (), after) ∧ Settled root after ∧
      ∀ name, root.sourceRefCount name <= after.sourceRefCount name := by
  rcases createNode_cases tidy formed free with
    ⟨incarnation, minted, answer, middle, _, ran, charged, _, returning⟩
  rcases chargeSource_spec { root with minted := minted } tidy
    (counted.index.congr ⟨rfl, rfl⟩) counted.counts formed free registered with
    ⟨after, ranCharge, indexAfter, counts, unchanged⟩
  rw [ran] at ranCharge
  cases ranCharge
  rcases returning rfl with ⟨tree, merged, created, coalesced⟩
  have placedReaches : ({ node with incarnation := incarnation } : Node).Reaches := reaches
  rcases coalesced.recut.sources (counted.reaching.insert placedReaches) with ⟨reaching, totals⟩
  have more : ∀ name, root.sourceRefCount name <= middle.sourceRefCount name := by
    intro name
    rw [counts name]
    exact Nat.le_add_left _ _
  refine ⟨_, created, ⟨⟨indexAfter.congr ⟨rfl, rfl⟩, reaching, fun name => ?_⟩, fun name => ?_⟩, more⟩
  · have weight : ({ node with incarnation := incarnation } : Node).weight name =
        node.weight name := rfl
    rw [totals, total_insert, weight, <- counted.counts name]
    exact counts name
  change middle.awaitsRetirement name <-> middle.sourceRefCount name = 0 ∧ _
  have grown := more name
  constructor
  · intro waiting
    have none := refCount_of_awaitsRetirement waiting
    exact ⟨none, .inr ((awaitsRetirement_congr (unchanged name none)).mp waiting)⟩
  · rintro ⟨none, held | waiting⟩
    · omega
    · exact (awaitsRetirement_congr (unchanged name none)).mpr waiting

end Reservation
end Carrick

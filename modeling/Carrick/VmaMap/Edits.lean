import Carrick.VmaMap.Meaning

namespace Carrick
namespace VmaMap

open Foundation
open List (drop_left mem_append mem_append_left mem_append_right mem_cons_self mem_singleton pairwise_append)

/-!
# Edits of the map

Every edit of a coalesced vector leaves a coalesced vector, and is a simple
change of the finite map: a range erased, overwritten or rewritten.  The only
way for an edit to panic is to cut a row at an address whose file page offset
does not fit in a word.
-/

/-! ## Cutting a row -/

/-- A row that reaches over the address, whose offset there leaves the word. -/
def SemanticVma.overflowsAt (row : SemanticVma) (cut : Nat) : Prop :=
  row.start < cut ∧ cut < row.stop ∧ ∃ base, row.attributes.filePageOffset = some base ∧
    wordLimit <= base + (cut - row.start) / pageSize

def OverflowsAt (rows : Rows) (cut : Nat) : Prop :=
  ∃ row ∈ rows, row.overflowsAt cut

theorem offsetBy_eq_none_iff {attributes : VmaAttributes} {delta : Nat} :
    attributes.offsetBy delta = none <->
      ∃ base, attributes.filePageOffset = some base ∧ wordLimit <= base + delta / pageSize := by
  unfold VmaAttributes.offsetBy
  cases attributes.filePageOffset with
  | none => simp
  | some base =>
    simp [checkedAdd]

theorem offsetBy_eq_some {attributes moved : VmaAttributes} {delta : Nat}
    (computed : attributes.offsetBy delta = some moved) :
    moved = attributes.withOffset
        (attributes.filePageOffset.map (fun offset => offset + delta / pageSize)) ∧
      ∀ offset, moved.filePageOffset = some offset -> offset < wordLimit := by
  unfold VmaAttributes.offsetBy at computed
  cases has : attributes.filePageOffset with
  | none =>
    rw [has] at computed
    cases computed
    refine ⟨?_, fun offset wrong => ?_⟩
    · rw [Option.map_none, <- has]
      rfl
    · rw [has] at wrong
      cases wrong
  | some base =>
    rw [has] at computed
    rcases Option.map_eq_some_iff.mp computed with ⟨offset, sum, same⟩
    rcases checkedAdd_eq_some_iff.mp sum with ⟨total, bound⟩
    rw [<- same, Option.map_some, <- total]
    refine ⟨rfl, ?_⟩
    rintro _ ⟨rfl⟩
    omega

/-- A row cut in two, as two rows that join again.  The upper one carries the
file page offset of its own start. -/
structure CutAt (row low high : SemanticVma) (cut : Nat) : Prop where
  low_eq : low = ⟨row.start, cut, row.attributes⟩
  high_start : high.start = cut
  high_stop : high.stop = row.stop
  paged_low : low.Paged
  paged_high : high.Paged
  continued : low.continuedBy high = true
  whole : low.extendedBy high = row

variable {row : SemanticVma}

theorem cutAt_of_offsetBy (paged : row.Paged) {cut : Nat}
    (aligned : pageSize ∣ cut) (above : row.start < cut) (below : cut < row.stop)
    {attributes : VmaAttributes}
    (computed : row.attributes.offsetBy (cut - row.start) = some attributes) :
    CutAt row ⟨row.start, cut, row.attributes⟩ ⟨cut, row.stop, attributes⟩ cut := by
  rcases offsetBy_eq_some computed with ⟨moved, word⟩
  refine ⟨rfl, rfl, rfl, ⟨above, paged.start_aligned, aligned, paged.offset_word⟩,
    ⟨below, aligned, paged.stop_aligned, word⟩, ?_, rfl⟩
  refine continuedBy_iff.mpr ⟨rfl, canMergeWith_iff.mpr ⟨?_, ?_⟩⟩
  · refine offsetContiguous_iff.mpr ?_
    dsimp only
    cases has : row.attributes.filePageOffset with
    | none =>
      refine .inl ⟨rfl, ?_⟩
      rw [moved, has]
      rfl
    | some base =>
      refine .inr ⟨base, base + (cut - row.start) / pageSize, rfl, ?_, rfl, ?_⟩
      · rw [moved, has]
        rfl
      · refine word _ ?_
        rw [moved, has]
        rfl
  · dsimp only
    rw [moved]
    rfl

theorem CutAt.meaning_eq {low high : SemanticVma} {cut : Nat} (cutAt : CutAt row low high cut)
    (address : Nat) : meaning [row] address = meaning [low, high] address := by
  have goodLow : kit.good low := cutAt.paged_low
  have joined := Joining.meaning_join goodLow cutAt.paged_high cutAt.continued [] address
  have same : kit.join low high = row := cutAt.whole
  rw [same] at joined
  exact joined

theorem CutAt.apart_behind {low high other : SemanticVma} {cut : Nat}
    (cutAt : CutAt row low high cut) (apart : kit.Apart row other) : kit.Apart high other := by
  refine ⟨?_, ?_⟩
  · change high.stop <= _
    rw [cutAt.high_stop]
    exact apart.1
  · have same : (low.extendedBy high).continuedBy other = high.continuedBy other :=
      extendedBy_continuedBy cutAt.paged_low cutAt.paged_high cutAt.continued
    rw [cutAt.whole] at same
    exact same.symm.trans apart.2

/-! ## Rows around a range -/

theorem meaning_append (first second : Rows) (address : Nat) :
    meaning (first ++ second) address = (meaning first address).or (meaning second address) :=
  Joining.meaning_append first second address

variable {rows : Rows}

theorem meaning_eq_none {address : Nat}
    (uncovered : ∀ row ∈ rows, address < row.start ∨ row.stop <= address) :
    meaning rows address = none := by
  refine Joining.meaning_eq_none (fun row member covered => ?_)
  have lower : row.start <= address := covered.1
  have upper : address < row.stop := covered.2
  rcases uncovered row member with below | above <;> omega

/-- The vector around a nonempty range: rows before it, rows that meet it and
rows behind it. -/
structure Around (rows before middle after : Rows) (start stop : Nat) : Prop where
  whole : rows = before ++ (middle ++ after)
  first : firstMeeting rows start = before.length
  last : behindMeeting rows stop = before.length + middle.length
  before_stops : ∀ row ∈ before, row.stop <= start
  meets : ∀ row ∈ middle, start < row.stop ∧ row.start < stop
  after_starts : ∀ row ∈ after, stop <= row.start

variable {stop start : Nat}

theorem around (coalesced : Coalesced rows)
    (nonempty : start < stop) :
    ∃ before middle after, Around rows before middle after start stop := by
  rcases coalesced.ordered.window nonempty with
    ⟨before, middle, after, whole, first, last, stops, meets, starts⟩
  exact ⟨before, middle, after, whole, first, last, stops, meets, starts⟩

namespace Around

variable {before middle after : Rows}

section Around

variable (parts : Around rows before middle after start stop)

include parts

theorem splice_eq (replacements : Rows) :
    splice rows (firstMeeting rows start) (behindMeeting rows stop) replacements =
      before ++ (replacements ++ after) := by
  unfold splice
  rw [parts.first, parts.last, parts.whole, List.take_left, <- List.drop_drop, drop_left,
    drop_left]

theorem run_eq :
    (rows.drop (firstMeeting rows start)).take
      (behindMeeting rows stop - firstMeeting rows start) = middle := by
  rw [parts.first, parts.last, parts.whole, drop_left, Nat.add_sub_cancel_left, List.take_left]

theorem empty_iff :
    behindMeeting rows stop <= firstMeeting rows start <-> middle = [] := by
  rw [parts.first, parts.last]
  cases middle <;> simp

theorem overflowsAt_iff {cut : Nat} (above : start <= cut) (below : cut <= stop) :
    OverflowsAt rows cut <-> OverflowsAt middle cut := by
  constructor
  · rintro ⟨row, member, overflows⟩
    rw [parts.whole] at member
    rcases mem_append.mp member with inBefore | rest
    · have stops := parts.before_stops row inBefore
      have past := overflows.2.1
      omega
    rcases mem_append.mp rest with inMiddle | inAfter
    · exact ⟨row, inMiddle, overflows⟩
    · have starts := parts.after_starts row inAfter
      have under := overflows.1
      omega
  · rintro ⟨row, member, overflows⟩
    refine ⟨row, ?_, overflows⟩
    rw [parts.whole]
    exact mem_append_right _ (mem_append_left _ member)

theorem meaning_before {address : Nat} (inside : start <= address) :
    meaning before address = none := by
  refine meaning_eq_none (fun row member => .inr ?_)
  have stops := parts.before_stops row member
  omega

theorem meaning_after {address : Nat} (inside : address < stop) : meaning after address = none := by
  refine meaning_eq_none (fun row member => .inl ?_)
  have starts := parts.after_starts row member
  omega

end Around

end Around

/-! ## Removing a range -/

/-- The finite map without a range. -/
def erased (start stop : Nat) (old : Nat -> Option VmaAttributes) (address : Nat) :
    Option VmaAttributes :=
  if start <= address ∧ address < stop then none else old address

theorem rightPart_cases (paged : row.Paged)
    (aligned : pageSize ∣ stop) (above : row.start < stop) :
    (row.overflowsAt stop ∧ rightPart row stop = none) ∨
    (¬ row.overflowsAt stop ∧ ∃ right, rightPart row stop = some right ∧
      ((row.stop <= stop ∧ right = []) ∨
        ∃ low high, CutAt row low high stop ∧ right = [high])) := by
  unfold rightPart
  by_cases reaches : stop < row.stop
  · rw [if_pos reaches]
    cases computed : row.attributes.offsetBy (stop - row.start) with
    | none => exact .inl ⟨⟨above, reaches, offsetBy_eq_none_iff.mp computed⟩, rfl⟩
    | some attributes =>
      refine .inr ⟨?_, _, rfl, .inr ⟨_, _,
        cutAt_of_offsetBy paged aligned above reaches computed, rfl⟩⟩
      rintro ⟨_, _, overflows⟩
      rw [offsetBy_eq_none_iff.mpr overflows] at computed
      cases computed
  · rw [if_neg reaches]
    exact .inr ⟨fun overflows => reaches overflows.2.1, [], rfl, .inl ⟨by omega, rfl⟩⟩

theorem meaning_leftPart {address : Nat} (below : address < start)
    (meets : start < row.stop) : meaning (leftPart row start) address = meaning [row] address := by
  unfold leftPart
  split
  · have same : kit.covers ⟨row.start, start, row.attributes⟩ address <-> kit.covers row address := by
      change row.start <= address ∧ address < start <-> row.start <= address ∧ address < row.stop
      omega
    change (if _ then _ else _) = (if _ then _ else _)
    rw [if_congr same rfl rfl]
    rfl
  · refine (meaning_eq_none (fun other member => ?_)).symm
    rw [mem_singleton.mp member]
    omega

theorem mem_leftPart {other : SemanticVma} (member : other ∈ leftPart row start) :
    row.start < start ∧ other = ⟨row.start, start, row.attributes⟩ := by
  unfold leftPart at member
  split at member
  · exact ⟨by assumption, mem_singleton.mp member⟩
  · cases member

/-- Behind the range, the right part of a row that meets it is the row. -/
theorem meaning_rightPart {address : Nat} (above : stop <= address)
    {right : Rows} (parts : (row.stop <= stop ∧ right = []) ∨
      ∃ low high, CutAt row low high stop ∧ right = [high]) :
    meaning right address = meaning [row] address := by
  rcases parts with ⟨ends, rfl⟩ | ⟨low, high, cutAt, rfl⟩
  · refine (meaning_eq_none (fun other member => ?_)).symm
    rw [mem_singleton.mp member]
    omega
  rw [cutAt.meaning_eq address]
  change _ = meaning ([low] ++ [high]) address
  rw [meaning_append]
  have none : meaning [low] address = none := by
    refine meaning_eq_none (fun other member => ?_)
    rw [mem_singleton.mp member, cutAt.low_eq]
    exact .inr above
  rw [none, Option.none_or]

/-- The rows that meet a range, with the first and the last of them named. -/
theorem Around.ends {before middle after : Rows}
    (parts : Around rows before middle after start stop) (nonempty : middle ≠ []) :
    ∃ head tail front last, middle = head :: tail ∧ middle = front ++ [last] ∧
      rows[firstMeeting rows start]? = some head ∧
      rows[behindMeeting rows stop - 1]? = some last := by
  rcases List.eq_nil_or_concat middle with empty | ⟨front, last, whole⟩
  · exact absurd empty nonempty
  rw [List.concat_eq_append] at whole
  cases shape : middle with
  | nil => exact absurd shape nonempty
  | cons head tail =>
    refine ⟨head, tail, front, last, rfl, shape ▸ whole, ?_, ?_⟩
    · rw [parts.first, parts.whole, shape]
      simp
    have index : behindMeeting rows stop - 1 = before.length + front.length := by
      rw [parts.last, whole, List.length_append]
      rfl
    rw [index, parts.whole, whole, List.getElem?_append_right (by omega),
      Nat.add_sub_cancel_left]
    simp

/-- What is left of a coalesced vector when the rows of a range are replaced by
the left part of the first and the right part of the last of them. -/
theorem remainder_spec {before middle after : Rows}
    (coalesced : Coalesced rows) (parts : Around rows before middle after start stop)
    (order : start < stop) (alignedStart : pageSize ∣ start) {head last : SemanticVma}
    {tail front right : Rows} (isHead : middle = head :: tail) (isLast : middle = front ++ [last])
    (rightIs : (last.stop <= stop ∧ right = []) ∨
      ∃ low high, CutAt last low high stop ∧ right = [high]) :
    Coalesced (before ++ ((leftPart head start ++ right) ++ after)) ∧
      meaning (before ++ ((leftPart head start ++ right) ++ after)) =
        erased start stop (meaning rows) := by
  have pairs := coalesced.pairwise
  rw [parts.whole, pairwise_append] at pairs
  rcases pairs with ⟨pairsBefore, pairsRest, fromBefore⟩
  rw [pairwise_append] at pairsRest
  rcases pairsRest with ⟨pairsMiddle, pairsAfter, fromMiddle⟩
  have memberHead : head ∈ middle := isHead ▸ mem_cons_self
  have memberLast : last ∈ middle := by rw [isLast]; exact mem_append_right _ mem_cons_self
  have good : ∀ row ∈ before ++ (middle ++ after), row.Paged := by
    rw [<- parts.whole]
    exact coalesced.good
  have goodHead := good head (mem_append_right _ (mem_append_left _ memberHead))
  have meetsHead := parts.meets head memberHead
  have rightRows : ∀ row ∈ right, row.Paged ∧ row.start = stop ∧
      ∀ other ∈ after, kit.Apart row other := by
    intro row member
    rcases rightIs with ⟨_, rfl⟩ | ⟨low, high, cutAt, rfl⟩
    · cases member
    · rw [mem_singleton.mp member]
      exact ⟨cutAt.paged_high, cutAt.high_start,
        fun other inAfter => cutAt.apart_behind (fromMiddle last memberLast other inAfter)⟩
  have leftRows : ∀ row ∈ leftPart head start, row.Paged ∧ row.stop = start ∧
      ∀ other ∈ before, kit.Apart other row := by
    intro row member
    rcases mem_leftPart member with ⟨starts, rfl⟩
    refine ⟨⟨starts, goodHead.start_aligned, alignedStart, goodHead.offset_word⟩, rfl, ?_⟩
    intro other inBefore
    exact fromBefore other inBefore head (mem_append_left _ memberHead)
  refine ⟨Joining.Coalesced.of_pairwise (fun row member => ?_) ?_, ?_⟩
  · rcases mem_append.mp member with inBefore | rest
    · exact good row (mem_append_left _ inBefore)
    rcases mem_append.mp rest with inParts | inAfter
    · rcases mem_append.mp inParts with inLeft | inRight
      · exact (leftRows row inLeft).1
      · exact (rightRows row inRight).1
    · exact good row (mem_append_right _ (mem_append_right _ inAfter))
  · refine pairwise_append.mpr ⟨pairsBefore, pairwise_append.mpr
      ⟨pairwise_append.mpr ⟨?_, ?_, ?_⟩, pairsAfter, ?_⟩, ?_⟩
    · unfold leftPart
      split <;> simp
    · rcases rightIs with ⟨_, rfl⟩ | ⟨low, high, _, rfl⟩ <;> simp
    · intro row inLeft other inRight
      refine Joining.Apart.of_gap ?_
      change row.stop < other.start
      rw [(leftRows row inLeft).2.1, (rightRows other inRight).2.1]
      exact order
    · intro row inParts other inAfter
      rcases mem_append.mp inParts with inLeft | inRight
      · refine Joining.Apart.of_gap ?_
        change row.stop < other.start
        rw [(leftRows row inLeft).2.1]
        exact Nat.lt_of_lt_of_le order (parts.after_starts other inAfter)
      · exact (rightRows row inRight).2.2 other inAfter
    intro row inBefore other inRest
    rcases mem_append.mp inRest with inParts | inAfter
    · rcases mem_append.mp inParts with inLeft | inRight
      · exact (leftRows other inLeft).2.2 row inBefore
      · refine Joining.Apart.of_gap ?_
        change row.stop < other.start
        rw [(rightRows other inRight).2.1]
        exact Nat.lt_of_le_of_lt (parts.before_stops row inBefore) order
    · exact fromBefore row inBefore other (mem_append_right _ inAfter)
  funext address
  unfold erased
  by_cases inside : start <= address ∧ address < stop
  · rw [if_pos inside, meaning_append, meaning_append, meaning_append,
      parts.meaning_before inside.1, parts.meaning_after inside.2]
    have noLeft : meaning (leftPart head start) address = none :=
      meaning_eq_none (fun row member => .inr (by rw [(leftRows row member).2.1]; exact inside.1))
    have noRight : meaning right address = none :=
      meaning_eq_none (fun row member => .inl (by rw [(rightRows row member).2.1]; exact inside.2))
    rw [noLeft, noRight]
    rfl
  rw [if_neg inside, parts.whole, meaning_append, meaning_append before, meaning_append,
    meaning_append middle, meaning_append]
  by_cases below : address < start
  · have noRight : meaning right address = none :=
      meaning_eq_none (fun row member => .inl (by rw [(rightRows row member).2.1]; omega))
    have onlyHead : meaning middle address = meaning [head] address := by
      rw [isHead] at pairsMiddle ⊢
      have noTail : meaning tail address = none := by
        refine meaning_eq_none (fun row member => ?_)
        have behind : head.stop <= row.start :=
          ((List.pairwise_cons.mp pairsMiddle).1 row member).1
        omega
      change meaning ([head] ++ tail) address = _
      rw [meaning_append, noTail, Option.or_none]
    rw [noRight, Option.or_none, onlyHead, meaning_leftPart below meetsHead.1]
  have noLeft : meaning (leftPart head start) address = none :=
    meaning_eq_none (fun row member => .inr (by rw [(leftRows row member).2.1]; omega))
  have onlyLast : meaning middle address = meaning [last] address := by
    rw [isLast] at pairsMiddle ⊢
    have noFront : meaning front address = none := by
      refine meaning_eq_none (fun row member => ?_)
      have ahead : row.stop <= last.start :=
        ((pairwise_append.mp pairsMiddle).2.2 row member last mem_cons_self).1
      have starts := (parts.meets last memberLast).2
      omega
    rw [meaning_append, noFront, Option.none_or]
  rw [noLeft, Option.none_or, onlyLast, meaning_rightPart (by omega) rightIs]

/-- What an edit that may panic does: it panics exactly when a cut overflows,
and otherwise leaves a coalesced vector with the expected meaning. -/
structure Edited (rows : Rows) (overflows : Prop)
    (expected : (Nat -> Option VmaAttributes) -> Nat -> Option VmaAttributes)
    (result : Option Rows) : Prop where
  panics : result = none <-> overflows
  returns : ∀ after, result = some after ->
    Coalesced after ∧ meaning after = expected (meaning rows)

theorem Edited.of_some {after : Rows} {overflows : Prop}
    {expected : (Nat -> Option VmaAttributes) -> Nat -> Option VmaAttributes}
    (safe : ¬ overflows) (coalesced : Coalesced after)
    (same : meaning after = expected (meaning rows)) :
    Edited rows overflows expected (some after) := by
  refine ⟨⟨nofun, fun wrong => absurd wrong safe⟩, ?_⟩
  rintro _ ⟨rfl⟩
  exact ⟨coalesced, same⟩

theorem Edited.of_none {overflows : Prop}
    {expected : (Nat -> Option VmaAttributes) -> Nat -> Option VmaAttributes}
    (cut : overflows) : Edited rows overflows expected none :=
  ⟨⟨fun _ => cut, fun _ => rfl⟩, nofun⟩

theorem overflowsAt_last {middle front : Rows} {last : SemanticVma}
    (sorted : middle.Pairwise kit.Apart) (isLast : middle = front ++ [last])
    (meets : last.start < stop) : OverflowsAt middle stop <-> last.overflowsAt stop := by
  constructor
  · rintro ⟨row, member, overflows⟩
    rw [isLast] at member sorted
    rcases mem_append.mp member with inFront | isIt
    · have ahead : row.stop <= last.start :=
        ((pairwise_append.mp sorted).2.2 row inFront last mem_cons_self).1
      have past := overflows.2.1
      omega
    · rw [mem_singleton.mp isIt] at overflows
      exact overflows
  · intro overflows
    refine ⟨last, ?_, overflows⟩
    rw [isLast]
    exact mem_append_right _ mem_cons_self

theorem removeRange_edited (coalesced : Coalesced rows)
    (alignedStart : pageSize ∣ start) (alignedStop : pageSize ∣ stop) :
    Edited rows (start < stop ∧ OverflowsAt rows stop) (erased start stop)
      (removeRange start stop rows) := by
  unfold removeRange
  by_cases order : start < stop
  · rw [if_pos order]
    rcases around coalesced order with ⟨before, middle, after, parts⟩
    have overflows := parts.overflowsAt_iff (Nat.le_of_lt order) (Nat.le_refl stop)
    dsimp only
    by_cases empty : middle = []
    · rw [if_pos (parts.empty_iff.mpr empty)]
      refine Edited.of_some ?_ coalesced ?_
      · rintro ⟨_, wrong⟩
        rcases overflows.mp wrong with ⟨row, member, _⟩
        rw [empty] at member
        cases member
      funext address
      unfold erased
      split
      · rename_i inside
        rw [parts.whole, empty, List.nil_append, meaning_append, parts.meaning_before inside.1,
          parts.meaning_after inside.2]
        rfl
      · rfl
    rw [if_neg (fun wrong => empty (parts.empty_iff.mp wrong))]
    rcases parts.ends empty with ⟨head, tail, front, last, isHead, isLast, atFirst, atLast⟩
    have memberLast : last ∈ middle := by
      rw [isLast]
      exact mem_append_right _ mem_cons_self
    have pagedLast : last.Paged := coalesced.good last (by
      rw [parts.whole]
      exact mem_append_right _ (mem_append_left _ memberLast))
    have meetsLast := parts.meets last memberLast
    have sortedMiddle : middle.Pairwise kit.Apart := by
      have pairs := coalesced.pairwise
      rw [parts.whole] at pairs
      exact (pairwise_append.mp (pairwise_append.mp pairs).2.1).1
    have lastly := overflows.trans (overflowsAt_last sortedMiddle isLast meetsLast.2)
    rw [atFirst, atLast, Option.bind_eq_bind, Option.bind_some, Option.bind_some]
    rcases rightPart_cases pagedLast alignedStop meetsLast.2 with
      ⟨overflow, panics⟩ | ⟨safe, right, computed, rightIs⟩
    · rw [panics, Option.map_none]
      exact Edited.of_none ⟨order, lastly.mpr overflow⟩
    · rw [computed, Option.map_some, parts.splice_eq]
      rcases remainder_spec coalesced parts order alignedStart isHead isLast rightIs with
        ⟨remains, means⟩
      exact Edited.of_some (fun wrong => safe (lastly.mp wrong.2)) remains means
  · rw [if_neg order]
    refine Edited.of_some (fun wrong => order wrong.1) coalesced ?_
    funext address
    unfold erased
    rw [if_neg (by omega)]

end VmaMap
end Carrick

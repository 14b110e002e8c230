import Carrick.VmaMap.Rewrites

namespace Carrick
namespace VmaMap

open Foundation

/-!
# The map as a finite map

Growing and trimming the heap move the end of one row where they can; both are
the general insertion and removal in disguise.  With that every operation has a
specification on the finite map, and it holds in every map that operations on
page boundaries lead to.
-/

/-! ## The heap -/

theorem set_append_length (before : Rows) (row other : SemanticVma) (after : Rows) :
    (before ++ row :: after).set before.length other = before ++ other :: after := by
  simp

variable {rows : Rows}

/-- Trimming within one row is the removal of the trimmed range. -/
theorem trim_eq_removeRange (coalesced : Coalesced rows) {oldEnd newEnd : Nat}
    (shrinks : newEnd < oldEnd) {tail : SemanticVma}
    (found : rows[firstMeeting rows newEnd]? = some tail)
    (trims : tail.trimsHeap oldEnd newEnd = true) :
    some (rows.set (firstMeeting rows newEnd) { tail with stop := newEnd }) =
      removeRange newEnd oldEnd rows := by
  unfold SemanticVma.trimsHeap at trims
  simp only [Bool.and_eq_true, decide_eq_true_eq] at trims
  rcases trims with ⟨⟨starts, stops⟩, _⟩
  rcases around coalesced shrinks with ⟨before, middle, after, parts⟩
  have here : (middle ++ after)[0]? = some tail := by
    rw [parts.first, parts.whole, List.getElem?_append_right le_rfl, Nat.sub_self] at found
    exact found
  have single : middle = [tail] := by
    cases shape : middle with
    | nil =>
      rw [shape, List.nil_append] at here
      have inAfter := parts.after_starts tail (List.mem_of_getElem? here)
      omega
    | cons head others =>
      rw [shape] at here
      have isHead : head = tail := by simpa using here
      cases others with
      | nil => rw [isHead]
      | cons second rest =>
        have memberSecond : second ∈ middle := by simp [shape]
        have below := (parts.meets second memberSecond).2
        have pairs := coalesced.pairwise
        rw [parts.whole, shape, List.pairwise_append] at pairs
        have apart := (List.pairwise_cons.mp pairs.2.1).1 second (by simp)
        have behind : head.stop <= second.start := apart.1
        rw [isHead] at behind
        omega
  have last : rows[behindMeeting rows oldEnd - 1]? = some tail := by
    rw [parts.last, single, <- parts.first]
    exact found
  have ends : ¬ behindMeeting rows oldEnd <= firstMeeting rows newEnd := by
    rw [parts.last, parts.first, single]
    simp
  have none : rightPart tail oldEnd = some [] := by
    unfold rightPart
    rw [if_neg (by omega)]
  unfold removeRange
  rw [if_pos shrinks]
  dsimp only
  rw [if_neg ends, found, last, Option.bind_eq_bind, Option.bind_some, Option.bind_some, none,
    Option.map_some, parts.splice_eq, parts.first, parts.whole, single]
  unfold leftPart
  rw [if_pos starts]
  exact congrArg some (set_append_length before tail _ after)

theorem insert_free {before after : Rows} (coalesced : Coalesced (before ++ after))
    {vma : SemanticVma} (order : vma.start < vma.stop)
    (index : partitionPoint (fun row => decide (row.start < vma.start)) (before ++ after) =
      before.length)
    (ahead : ∀ row ∈ before, row.stop <= vma.start)
    (behind : ∀ row ∈ after, vma.stop <= row.start) :
    insert vma (before ++ after) = (.ok (), insertAt vma before.length (before ++ after)) := by
  have noneOver : ¬ ∃ row ∈ before, vma.start < row.stop := by
    rintro ⟨row, member, reaches⟩
    exact Nat.not_lt.mpr (ahead row member) reaches
  have noneUnder : ¬ ∃ row ∈ after, row.start < vma.stop := by
    rintro ⟨row, member, begins⟩
    exact Nat.not_lt.mpr (behind row member) begins
  unfold insert
  dsimp only
  rw [if_pos order, index,
    if_neg (fun wrong => noneOver ((last_reaches_iff coalesced vma.start).mp wrong)),
    if_neg (fun wrong => noneUnder ((first_starts_iff coalesced vma.stop).mp wrong))]

/-- Growing the last row of the heap is the insertion of the grown range. -/
theorem grow_eq_insert (coalesced : Coalesced rows) {oldEnd newEnd : Nat}
    (grows : oldEnd < newEnd) {tail : SemanticVma} (positive : 0 < firstMeeting rows oldEnd)
    (found : rows[firstMeeting rows oldEnd - 1]? = some tail)
    (isHeap : tail.growsHeap oldEnd = true)
    (room : rows[firstMeeting rows oldEnd]?.all (fun following => decide (newEnd < following.start)) =
      true) :
    rows.set (firstMeeting rows oldEnd - 1) { tail with stop := newEnd } =
      (insert ⟨oldEnd, newEnd, heapAttributes⟩ rows).2 := by
  unfold SemanticVma.growsHeap at isHeap
  simp only [Bool.and_eq_true, decide_eq_true_eq] at isHeap
  rcases isHeap with ⟨⟨stops, starts⟩, attributes⟩
  rcases insertion_point coalesced oldEnd with ⟨before, after, whole, index, early, late⟩
  subst whole
  have inRows : tail ∈ before ++ after := List.mem_of_getElem? found
  have inBefore : tail ∈ before := by
    rcases List.mem_append.mp inRows with inside | inAfter
    · exact inside
    · have begins := late tail inAfter
      omega
  have ending : ∀ row ∈ before, row.stop <= oldEnd := by
    intro row member
    have begins := early row member
    have pairs := (List.pairwise_append.mp coalesced.pairwise).1
    by_contra reaches
    have different : row ≠ tail := by
      rintro rfl
      omega
    have symmetric : Std.Symm (fun one two : SemanticVma =>
        one.stop <= two.start ∨ two.stop <= one.start) := ⟨fun _ _ either => Or.symm either⟩
    have apart := (pairs.imp (fun apart => .inl apart.1) : before.Pairwise
      (fun one two => one.stop <= two.start ∨ two.stop <= one.start)).forall member inBefore different
    omega
  have first : firstMeeting (before ++ after) oldEnd = before.length := by
    refine partitionPoint_append (fun row member => decide_eq_true (ending row member))
      (fun row member => decide_eq_false ?_)
    · have begins := late row member
      have ordered := (coalesced.good row (List.mem_append_right _ member)).ordered
      omega
  rw [first] at found positive room ⊢
  rcases List.eq_nil_or_concat before with empty | ⟨front, last, whole⟩
  · rw [empty] at positive
    exact absurd positive (Nat.lt_irrefl 0)
  rw [List.concat_eq_append] at whole
  subst whole
  have isTail : last = tail := by simpa using found
  subst isTail
  have beyond : ∀ row ∈ after, newEnd < row.start := by
    intro row member
    cases after with
    | nil => cases member
    | cons head rest =>
      have gap : newEnd < head.start := by simpa using room
      rcases List.mem_cons.mp member with isHead | inRest
      · rw [isHead]
        exact gap
      · have pairs := (List.pairwise_append.mp coalesced.pairwise).2.1
        have behind : head.stop <= row.start := ((List.pairwise_cons.mp pairs).1 row inRest).1
        have ordered := (coalesced.good head (List.mem_append_right _ List.mem_cons_self)).ordered
        omega
  have placed := @insert_free _ _ coalesced ⟨oldEnd, newEnd, heapAttributes⟩ grows index ending
    (fun row member => Nat.le_of_lt (beyond row member))
  have apart : kit.seam [⟨oldEnd, newEnd, heapAttributes⟩] after =
      ⟨oldEnd, newEnd, heapAttributes⟩ :: after := by
    cases after with
    | nil => rw [Joining.seam_nil_right]
    | cons head rest =>
      have gap := beyond head List.mem_cons_self
      have free : kit.joins ⟨oldEnd, newEnd, heapAttributes⟩ head = false :=
        (Joining.Apart.of_gap gap).2
      have seamed : kit.seam ([] ++ [⟨oldEnd, newEnd, heapAttributes⟩]) (head :: rest) = _ :=
        Joining.seam_concat [] _ head rest
      rw [free] at seamed
      exact seamed
  have joins : kit.joins last ⟨oldEnd, newEnd, heapAttributes⟩ = true := by
    refine continuedBy_iff.mpr ⟨stops, ?_⟩
    rw [attributes]
    rfl
  have index : (front ++ [last]).length - 1 = front.length := by simp
  rw [placed, insertAt_eq, apart, Joining.seam_concat, if_pos joins, index, List.append_assoc]
  exact set_append_length front last _ after

theorem updateHeapPages_eq (coalesced : Coalesced rows) (oldEnd newEnd : Nat) :
    updateHeapPages oldEnd newEnd rows =
      if newEnd < oldEnd then removeRange newEnd oldEnd rows
      else if oldEnd < newEnd then some (insert ⟨oldEnd, newEnd, heapAttributes⟩ rows).2
      else some rows := by
  unfold updateHeapPages
  by_cases shrinks : newEnd < oldEnd
  · rw [if_pos shrinks, if_pos shrinks]
    dsimp only
    cases found : rows[firstMeeting rows newEnd]? with
    | none => rfl
    | some tail =>
      dsimp only
      split
      · rename_i trims
        exact trim_eq_removeRange coalesced shrinks found trims
      · rfl
  rw [if_neg shrinks, if_neg shrinks]
  by_cases grows : oldEnd < newEnd
  · rw [if_pos grows, if_pos grows]
    dsimp only
    split
    · rename_i positive
      cases found : rows[firstMeeting rows oldEnd - 1]? with
      | none =>
        have short : firstMeeting rows oldEnd <= rows.length :=
          (List.takeWhile_sublist _).length_le
        have outside := List.getElem?_eq_none_iff.mp found
        omega
      | some tail =>
        dsimp only
        split
        · rename_i both
          rw [Bool.and_eq_true] at both
          exact congrArg some (grow_eq_insert coalesced grows positive found both.1 both.2)
        · rfl
    · rfl
  · rw [if_neg grows, if_neg grows]

/-! ## The plain edits -/

/-- The plain way to map a row: put it in order and coalesce all rows. -/
def insertThenCoalesce (vma : SemanticVma) (rows : Rows) : Rows :=
  let index := partitionPoint (fun row => decide (row.start < vma.start)) rows
  coalesce (rows.take index ++ vma :: rows.drop index)

theorem coalesceFrom_coalesced {row : SemanticVma} {rest : Rows}
    (coalesced : Coalesced (row :: rest)) : coalesceFrom row rest = row :: rest := by
  induction rest generalizing row with
  | nil => rfl
  | cons next rest ih =>
    have apart : row.continuedBy next = false := (List.isChain_cons_cons.mp coalesced.apart).1.2
    have others : Coalesced (next :: rest) := @Joining.Coalesced.right _ _ _ [row] _ coalesced
    rw [coalesceFrom, if_neg (by simp [apart]), ih others]

theorem seam_coalesceFrom {last vma : SemanticVma} (pagedLast : last.Paged) (paged : vma.Paged)
    {after : Rows} (pagedAfter : ∀ row ∈ after, row.Paged) :
    kit.seam [last] (coalesceFrom vma after) = coalesceFrom last (vma :: after) := by
  induction after generalizing vma with
  | nil => exact Joining.seam_concat [] last vma []
  | cons head rest ih =>
    have pagedHead := pagedAfter head List.mem_cons_self
    have pagedRest := fun row member => pagedAfter row (List.mem_cons_of_mem _ member)
    by_cases joins : vma.continuedBy head = true
    · have pagedBoth : (vma.extendedBy head).Paged := kit.good_join paged pagedHead joins
      rw [coalesceFrom, if_pos joins, ih pagedBoth pagedRest, coalesceFrom, coalesceFrom]
      by_cases before : last.continuedBy vma = true
      · rw [if_pos before, coalesceFrom, extendedBy_continuedBy pagedLast paged before, if_pos joins]
        exact if_pos before
      · rw [if_neg before, coalesceFrom, if_pos joins]
        exact if_neg before
    have shape : kit.seam [last] (vma :: coalesceFrom head rest) = _ :=
      Joining.seam_concat [] last vma (coalesceFrom head rest)
    rw [coalesceFrom, if_neg joins, shape, coalesceFrom]
    by_cases before : last.continuedBy vma = true
    · rw [if_pos before, coalesceFrom, extendedBy_continuedBy pagedLast paged before, if_neg joins]
      exact if_pos before
    · rw [if_neg before, coalesceFrom, if_neg joins]
      exact if_neg before

theorem coalesce_append {front : Rows} {last : SemanticVma} (coalesced : Coalesced (front ++ [last]))
    (rest : Rows) : coalesce (front ++ last :: rest) = front ++ coalesceFrom last rest := by
  induction front with
  | nil => rfl
  | cons first others ih =>
    have later := ih (@Joining.Coalesced.right _ _ _ [first] _ coalesced)
    cases others with
    | nil =>
      have apart : first.continuedBy last = false := (List.isChain_cons_cons.mp coalesced.apart).1.2
      change coalesceFrom first (last :: rest) = first :: coalesceFrom last rest
      rw [coalesceFrom, if_neg (by simp [apart])]
    | cons second others =>
      have apart : first.continuedBy second = false :=
        (List.isChain_cons_cons.mp coalesced.apart).1.2
      change coalesceFrom first (second :: (others ++ last :: rest)) = _
      rw [coalesceFrom, if_neg (by simp [apart])]
      exact congrArg (List.cons first) later

theorem insertAt_eq_coalesce {before after : Rows} {vma : SemanticVma} (paged : vma.Paged)
    (coalesced : Coalesced (before ++ after)) :
    insertAt vma before.length (before ++ after) = coalesce (before ++ vma :: after) := by
  have good := coalesced.right.good
  have behind : kit.seam [vma] after = coalesceFrom vma after := by
    cases after with
    | nil => rfl
    | cons head rest =>
      rw [<- seam_coalesceFrom paged (good head List.mem_cons_self)
        (fun row member => good row (List.mem_cons_of_mem _ member)),
        coalesceFrom_coalesced coalesced.right]
  rw [insertAt_eq, behind]
  rcases List.eq_nil_or_concat before with rfl | ⟨front, last, rfl⟩
  · exact Joining.seam_nil_left _
  rw [List.concat_eq_append] at coalesced ⊢
  rw [List.append_assoc, List.singleton_append, coalesce_append coalesced.left,
    Joining.seam_append_left front (List.cons_ne_nil last []),
    seam_coalesceFrom (coalesced.left.good last (List.mem_append_right _ List.mem_cons_self)) paged good]

/-- Trimming and growing the heap on their fast paths leave the rows that the plain
removal and the plain insertion leave. -/
theorem heap_edits_are_plain {rows : Rows} (coalesced : Coalesced rows) {oldEnd newEnd : Nat}
    (oldAligned : pageSize ∣ oldEnd) (newAligned : pageSize ∣ newEnd) :
    (newEnd < oldEnd -> updateHeapPages oldEnd newEnd rows = removeRange newEnd oldEnd rows) ∧
    (newEnd = oldEnd -> updateHeapPages oldEnd newEnd rows = some rows) ∧
    (oldEnd < newEnd -> (∀ row ∈ rows, row.stop <= oldEnd ∨ newEnd <= row.start) ->
      updateHeapPages oldEnd newEnd rows =
        some (insertThenCoalesce ⟨oldEnd, newEnd, heapAttributes⟩ rows)) := by
  rw [updateHeapPages_eq coalesced]
  refine ⟨fun shrinks => if_pos shrinks, fun same => ?_, fun grows unmapped => ?_⟩
  · rw [if_neg (by omega), if_neg (by omega)]
  have grown : SemanticVma.Paged ⟨oldEnd, newEnd, heapAttributes⟩ :=
    ⟨grows, oldAligned, newAligned, nofun⟩
  rw [if_neg (by omega), if_pos grows]
  unfold insertThenCoalesce
  rcases insertion_point coalesced oldEnd with ⟨before, after, whole, index, early, late⟩
  subst whole
  dsimp only
  rw [index, List.take_left, List.drop_left, <- insertAt_eq_coalesce grown coalesced,
    insert_free coalesced grows index (fun row member => ?_) (fun row member => ?_)]
  · have begins := early row member
    rcases unmapped row (List.mem_append_left _ member) with ends | starts
    · exact ends
    · change _ < oldEnd at begins
      omega
  have begins := late row member
  have ordered := (coalesced.good row (List.mem_append_right _ member)).ordered
  rcases unmapped row (List.mem_append_right _ member) with ends | starts
  · omega
  · exact starts

/-- A heap of one page grows by a page. -/
theorem heap_grows_by_a_page :
    updateHeapPages 8192 12288 [⟨4096, 8192, heapAttributes⟩] =
      some (insertThenCoalesce ⟨8192, 12288, heapAttributes⟩ [⟨4096, 8192, heapAttributes⟩]) :=
  (heap_edits_are_plain (.singleton ⟨by decide, by decide, by decide, fun _ wrong => by cases wrong⟩)
    (by decide) (by decide)).2.2 (by decide) (by simp)

/-! ## Operations -/

inductive Operation where
  | insert (vma : SemanticVma)
  | insertReplacing (vma : SemanticVma)
  | insertMany (vmas : List SemanticVma)
  | removeRange (start stop : Nat)
  | updateProt (start stop : Nat) (read write execute : Bool)
  | updatePolicy (start stop : Nat) (copy : Option VmaForkCopyPolicy)
      (child : Option VmaForkChildPolicy) (dump : Option VmaDumpPolicy)
  | updateHeapPages (oldEnd newEnd : Nat)
  | applyForkWipe
  | coalesce
  deriving DecidableEq

abbrev Answer := Except VmaOverlapError Unit

/-- The answer and the rows an operation leaves, unless it panics. -/
def Operation.run : Operation -> Rows -> Option (Answer × Rows)
  | insert vma, rows => some (VmaMap.insert vma rows)
  | insertReplacing vma, rows => (VmaMap.insertReplacing vma rows).map (fun after => (.ok (), after))
  | insertMany vmas, rows => some (VmaMap.insertMany vmas rows)
  | removeRange start stop, rows =>
    (VmaMap.removeRange start stop rows).map (fun after => (.ok (), after))
  | updateProt start stop read write execute, rows =>
    (VmaMap.updateProt start stop read write execute rows).map (fun after => (.ok (), after))
  | updatePolicy start stop copy child dump, rows =>
    (VmaMap.updatePolicy start stop copy child dump rows).map (fun after => (.ok (), after))
  | updateHeapPages oldEnd newEnd, rows =>
    (VmaMap.updateHeapPages oldEnd newEnd rows).map (fun after => (.ok (), after))
  | applyForkWipe, rows => some (.ok (), VmaMap.applyForkWipe rows)
  | coalesce, rows => some (.ok (), VmaMap.coalesce rows)

/-- The bounds of a row lie on page boundaries and its offset is a word. -/
structure SemanticVma.OnPages (vma : SemanticVma) : Prop where
  start_aligned : pageSize ∣ vma.start
  stop_aligned : pageSize ∣ vma.stop
  offset_word : ∀ offset, vma.attributes.filePageOffset = some offset -> offset < wordLimit

theorem SemanticVma.OnPages.paged {vma : SemanticVma} (onPages : vma.OnPages)
    (ordered : vma.start < vma.stop) : vma.Paged :=
  ⟨ordered, onPages.start_aligned, onPages.stop_aligned, onPages.offset_word⟩

/-- Every bound of the operation lies on a page boundary. -/
def Operation.OnPages : Operation -> Prop
  | insert vma => vma.OnPages
  | insertReplacing vma => vma.OnPages
  | insertMany vmas => ∀ vma ∈ vmas, vma.OnPages
  | removeRange start stop => pageSize ∣ start ∧ pageSize ∣ stop
  | updateProt start stop _ _ _ => pageSize ∣ start ∧ pageSize ∣ stop
  | updatePolicy start stop _ _ _ => pageSize ∣ start ∧ pageSize ∣ stop
  | updateHeapPages oldEnd newEnd => pageSize ∣ oldEnd ∧ pageSize ∣ newEnd
  | applyForkWipe => True
  | coalesce => True

/-- The operation cuts a row at an address whose file page offset is no word. -/
def Operation.Overflows (rows : Rows) : Operation -> Prop
  | insertReplacing vma => vma.start < vma.stop ∧ OverflowsAt rows vma.stop
  | removeRange start stop => start < stop ∧ OverflowsAt rows stop
  | updateProt start stop _ _ _ => start < stop ∧ (OverflowsAt rows start ∨ OverflowsAt rows stop)
  | updatePolicy start stop _ _ _ => start < stop ∧ (OverflowsAt rows start ∨ OverflowsAt rows stop)
  | updateHeapPages oldEnd newEnd => newEnd < oldEnd ∧ OverflowsAt rows oldEnd
  | _ => False

/-! ## What the operations mean -/

/-- The meaning of one insertion: refused with nothing changed when an address
of the range is mapped, and the range overwritten otherwise. -/
def InsertMeans (vma : SemanticVma) (old : Nat -> Option VmaAttributes) (answer : Answer)
    (new : Nat -> Option VmaAttributes) : Prop :=
  (Occupied vma old ∧ answer = .error ⟨vma.start, vma.stop⟩ ∧ new = old) ∨
    (¬ Occupied vma old ∧ answer = .ok () ∧ new = overwritten vma old)

/-- Insertions one after another, up to the first that is refused. -/
def InsertManyMeans : List SemanticVma -> (Nat -> Option VmaAttributes) -> Answer ->
    (Nat -> Option VmaAttributes) -> Prop
  | [], old, answer, new => answer = .ok () ∧ new = old
  | vma :: rest, old, answer, new =>
    (Occupied vma old ∧ answer = .error ⟨vma.start, vma.stop⟩ ∧ new = old) ∨
      (¬ Occupied vma old ∧ InsertManyMeans rest (overwritten vma old) answer new)

/-- What an operation does to the finite map, and what it answers. -/
def Operation.Means (old : Nat -> Option VmaAttributes) (answer : Answer)
    (new : Nat -> Option VmaAttributes) : Operation -> Prop
  | insert vma => InsertMeans vma old answer new
  | insertReplacing vma => answer = .ok () ∧ new = overwritten vma old
  | insertMany vmas => InsertManyMeans vmas old answer new
  | removeRange start stop => answer = .ok () ∧ new = erased start stop old
  | updateProt start stop read write execute =>
    answer = .ok () ∧ new = rewritten start stop (protectedAs read write execute) old
  | updatePolicy start stop copy child dump =>
    answer = .ok () ∧ new = rewritten start stop (policyAs copy child dump) old
  | updateHeapPages oldEnd newEnd => answer = .ok () ∧
      if newEnd < oldEnd then new = erased newEnd oldEnd old
      else ∃ inner, InsertMeans ⟨oldEnd, newEnd, heapAttributes⟩ old inner new
  | applyForkWipe => answer = .ok () ∧ new = inherited old
  | coalesce => answer = .ok () ∧ new = old

/-- One operation on a coalesced vector: it panics exactly when a cut overflows,
and otherwise it leaves a coalesced vector with the meaning it should have. -/
structure Operation.Behaves (operation : Operation) (rows : Rows) : Prop where
  panics : operation.run rows = none <-> operation.Overflows rows
  returns : ∀ answer after, operation.run rows = some (answer, after) ->
    Coalesced after ∧ operation.Means (meaning rows) answer (meaning after)

theorem Operation.Behaves.of_edited {operation : Operation} {result : Option Rows}
    {expected : (Nat -> Option VmaAttributes) -> Nat -> Option VmaAttributes}
    (edited : Edited rows (operation.Overflows rows) expected result)
    (runs : operation.run rows = result.map (fun after => (.ok (), after)))
    (means : ∀ new, new = expected (meaning rows) ->
      operation.Means (meaning rows) (.ok ()) new) : operation.Behaves rows := by
  refine ⟨?_, fun answer after ran => ?_⟩
  · rw [runs, Option.map_eq_none_iff]
    exact edited.panics
  rw [runs] at ran
  rcases Option.map_eq_some_iff.mp ran with ⟨rest, returned, same⟩
  cases same
  rcases edited.returns after returned with ⟨coalesced, new⟩
  exact ⟨coalesced, means _ new⟩

theorem insert_behaves (coalesced : Coalesced rows) {vma : SemanticVma}
    (onPages : vma.OnPages) :
    Coalesced (insert vma rows).2 ∧
      InsertMeans vma (meaning rows) (insert vma rows).1 (meaning (insert vma rows).2) := by
  rcases insert_cases coalesced vma onPages.paged with
    ⟨occupied, refused⟩ | ⟨free, after, inserted, coalescedAfter, means⟩
  · rw [refused]
    exact ⟨coalesced, .inl ⟨occupied, rfl, rfl⟩⟩
  · rw [inserted]
    exact ⟨coalescedAfter, .inr ⟨free, rfl, means⟩⟩

theorem insertMany_behaves {vmas : List SemanticVma}
    (onPages : ∀ vma ∈ vmas, vma.OnPages) (coalesced : Coalesced rows) :
    Coalesced (insertMany vmas rows).2 ∧
      InsertManyMeans vmas (meaning rows) (insertMany vmas rows).1
        (meaning (insertMany vmas rows).2) := by
  induction vmas generalizing rows with
  | nil => exact ⟨coalesced, rfl, rfl⟩
  | cons vma rest ih =>
    have others : ∀ other ∈ rest, other.OnPages :=
      fun other member => onPages other (List.mem_cons_of_mem _ member)
    unfold insertMany InsertManyMeans
    rcases insert_cases coalesced vma (onPages vma List.mem_cons_self).paged with
      ⟨occupied, refused⟩ | ⟨free, after, inserted, coalescedAfter, means⟩
    · rw [refused]
      exact ⟨coalesced, .inl ⟨occupied, rfl, rfl⟩⟩
    · rw [inserted]
      rcases ih others coalescedAfter with ⟨coalescedRest, meansRest⟩
      rw [means] at meansRest
      exact ⟨coalescedRest, .inr ⟨free, meansRest⟩⟩

theorem Operation.behaves {operation : Operation} (onPages : operation.OnPages)
    (coalesced : Coalesced rows) : operation.Behaves rows := by
  cases operation with
  | insert vma =>
    refine ⟨⟨nofun, nofun⟩, ?_⟩
    intro answer after ran
    have same : VmaMap.insert vma rows = (answer, after) := Option.some.inj ran
    have spec := insert_behaves coalesced onPages
    rw [same] at spec
    exact spec
  | insertReplacing vma =>
    have paged : vma.start < vma.stop -> vma.Paged := fun ordered =>
      SemanticVma.OnPages.paged onPages ordered
    exact Behaves.of_edited (insertReplacing_edited coalesced vma paged) rfl
      (fun new means => ⟨rfl, means⟩)
  | insertMany vmas =>
    refine ⟨⟨nofun, nofun⟩, ?_⟩
    intro answer after ran
    have same : VmaMap.insertMany vmas rows = (answer, after) := Option.some.inj ran
    have spec := insertMany_behaves onPages coalesced
    rw [same] at spec
    exact spec
  | removeRange start stop =>
    exact Behaves.of_edited (removeRange_edited coalesced onPages.1 onPages.2) rfl
      (fun new means => ⟨rfl, means⟩)
  | updateProt start stop read write execute =>
    exact Behaves.of_edited (modifyRange_edited coalesced onPages.1 onPages.2
      (protectedAs_keepsOffset read write execute)) rfl (fun new means => ⟨rfl, means⟩)
  | updatePolicy start stop copy child dump =>
    exact Behaves.of_edited (modifyRange_edited coalesced onPages.1 onPages.2
      (policyAs_keepsOffset copy child dump)) rfl (fun new means => ⟨rfl, means⟩)
  | updateHeapPages oldEnd newEnd =>
    have shape := updateHeapPages_eq coalesced oldEnd newEnd
    by_cases shrinks : newEnd < oldEnd
    · rw [if_pos shrinks] at shape
      have edited := removeRange_edited coalesced onPages.2 onPages.1
      rw [<- shape] at edited
      refine Behaves.of_edited edited rfl (fun new means => ⟨rfl, ?_⟩)
      rw [if_pos shrinks]
      exact means
    have grown : SemanticVma.OnPages ⟨oldEnd, newEnd, heapAttributes⟩ :=
      ⟨onPages.1, onPages.2, nofun⟩
    have inserted : VmaMap.updateHeapPages oldEnd newEnd rows =
        some (VmaMap.insert ⟨oldEnd, newEnd, heapAttributes⟩ rows).2 := by
      rw [shape, if_neg shrinks]
      split
      · rfl
      · rename_i still
        unfold VmaMap.insert
        rw [if_neg still]
    have spec := insert_behaves coalesced grown
    have ran : Operation.run (.updateHeapPages oldEnd newEnd) rows =
        some (.ok (), (VmaMap.insert ⟨oldEnd, newEnd, heapAttributes⟩ rows).2) :=
      congrArg (Option.map (fun after => ((.ok () : Answer), after))) inserted
    refine ⟨?_, ?_⟩
    · rw [ran]
      exact ⟨nofun, fun wrong => absurd wrong.1 shrinks⟩
    rw [ran]
    rintro answer after ⟨rfl⟩
    refine ⟨spec.1, rfl, ?_⟩
    rw [if_neg shrinks]
    exact ⟨_, spec.2⟩
  | applyForkWipe =>
    refine ⟨⟨nofun, nofun⟩, ?_⟩
    rintro answer after ⟨rfl⟩
    exact ⟨(applyForkWipe_spec coalesced).1, rfl, (applyForkWipe_spec coalesced).2⟩
  | coalesce =>
    refine ⟨⟨nofun, nofun⟩, ?_⟩
    rintro answer after ⟨rfl⟩
    exact ⟨(coalesce_spec coalesced).1, rfl, (coalesce_spec coalesced).2⟩

/-! ## Reachable maps -/

/-- The maps that `new`, `from_vec` and operations on page boundaries lead to.
An operation that panics leaves the vector as it was. -/
inductive Reachable : Rows -> Prop
  | new : Reachable []
  | fromVec {vmas : List SemanticVma} {rows : Rows}
      (onPages : ∀ vma ∈ vmas, vma.OnPages) (made : fromVec vmas = some rows) :
      Reachable rows
  | ran {rows after : Rows} (earlier : Reachable rows) {operation : Operation}
      (onPages : operation.OnPages) {answer : Answer}
      (returned : operation.run rows = some (answer, after)) : Reachable after

theorem insertManyReplacing_coalesced {vmas : List SemanticVma}
    (onPages : ∀ vma ∈ vmas, vma.OnPages) {after : Rows}
    (coalesced : Coalesced rows) (made : insertManyReplacing vmas rows = some after) :
    Coalesced after := by
  induction vmas generalizing rows with
  | nil =>
    cases made
    exact coalesced
  | cons vma rest ih =>
    unfold insertManyReplacing at made
    rcases Option.bind_eq_some_iff.mp made with ⟨middle, replaced, others⟩
    have edited := insertReplacing_edited coalesced vma (onPages vma List.mem_cons_self).paged
    exact ih (fun other member => onPages other (List.mem_cons_of_mem _ member))
      (edited.returns middle replaced).1 others

theorem Reachable.coalesced (reachable : Reachable rows) : Coalesced rows := by
  induction reachable with
  | new => exact Joining.Coalesced.nil
  | fromVec onPages made => exact insertManyReplacing_coalesced onPages Joining.Coalesced.nil made
  | ran _ onPages returned ih =>
    exact ((Operation.behaves onPages ih).returns _ _ returned).1

/-- The rows are sorted and disjoint, none is empty and no neighbours could be
merged. -/
structure Canonical (rows : Rows) : Prop where
  nonempty : ∀ row ∈ rows, row.start < row.stop
  disjoint : rows.Pairwise (fun first second => first.stop <= second.start)
  maximal : rows.IsChain (fun first second => first.continuedBy second = false)

/-- Every reachable map is canonical, and every operation on page boundaries
panics exactly on an overflowing cut and otherwise has its meaning. -/
theorem reachable_map_is_finite_map {rows : Rows} (reachable : Reachable rows) :
    Canonical rows ∧
      ∀ operation : Operation, operation.OnPages -> operation.Behaves rows := by
  have coalesced := reachable.coalesced
  refine ⟨⟨coalesced.ordered.nonempty, coalesced.ordered.disjoint,
    coalesced.apart.imp (fun _ _ apart => apart.2)⟩, fun operation onPages => ?_⟩
  exact Operation.behaves onPages coalesced

/-- A private file mapping of some pages, from a page of its file on. -/
def fileRow (start stop offset : Nat) : SemanticVma :=
  ⟨start, stop, { heapAttributes with
    provenance := .privateFile, path := "/lib", filePageOffset := some offset }⟩

theorem fileRow_onPages {start stop offset : Nat} (startAligned : pageSize ∣ start)
    (stopAligned : pageSize ∣ stop) (word : offset < wordLimit) :
    (fileRow start stop offset).OnPages := by
  refine ⟨startAligned, stopAligned, ?_⟩
  rintro _ ⟨rfl⟩
  exact word

/-- Removing the first page of a row whose second page has no offset in the word
panics, and nothing is unmapped. -/
theorem overflowing_cut_panics :
    Reachable [fileRow 0 8192 (wordLimit - 1)] ∧ (Operation.removeRange 0 4096).OnPages ∧
      (Operation.removeRange 0 4096).run [fileRow 0 8192 (wordLimit - 1)] = none := by
  have onPages : ∀ vma ∈ [fileRow 0 8192 (wordLimit - 1)], vma.OnPages := by
    intro vma member
    rw [List.mem_singleton.mp member]
    exact fileRow_onPages (by decide) (by decide) (by decide)
  refine ⟨.fromVec onPages ?_, ⟨by decide, by decide⟩, ?_⟩
  · decide +kernel
  · decide +kernel

/-- The middle page of a three page mapping is removed. -/
theorem middle_page_removed :
    Canonical [fileRow 0 12288 5] ∧
      (Operation.removeRange 4096 8192).Behaves [fileRow 0 12288 5] ∧
      (Operation.removeRange 4096 8192).run [fileRow 0 12288 5] =
        some (.ok (), [fileRow 0 4096 5, fileRow 8192 12288 7]) := by
  have onPages : ∀ vma ∈ [fileRow 0 12288 5], vma.OnPages := by
    intro vma member
    rw [List.mem_singleton.mp member]
    exact fileRow_onPages (by decide) (by decide) (by decide)
  have reachable : Reachable [fileRow 0 12288 5] := .fromVec onPages (by decide +kernel)
  have map := reachable_map_is_finite_map reachable
  exact ⟨map.1, map.2 _ ⟨by decide, by decide⟩, by decide +kernel⟩

end VmaMap
end Carrick

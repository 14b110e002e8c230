import Carrick.VmaMap.Edits

namespace Carrick
namespace VmaMap

open Foundation
open Option (any_some bind_eq_bind bind_none bind_some map_none map_some none_or or_none)
open List (mem_append mem_append_left mem_append_right mem_cons mem_cons_self mem_singleton pairwise_append pairwise_cons)

/-!
# Rewriting a range and inserting rows

A rewritten range is cut out of the rows that meet it, modified, coalesced and
joined with its two neighbours.  An inserted row is a run of one row between
the rows before and behind it.
-/

/-! ## Rewriting attributes -/

/-- The modification of a range does not look at the file page offset. -/
structure KeepsOffset (modify : VmaAttributes -> VmaAttributes) : Prop where
  offset : ∀ attributes, (modify attributes).filePageOffset = attributes.filePageOffset
  commutes : ∀ attributes offset,
    modify (attributes.withOffset offset) = (modify attributes).withOffset offset

theorem protectedAs_keepsOffset (read write execute : Bool) :
    KeepsOffset (protectedAs read write execute) :=
  ⟨fun _ => rfl, fun _ _ => rfl⟩

theorem policyAs_keepsOffset (copy : Option VmaForkCopyPolicy) (child : Option VmaForkChildPolicy)
    (dump : Option VmaDumpPolicy) : KeepsOffset (policyAs copy child dump) :=
  ⟨fun _ => rfl, fun _ _ => rfl⟩

/-- The finite map with the attributes of a range rewritten. -/
def rewritten (start stop : Nat) (modify : VmaAttributes -> VmaAttributes)
    (old : Nat -> Option VmaAttributes) (address : Nat) : Option VmaAttributes :=
  if start <= address ∧ address < stop then (old address).map modify else old address

variable {row : SemanticVma} {stop : Nat}

theorem attributesAt_of_offsetBy (paged : row.Paged) {cut : Nat} (aligned : pageSize ∣ cut)
    (above : row.start <= cut) {attributes : VmaAttributes}
    (computed : row.attributes.offsetBy (cut - row.start) = some attributes) {address : Nat}
    (behind : cut <= address) :
    SemanticVma.attributesAt ⟨cut, stop, attributes⟩ address = row.attributesAt address := by
  rcases offsetBy_eq_some computed with ⟨moved, _⟩
  have pages := div_sub_of_dvd paged.start_aligned aligned above behind
  unfold SemanticVma.attributesAt
  dsimp only
  rw [moved, withOffset_withOffset, withOffset_filePageOffset, Option.map_map, pages]
  congr 2
  funext offset
  dsimp only [Function.comp]
  omega

variable {modify : VmaAttributes -> VmaAttributes}

theorem attributesAt_modify (keeps : KeepsOffset modify) (start stop : Nat)
    (attributes : VmaAttributes) (address : Nat) :
    SemanticVma.attributesAt ⟨start, stop, modify attributes⟩ address =
      modify (SemanticVma.attributesAt ⟨start, stop, attributes⟩ address) := by
  unfold SemanticVma.attributesAt
  dsimp only
  rw [keeps.offset, keeps.commutes]

theorem meaning_singleton (row : SemanticVma) (address : Nat) :
    meaning [row] address =
      if row.start <= address ∧ address < row.stop then some (row.attributesAt address) else none :=
  rfl

/-- The pieces of one row, in order, inside the row and with the meaning of the
row rewritten. -/
structure PiecesOf (start stop : Nat) (modify : VmaAttributes -> VmaAttributes) (run pieces : Rows) :
    Prop where
  nonempty : run ≠ [] -> pieces ≠ []
  paged : ∀ row ∈ pieces, row.Paged
  sorted : pieces.Pairwise (fun first second => first.stop <= second.start)
  inside : ∀ row ∈ pieces, ∃ other ∈ run, other.start <= row.start ∧
    row.stop <= other.stop
  means : ∀ address, meaning pieces address = rewritten start stop modify (meaning run) address

variable {start : Nat}

theorem piecesOf_row (paged : row.Paged) (keeps : KeepsOffset modify) (order : start < stop)
    (alignedStart : pageSize ∣ start) (alignedStop : pageSize ∣ stop)
    (meets : start < row.stop ∧ row.start < stop) {attributes : VmaAttributes}
    (computed : row.attributes.offsetBy (max row.start start - row.start) = some attributes)
    {right : Rows}
    (rightIs : (row.stop <= stop ∧ right = []) ∨ ∃ low high, CutAt row low high stop ∧ right =
      [high]) :
    PiecesOf start stop modify [row] (leftPart row start ++
      ⟨max row.start start, min row.stop stop, modify attributes⟩ :: right) := by
  have ordered := paged.ordered
  have alignedMax : pageSize ∣ max row.start start := by
    rcases Nat.le_total row.start start with below | above
    · rw [Nat.max_eq_right below]
      exact alignedStart
    · rw [Nat.max_eq_left above]
      exact paged.start_aligned
  have alignedMin : pageSize ∣ min row.stop stop := by
    rcases Nat.le_total row.stop stop with below | above
    · rw [Nat.min_eq_left below]
      exact paged.stop_aligned
    · rw [Nat.min_eq_right above]
      exact alignedStop
  have rightRows : ∀ other ∈ right,
      other.Paged ∧ other.start = stop ∧ other.stop = row.stop ∧ stop < row.stop := by
    intro other member
    rcases rightIs with ⟨_, rfl⟩ | ⟨low, high, cutAt, rfl⟩
    · cases member
    · rw [mem_singleton.mp member]
      have room := cutAt.paged_high.ordered
      rw [cutAt.high_start, cutAt.high_stop] at room
      exact ⟨cutAt.paged_high, cutAt.high_start, cutAt.high_stop, room⟩
  refine ⟨fun _ => by simp, fun other member => ?_, ?_, fun other member => ?_, fun address => ?_⟩
  · rcases mem_append.mp member with inLeft | rest
    · rcases mem_leftPart inLeft with ⟨starts, rfl⟩
      exact ⟨starts, paged.start_aligned, alignedStart, paged.offset_word⟩
    rcases mem_cons.mp rest with rfl | inRight
    · refine ⟨by dsimp only; omega, alignedMax, alignedMin, fun offset has => ?_⟩
      have kept : attributes.filePageOffset = some offset := by
        rw [<- keeps.offset]
        exact has
      exact (offsetBy_eq_some computed).2 offset kept
    · exact (rightRows other inRight).1
  · refine pairwise_append.mpr ⟨?_, pairwise_cons.mpr ⟨?_, ?_⟩, ?_⟩
    · unfold leftPart
      split <;> simp
    · intro other inRight
      rw [(rightRows other inRight).2.1]
      exact Nat.min_le_right _ _
    · rcases rightIs with ⟨_, rfl⟩ | ⟨low, high, _, rfl⟩ <;> simp
    intro other inLeft another inRest
    rcases mem_leftPart inLeft with ⟨starts, rfl⟩
    rcases mem_cons.mp inRest with rfl | inRight
    · exact Nat.le_max_right _ _
    · rw [(rightRows another inRight).2.1]
      exact Nat.le_of_lt order
  · refine ⟨row, mem_cons_self, ?_⟩
    rcases mem_append.mp member with inLeft | rest
    · rcases mem_leftPart inLeft with ⟨starts, rfl⟩
      exact ⟨le_rfl, Nat.le_of_lt meets.1⟩
    rcases mem_cons.mp rest with rfl | inRight
    · exact ⟨Nat.le_max_left _ _, Nat.min_le_left _ _⟩
    · rcases rightRows other inRight with ⟨_, starts, stops, _⟩
      rw [starts, stops]
      exact ⟨Nat.le_of_lt meets.2, le_rfl⟩
  have split : meaning (leftPart row start ++
        ⟨max row.start start, min row.stop stop, modify attributes⟩ :: right) address =
      (meaning (leftPart row start) address).or
        ((meaning [⟨max row.start start, min row.stop stop, modify attributes⟩] address).or
          (meaning right address)) := by
    rw [meaning_append, <- meaning_append [_] right]
    rfl
  rw [split]
  unfold rewritten
  by_cases inside : start <= address ∧ address < stop
  · have noLeft : meaning (leftPart row start) address = none := by
      refine meaning_eq_none (fun other member => ?_)
      rcases mem_leftPart member with ⟨_, rfl⟩
      exact .inr inside.1
    have noRight : meaning right address = none :=
      meaning_eq_none (fun other member =>
        .inl (by rw [(rightRows other member).2.1]; exact inside.2))
    rw [if_pos inside, noLeft, noRight, none_or, or_none, meaning_singleton,
      meaning_singleton]
    by_cases covered : row.start <= address ∧ address < row.stop
    · rw [if_pos covered, if_pos (by dsimp only; omega), attributesAt_modify keeps,
        attributesAt_of_offsetBy paged alignedMax (Nat.le_max_left _ _) computed (by omega),
        map_some]
    · rw [if_neg covered, if_neg (by dsimp only; omega), map_none]
  have noMiddle : meaning [⟨max row.start start, min row.stop stop, modify attributes⟩] address =
      none := by
    rw [meaning_singleton, if_neg]
    dsimp only
    omega
  rw [if_neg inside, noMiddle, none_or]
  by_cases below : address < start
  · have noRight : meaning right address = none :=
      meaning_eq_none (fun other member =>
        .inl (by rw [(rightRows other member).2.1]; omega))
    rw [noRight, or_none, meaning_leftPart below meets.1]
  have noLeft : meaning (leftPart row start) address = none := by
    refine meaning_eq_none (fun other member => ?_)
    rcases mem_leftPart member with ⟨_, rfl⟩
    exact .inr (by dsimp only; omega)
  rw [noLeft, none_or, meaning_rightPart (by omega) rightIs]

theorem modifiedPieces_spec (paged : row.Paged) (keeps : KeepsOffset modify)
    (order : start < stop) (alignedStart : pageSize ∣ start) (alignedStop : pageSize ∣ stop)
    (meets : start < row.stop ∧ row.start < stop) :
    (modifiedPieces start stop modify row = none <-> row.overflowsAt start ∨ row.overflowsAt stop) ∧
    ∀ pieces, modifiedPieces start stop modify row = some pieces ->
      PiecesOf start stop modify [row] pieces := by
  have ordered := paged.ordered
  unfold modifiedPieces
  have middleOverflow : row.attributes.offsetBy (max row.start start - row.start) = none <->
      row.overflowsAt start := by
    rw [offsetBy_eq_none_iff]
    unfold SemanticVma.overflowsAt
    by_cases inside : row.start < start
    · rw [Nat.max_eq_right (Nat.le_of_lt inside)]
      constructor
      · intro overflow
        exact ⟨inside, meets.1, overflow⟩
      · intro overflow
        exact overflow.2.2
    rw [Nat.max_eq_left (by omega), Nat.sub_self, Nat.zero_div]
    constructor
    · rintro ⟨base, has, big⟩
      have word := paged.offset_word base has
      omega
    · intro overflow
      exact absurd overflow.1 inside
  cases computed : row.attributes.offsetBy (max row.start start - row.start) with
  | none =>
    rw [bind_eq_bind, bind_none]
    refine ⟨⟨fun _ => .inl (middleOverflow.mp computed), fun _ => rfl⟩, fun _ wrong => ?_⟩
    cases wrong
  | some attributes =>
    have safeStart : ¬ row.overflowsAt start := by
      intro overflow
      rw [middleOverflow.mpr overflow] at computed
      cases computed
    rw [bind_eq_bind, bind_some]
    rcases rightPart_cases paged alignedStop meets.2 with
      ⟨overflow, panics⟩ | ⟨safe, right, rightComputed, rightIs⟩
    · rw [panics, map_none]
      exact ⟨⟨fun _ => .inr overflow, fun _ => rfl⟩, nofun⟩
    rw [rightComputed, map_some]
    refine ⟨⟨nofun, fun wrong => ?_⟩, ?_⟩
    · rcases wrong with overflow | overflow
      · exact absurd overflow safeStart
      · exact absurd overflow safe
    rintro _ ⟨rfl⟩
    exact piecesOf_row paged keeps order alignedStart alignedStop meets computed rightIs

theorem modifiedRun_spec (keeps : KeepsOffset modify) (order : start < stop)
    (alignedStart : pageSize ∣ start) (alignedStop : pageSize ∣ stop) {run : Rows}
    (paged : ∀ row ∈ run, row.Paged)
    (sorted : run.Pairwise (fun first second => first.stop <= second.start))
    (meets : ∀ row ∈ run, start < row.stop ∧ row.start < stop) :
    (modifiedRun start stop modify run = none <-> OverflowsAt run start ∨ OverflowsAt run stop) ∧
    ∀ pieces, modifiedRun start stop modify run = some pieces ->
      PiecesOf start stop modify run pieces := by
  induction run with
  | nil =>
    refine ⟨⟨nofun, ?_⟩, ?_⟩
    · rintro (⟨row, wrong, _⟩ | ⟨row, wrong, _⟩) <;> cases wrong
    rintro _ ⟨rfl⟩
    refine ⟨fun wrong => absurd rfl wrong, List.forall_mem_nil _, .nil,
      List.forall_mem_nil _, fun address => ?_⟩
    unfold rewritten
    split <;> rfl
  | cons row rest ih =>
    rcases pairwise_cons.mp sorted with ⟨fromRow, sortedRest⟩
    rcases modifiedPieces_spec (paged row mem_cons_self) keeps order alignedStart alignedStop
      (meets row mem_cons_self) with ⟨rowPanics, rowPieces⟩
    rcases ih (fun other member => paged other (List.mem_cons_of_mem _ member))
      sortedRest (fun other member => meets other (List.mem_cons_of_mem _ member)) with
      ⟨restPanics, restPieces⟩
    have overflows : ∀ cut, OverflowsAt (row :: rest) cut <->
        row.overflowsAt cut ∨ OverflowsAt rest cut := by
      intro cut
      unfold OverflowsAt
      simp only [mem_cons, exists_eq_or_imp]
    rw [overflows, overflows]
    unfold modifiedRun
    cases first : modifiedPieces start stop modify row with
    | none =>
      rw [bind_eq_bind, bind_none]
      have cause := rowPanics.mp first
      refine ⟨⟨fun _ => ?_, fun _ => rfl⟩, nofun⟩
      rcases cause with one | two
      · exact .inl (.inl one)
      · exact .inr (.inl two)
    | some pieces =>
      have safe : ¬ (row.overflowsAt start ∨ row.overflowsAt stop) := by
        intro cause
        rw [rowPanics.mpr cause] at first
        cases first
      have ofRow := rowPieces pieces first
      rw [bind_eq_bind, bind_some]
      cases second : modifiedRun start stop modify rest with
      | none =>
        rw [map_none]
        have cause := restPanics.mp second
        refine ⟨⟨fun _ => ?_, fun _ => rfl⟩, nofun⟩
        rcases cause with one | two
        · exact .inl (.inr one)
        · exact .inr (.inr two)
      | some others =>
        have safeRest : ¬ (OverflowsAt rest start ∨ OverflowsAt rest stop) := by
          intro cause
          rw [restPanics.mpr cause] at second
          cases second
        have ofRest := restPieces others second
        rw [map_some]
        refine ⟨⟨nofun, fun wrong => ?_⟩, ?_⟩
        · rcases wrong with (one | two) | (one | two)
          · exact absurd (.inl one) safe
          · exact absurd (.inl two) safeRest
          · exact absurd (.inr one) safe
          · exact absurd (.inr two) safeRest
        rintro _ ⟨rfl⟩
        refine ⟨fun _ => ?_, fun other member => ?_, ?_, fun other member => ?_,
          fun address => ?_⟩
        · have some := ofRow.nonempty (List.cons_ne_nil _ _)
          simp [some]
        · rcases mem_append.mp member with here | there
          · exact ofRow.paged other here
          · exact ofRest.paged other there
        · refine pairwise_append.mpr ⟨ofRow.sorted, ofRest.sorted, ?_⟩
          intro one inRow two inRest
          rcases ofRow.inside one inRow with ⟨source, isRow, _, stops⟩
          rcases ofRest.inside two inRest with ⟨origin, inOrigin, starts, _⟩
          rw [mem_singleton.mp isRow] at stops
          have apart := fromRow origin inOrigin
          omega
        · rcases mem_append.mp member with here | there
          · rcases ofRow.inside other here with ⟨source, isRow, bounds⟩
            rw [mem_singleton.mp isRow] at bounds
            exact ⟨row, mem_cons_self, bounds⟩
          · rcases ofRest.inside other there with ⟨source, member, bounds⟩
            exact ⟨source, List.mem_cons_of_mem _ member, bounds⟩
        have whole : meaning (row :: rest) address =
            (meaning [row] address).or (meaning rest address) :=
          meaning_append [row] rest address
        rw [meaning_append, ofRow.means, ofRest.means]
        unfold rewritten
        rw [whole]
        split
        · rw [Option.map_or]
        · rfl

variable {rows : Rows}

theorem modifyRange_edited (coalesced : Coalesced rows) (alignedStart : pageSize ∣ start)
    (alignedStop : pageSize ∣ stop) (keeps : KeepsOffset modify) :
    Edited rows (start < stop ∧ (OverflowsAt rows start ∨ OverflowsAt rows stop))
      (rewritten start stop modify) (modifyRange start stop modify rows) := by
  unfold modifyRange
  by_cases order : start < stop
  · rw [if_pos order]
    rcases around coalesced order with ⟨before, middle, after, parts⟩
    have atStart := parts.overflowsAt_iff (Nat.le_refl start) (Nat.le_of_lt order)
    have atStop := parts.overflowsAt_iff (Nat.le_of_lt order) (Nat.le_refl stop)
    have pairs := coalesced.pairwise
    have good : ∀ row ∈ before ++ (middle ++ after), row.Paged := by
      rw [<- parts.whole]
      exact coalesced.good
    rw [parts.whole, pairwise_append] at pairs
    rcases pairs with ⟨_, pairsRest, fromBefore⟩
    rw [pairwise_append] at pairsRest
    rcases pairsRest with ⟨pairsMiddle, _, fromMiddle⟩
    have coalescedWhole : Coalesced (before ++ (middle ++ after)) := parts.whole ▸ coalesced
    have outside : ∀ address, meaning rows address =
        (meaning before address).or ((meaning middle address).or (meaning after address)) := by
      intro address
      rw [parts.whole, meaning_append, meaning_append]
    dsimp only
    by_cases empty : middle = []
    · rw [if_pos (parts.empty_iff.mpr empty)]
      refine Edited.of_some ?_ coalesced ?_
      · rintro ⟨_, wrong⟩
        rw [atStart, atStop, empty] at wrong
        rcases wrong with ⟨row, member, _⟩ | ⟨row, member, _⟩ <;> cases member
      funext address
      unfold rewritten
      split
      · rename_i inside
        rw [outside, empty, parts.meaning_before inside.1, parts.meaning_after inside.2]
        rfl
      · rfl
    rw [if_neg (fun wrong => empty (parts.empty_iff.mp wrong)), parts.run_eq]
    rcases modifiedRun_spec keeps order alignedStart alignedStop
      (fun row member => good row (mem_append_right _ (mem_append_left _ member)))
      (pairsMiddle.imp (fun apart => apart.1)) parts.meets with ⟨panics, computes⟩
    cases computed : modifiedRun start stop modify middle with
    | none =>
      rw [map_none]
      refine Edited.of_none ⟨order, ?_⟩
      rw [atStart, atStop]
      exact panics.mp computed
    | some pieces =>
      have ofRun := computes pieces computed
      have safe : ¬ (start < stop ∧ (OverflowsAt rows start ∨ OverflowsAt rows stop)) := by
        rintro ⟨_, wrong⟩
        rw [atStart, atStop] at wrong
        rw [panics.mpr wrong] at computed
        cases computed
      have collected : kit.Seamed pieces (kit.coalesce pieces) :=
        Joining.coalesce_spec ofRun.paged ofRun.sorted
      have present : kit.coalesce pieces ≠ [] :=
        Joining.coalesce_ne_nil (ofRun.nonempty empty)
      rw [map_some, coalesce_eq, parts.splice_eq, parts.first,
        mergeAround_eq before present after]
      have orderBefore : ∀ row ∈ before,
          ∀ other ∈ kit.coalesce pieces ++ after,
          (kit.bounds row).2 <= (kit.bounds other).1 := by
        intro row inBefore other inside
        rcases mem_append.mp inside with inPieces | inAfter
        · rcases collected.starts other inPieces with ⟨source, inSource, same⟩
          rcases ofRun.inside source inSource with ⟨origin, inOrigin, starts, _⟩
          rw [same]
          exact Nat.le_trans (fromBefore row inBefore origin
            (mem_append_left _ inOrigin)).1 starts
        · exact (fromBefore row inBefore other (mem_append_right _ inAfter)).1
      have orderAfter : ∀ row ∈ kit.coalesce pieces, ∀ other ∈ after,
          (kit.bounds row).2 <= (kit.bounds other).1 := by
        intro row inPieces other inAfter
        rcases collected.stops row inPieces with ⟨source, inSource, same⟩
        rcases ofRun.inside source inSource with ⟨origin, inOrigin, _, stops⟩
        rw [same]
        exact Nat.le_trans stops (fromMiddle origin inOrigin other inAfter).1
      have seamed := Joining.seam_seam_spec coalescedWhole.left collected.coalesced
        coalescedWhole.right.right orderBefore orderAfter
      refine Edited.of_some safe seamed.coalesced ?_
      funext address
      have means : meaning (kit.coalesce pieces) address =
          rewritten start stop modify (meaning middle) address :=
        (collected.meaning address).trans (ofRun.means address)
      have spliced := seamed.meaning address
      change meaning _ address = meaning _ address at spliced
      rw [spliced, meaning_append, meaning_append, means]
      unfold rewritten
      rw [outside]
      split
      · rename_i inside
        rw [parts.meaning_before inside.1, parts.meaning_after inside.2, none_or,
          none_or, or_none, or_none]
      · rfl
  · rw [if_neg order]
    refine Edited.of_some (fun wrong => order wrong.1) coalesced ?_
    funext address
    unfold rewritten
    rw [if_neg (by omega)]

/-! ## Inserting a row -/

/-- The finite map with the range of a row overwritten. -/
def overwritten (vma : SemanticVma) (old : Nat -> Option VmaAttributes) (address : Nat) :
    Option VmaAttributes :=
  if vma.start <= address ∧ address < vma.stop then some (vma.attributesAt address) else old address

/-- Some address of the row's range is mapped. -/
def Occupied (vma : SemanticVma) (old : Nat -> Option VmaAttributes) : Prop :=
  ∃ address, vma.start <= address ∧ address < vma.stop ∧ old address ≠ none

theorem occupied_of_mem {vma : SemanticVma} (member : row ∈ rows) {address : Nat}
    (inRow : row.start <= address ∧ address < row.stop)
    (inRange : vma.start <= address ∧ address < vma.stop) : Occupied vma (meaning rows) :=
  ⟨address, inRange.1, inRange.2, Joining.covered_iff_meaning.mpr ⟨row, member, inRow⟩⟩

variable {before after : Rows}

/-- A row put between the rows before its range and those behind it. -/
theorem insertAt_spec (coalesced : Coalesced (before ++ after)) {vma : SemanticVma}
    (paged : vma.Paged) (ahead : ∀ row ∈ before, row.stop <= vma.start)
    (behind : ∀ row ∈ after, vma.stop <= row.start) :
    Coalesced (insertAt vma before.length (before ++ after)) ∧
      meaning (insertAt vma before.length (before ++ after)) =
        overwritten vma (meaning (before ++ after)) := by
  have ordered := paged.ordered
  have single : Coalesced [vma] := Joining.Coalesced.singleton paged
  have orderBefore : ∀ row ∈ before, ∀ other ∈ [vma] ++ after,
      (kit.bounds row).2 <= (kit.bounds other).1 := by
    intro row inBefore other inside
    have stops : row.stop <= vma.start := ahead row inBefore
    rcases mem_append.mp inside with isVma | inAfter
    · rw [mem_singleton.mp isVma]
      exact stops
    · have starts : vma.stop <= other.start := behind other inAfter
      change row.stop <= other.start
      omega
  have orderAfter : ∀ row ∈ [vma], ∀ other ∈ after,
      (kit.bounds row).2 <= (kit.bounds other).1 := by
    intro row isVma other inAfter
    rw [mem_singleton.mp isVma]
    exact behind other inAfter
  have seamed := Joining.seam_seam_spec coalesced.left single coalesced.right orderBefore orderAfter
  rw [insertAt_eq]
  refine ⟨seamed.coalesced, ?_⟩
  funext address
  have spliced := seamed.meaning address
  change meaning _ address = meaning _ address at spliced
  rw [spliced, meaning_append, meaning_append, meaning_singleton]
  unfold overwritten
  split
  · rename_i inside
    have none : meaning before address = none := meaning_eq_none (fun row member => .inr (by
      have stops := ahead row member
      omega))
    rw [none]
    rfl
  · rw [none_or, meaning_append]

/-- The place where a row is inserted: the rows that start before it, and the rest. -/
theorem insertion_point (coalesced : Coalesced rows) (start : Nat) :
    ∃ before after, rows = before ++ after ∧
      partitionPoint (fun row => decide (row.start < start)) rows = before.length ∧
      (∀ row ∈ before, row.start < start) ∧
      ∀ row ∈ after, start <= row.start := by
  have split := coalesced.ordered.split_by_start (fun first => decide (first < start))
    (fun lower upper order inside => decide_eq_true (Nat.lt_of_le_of_lt order (of_decide_eq_true inside)))
  refine ⟨rows.takeWhile (fun row => decide (row.start < start)),
    rows.dropWhile (fun row => decide (row.start < start)),
    List.takeWhile_append_dropWhile.symm, rfl,
    fun row member => of_decide_eq_true (split.1 row member), fun row member => ?_⟩
  have late : ¬ row.start < start := of_decide_eq_false (split.2 row member)
  omega

/-- Of the rows that start before an address, the last one decides whether any
of them reaches over it. -/
theorem last_reaches_iff (coalesced : Coalesced (before ++ after)) (start : Nat) :
    (decide (0 < before.length) && (before ++ after)[before.length - 1]?.any
      (fun row => decide (start < row.stop))) = true <-> ∃ row ∈ before, start < row.stop := by
  rcases List.eq_nil_or_concat before with empty | ⟨front, last, whole⟩
  · subst empty
    simp
  rw [List.concat_eq_append] at whole
  subst whole
  have found : (front ++ [last] ++ after)[(front ++ [last]).length - 1]? = some last := by simp
  rw [found, any_some, Bool.and_eq_true, decide_eq_true_eq, decide_eq_true_eq]
  constructor
  · intro reaches
    exact ⟨last, mem_append_right _ mem_cons_self, reaches.2⟩
  rintro ⟨row, member, reaches⟩
  refine ⟨by simp, ?_⟩
  rcases mem_append.mp member with inFront | isLast
  · have pairs := pairwise_append.mp (pairwise_append.mp coalesced.pairwise).1
    have ahead : row.stop <= last.start := (pairs.2.2 row inFront last mem_cons_self).1
    have room := (coalesced.good last (mem_append_left _
      (mem_append_right _ mem_cons_self))).ordered
    omega
  · rw [mem_singleton.mp isLast] at reaches
    exact reaches

/-- Of the other rows, the first one decides whether any starts below an address. -/
theorem first_starts_iff (coalesced : Coalesced (before ++ after)) (stop : Nat) :
    (before ++ after)[before.length]?.any (fun row => decide (row.start < stop)) = true <->
      ∃ row ∈ after, row.start < stop := by
  cases after with
  | nil => simp
  | cons head tail =>
    have found : (before ++ head :: tail)[before.length]? = some head := by simp
    rw [found, any_some, decide_eq_true_eq]
    constructor
    · intro starts
      exact ⟨head, mem_cons_self, starts⟩
    rintro ⟨row, member, starts⟩
    rcases mem_cons.mp member with isHead | inTail
    · rw [<- isHead]
      exact starts
    · have pairs := (pairwise_append.mp coalesced.pairwise).2.1
      have behind : head.stop <= row.start := ((pairwise_cons.mp pairs).1 row inTail).1
      have room := (coalesced.good head (mem_append_right _ mem_cons_self)).ordered
      omega

theorem insert_cases (coalesced : Coalesced rows) (vma : SemanticVma)
    (paged : vma.start < vma.stop -> vma.Paged) :
    (Occupied vma (meaning rows) ∧ insert vma rows = (.error ⟨vma.start, vma.stop⟩, rows)) ∨
    (¬ Occupied vma (meaning rows) ∧ ∃ after, insert vma rows = (.ok (), after) ∧
      Coalesced after ∧ meaning after = overwritten vma (meaning rows)) := by
  unfold insert
  by_cases order : vma.start < vma.stop
  · rw [if_pos order]
    rcases insertion_point coalesced vma.start with ⟨before, after, whole, index, starts, rest⟩
    dsimp only
    rw [index]
    subst whole
    have pairs := pairwise_append.mp coalesced.pairwise
    have overlast := last_reaches_iff coalesced vma.start
    have underfirst := first_starts_iff coalesced vma.stop
    by_cases reaching : ∃ row ∈ before, vma.start < row.stop
    · rw [if_pos (overlast.mpr reaching)]
      rcases reaching with ⟨row, member, reaches⟩
      exact .inl ⟨occupied_of_mem (mem_append_left _ member)
        ⟨Nat.le_of_lt (starts row member), reaches⟩ ⟨le_rfl, order⟩, rfl⟩
    rw [if_neg (fun wrong => reaching (overlast.mp wrong))]
    by_cases under : ∃ row ∈ after, row.start < vma.stop
    · rw [if_pos (underfirst.mpr under)]
      rcases under with ⟨row, member, begins⟩
      have room := (coalesced.good row (mem_append_right _ member)).ordered
      exact .inl ⟨occupied_of_mem (mem_append_right _ member)
        ⟨le_rfl, room⟩ ⟨rest row member, begins⟩, rfl⟩
    rw [if_neg (fun wrong => under (underfirst.mp wrong))]
    have ahead : ∀ row ∈ before, row.stop <= vma.start :=
      fun row member => Nat.le_of_not_lt (fun reaches => reaching ⟨row, member, reaches⟩)
    have behind : ∀ row ∈ after, vma.stop <= row.start :=
      fun row member => Nat.le_of_not_lt (fun begins => under ⟨row, member, begins⟩)
    refine .inr ⟨?_, _, rfl, insertAt_spec coalesced (paged order) ahead behind⟩
    rintro ⟨address, above, below, mapped⟩
    rcases Joining.covered_iff_meaning.mp mapped with ⟨row, member, covered⟩
    have lower : row.start <= address := covered.1
    have upper : address < row.stop := covered.2
    rcases mem_append.mp member with inBefore | inAfter
    · have stops := ahead row inBefore
      omega
    · have begins := behind row inAfter
      omega
  · rw [if_neg order]
    refine .inr ⟨?_, rows, rfl, coalesced, ?_⟩
    · rintro ⟨address, above, below, _⟩
      omega
    · funext address
      unfold overwritten
      rw [if_neg (by omega)]

theorem insertReplacing_edited (coalesced : Coalesced rows) (vma : SemanticVma)
    (paged : vma.start < vma.stop -> vma.Paged) :
    Edited rows (vma.start < vma.stop ∧ OverflowsAt rows vma.stop) (overwritten vma)
      (insertReplacing vma rows) := by
  unfold insertReplacing
  by_cases order : vma.start < vma.stop
  · rw [if_pos order]
    have good := paged order
    have edited := removeRange_edited coalesced good.start_aligned good.stop_aligned
    cases computed : removeRange vma.start vma.stop rows with
    | none =>
      rw [computed] at edited
      rw [map_none]
      exact Edited.of_none (edited.panics.mp rfl)
    | some removed =>
      rw [computed] at edited
      rcases edited.returns removed rfl with ⟨remains, means⟩
      have safe : ¬ (vma.start < vma.stop ∧ OverflowsAt rows vma.stop) := by
        intro wrong
        have panic := edited.panics.mpr wrong
        cases panic
      have clear : ∀ row ∈ removed, ∀ address,
          row.start <= address -> address < row.stop ->
          ¬ (vma.start <= address ∧ address < vma.stop) := by
        intro row member address lower upper inside
        have mapped : meaning removed address ≠ none :=
          Joining.covered_iff_meaning.mpr ⟨row, member, lower, upper⟩
        rw [means] at mapped
        exact mapped (if_pos inside)
      rcases insertion_point remains vma.start with ⟨before, after, whole, index, starts, rest⟩
      rw [map_some]
      rw [index]
      subst whole
      have spec := insertAt_spec remains good
        (fun row member => by
          have free := clear row (mem_append_left _ member) vma.start
            (Nat.le_of_lt (starts row member))
          omega)
        (fun row member => by
          have room := (remains.good row (mem_append_right _ member)).ordered
          have begins := rest row member
          have free := clear row (mem_append_right _ member) row.start le_rfl room
          omega)
      refine Edited.of_some safe spec.1 ?_
      rw [spec.2, means]
      funext address
      unfold overwritten erased
      split
      · rfl
      · rfl
  · rw [if_neg order]
    refine Edited.of_some (fun wrong => order wrong.1) coalesced ?_
    funext address
    unfold overwritten
    rw [if_neg (by omega)]

/-! ## Dropping rows and coalescing -/

/-- The finite map without the addresses that a child does not inherit. -/
def inherited (old : Nat -> Option VmaAttributes) (address : Nat) : Option VmaAttributes :=
  (old address).filter (fun attributes => decide (attributes.forkPolicy.copy ≠ .omit))

theorem applyForkWipe_spec (coalesced : Coalesced rows) :
    Coalesced (applyForkWipe rows) ∧ meaning (applyForkWipe rows) = inherited (meaning rows) := by
  refine ⟨coalesced.sublist List.filter_sublist, ?_⟩
  funext address
  have pairs := coalesced.pairwise
  unfold applyForkWipe inherited
  clear coalesced
  induction rows with
  | nil => rfl
  | cons row rest ih =>
    rcases pairwise_cons.mp pairs with ⟨fromRow, pairsRest⟩
    have whole : meaning (row :: rest) address =
        (meaning [row] address).or (meaning rest address) := meaning_append [row] rest address
    rw [whole, List.filter_cons]
    by_cases covered : row.start <= address ∧ address < row.stop
    · have here : meaning [row] address = some (row.attributesAt address) := by
        rw [meaning_singleton, if_pos covered]
      rw [here, Option.some_or, Option.filter_some]
      have same : (row.attributesAt address).forkPolicy = row.attributes.forkPolicy := rfl
      rw [same]
      split
      · have kept : meaning (row :: rest.filter
            (fun row => decide (row.attributes.forkPolicy.copy ≠ .omit))) address =
            (meaning [row] address).or (meaning (rest.filter
              (fun row => decide (row.attributes.forkPolicy.copy ≠ .omit))) address) :=
          meaning_append [row] _ address
        rw [kept, here]
        rfl
      · refine meaning_eq_none (fun other member => .inl ?_)
        have behind : row.stop <= other.start := (fromRow other (List.mem_of_mem_filter member)).1
        omega
    · have here : meaning [row] address = none := by
        rw [meaning_singleton, if_neg covered]
      rw [here, none_or, <- ih pairsRest]
      split
      · have kept : meaning (row :: rest.filter
            (fun row => decide (row.attributes.forkPolicy.copy ≠ .omit))) address =
            (meaning [row] address).or (meaning (rest.filter
              (fun row => decide (row.attributes.forkPolicy.copy ≠ .omit))) address) :=
          meaning_append [row] _ address
        rw [kept, here, none_or]
      · rfl

theorem coalesce_spec (coalesced : Coalesced rows) :
    Coalesced (coalesce rows) ∧ meaning (coalesce rows) = meaning rows := by
  rw [coalesce_eq]
  have seamed := Joining.coalesce_spec coalesced.good coalesced.ordered.disjoint
  exact ⟨seamed.coalesced, funext seamed.meaning⟩

end VmaMap
end Carrick

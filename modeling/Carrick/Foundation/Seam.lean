import Carrick.Foundation.RangeList
import Mathlib.Data.List.Chain

namespace Carrick
namespace Foundation

open List (append_assoc isChain_cons mem_append mem_append_left mem_append_right mem_cons mem_cons_of_mem mem_cons_self pairwise_cons)

/-!
# Coalesced lists of rows

A row occupies a half-open range of addresses and gives each of them a value.
Two rows may join into one when the second starts where the first stops and
the joined row gives every address the value it had.  A list of rows is
coalesced when it is sorted, disjoint and no row joins its neighbour.  Edits
splice a run of rows into such a list and then try to join at the two seams
only; the rules below say that this is enough.
-/

universe u v

/-- Rows with their ranges, values and joins.  The fields say that joining two
rows that touch loses nothing of what they say. -/
structure Joining (T : Type u) (V : Type v) where
  bounds : T -> Nat × Nat
  valueAt : T -> Nat -> V
  joins : T -> T -> Bool
  join : T -> T -> T
  good : T -> Prop
  nonempty : ∀ {row}, good row -> (bounds row).1 < (bounds row).2
  touching : ∀ {first second}, joins first second = true ->
    (bounds first).2 = (bounds second).1
  good_join : ∀ {first second}, good first -> good second -> joins first second = true ->
    good (join first second)
  bounds_join : ∀ first second,
    bounds (join first second) = ((bounds first).1, (bounds second).2)
  value_below : ∀ {first second}, joins first second = true -> ∀ address,
    valueAt (join first second) address = valueAt first address
  value_above : ∀ {first second}, good first -> good second -> joins first second = true ->
    ∀ address, (bounds second).1 <= address ->
      valueAt first address = valueAt second address
  joins_join : ∀ {first second}, good first -> good second -> joins first second = true ->
    ∀ {third}, good third -> joins (join first second) third = joins second third
  join_joins : ∀ {first second}, joins first second = true ->
    ∀ previous, joins previous (join first second) = joins previous first

namespace Joining

variable {T : Type u} {V : Type v} (kit : Joining T V)

/-! ## The value of an address -/

def covers (row : T) (address : Nat) : Prop :=
  (kit.bounds row).1 <= address ∧ address < (kit.bounds row).2

instance (row : T) (address : Nat) : Decidable (kit.covers row address) :=
  inferInstanceAs (Decidable (_ ∧ _))

/-- The value that the first row over an address gives it. -/
def meaning : List T -> Nat -> Option V
  | [], _ => none
  | row :: rest, address =>
    if kit.covers row address then some (kit.valueAt row address) else meaning rest address

variable {kit}

theorem meaning_cons (row : T) (rest : List T) (address : Nat) :
    kit.meaning (row :: rest) address =
      if kit.covers row address then some (kit.valueAt row address) else kit.meaning rest address :=
  rfl

theorem meaning_append (first second : List T) (address : Nat) :
    kit.meaning (first ++ second) address =
      (kit.meaning first address).or (kit.meaning second address) := by
  induction first with
  | nil => rfl
  | cons row rest ih =>
    rw [List.cons_append, meaning_cons, meaning_cons]
    split
    · rfl
    · exact ih

variable {rows : List T} {address : Nat}

theorem meaning_eq_none (uncovered : ∀ row ∈ rows, ¬ kit.covers row address) :
    kit.meaning rows address = none := by
  induction rows with
  | nil => rfl
  | cons row rest ih =>
    rw [meaning_cons, if_neg (uncovered row mem_cons_self)]
    exact ih (fun other member => uncovered other (mem_cons_of_mem _ member))

theorem meaning_eq_some {value : V} (found : kit.meaning rows address = some value) :
    ∃ row ∈ rows, kit.covers row address ∧ kit.valueAt row address = value := by
  induction rows with
  | nil => cases found
  | cons row rest ih =>
    rw [meaning_cons] at found
    split at found
    · rename_i covered
      exact ⟨row, mem_cons_self, covered, Option.some.inj found⟩
    · rcases ih found with ⟨other, member, covered, same⟩
      exact ⟨other, mem_cons_of_mem _ member, covered, same⟩

theorem covered_iff_meaning :
    kit.meaning rows address ≠ none <-> ∃ row ∈ rows, kit.covers row address := by
  constructor
  · intro present
    rcases Option.ne_none_iff_exists'.mp present with ⟨value, found⟩
    rcases meaning_eq_some found with ⟨row, member, covered, _⟩
    exact ⟨row, member, covered⟩
  rintro ⟨row, member, covered⟩ absent
  induction rows with
  | nil => cases member
  | cons head rest ih =>
    rw [meaning_cons] at absent
    split at absent
    · cases absent
    · rename_i uncovered
      rcases mem_cons.mp member with same | later
      · exact uncovered (same ▸ covered)
      · exact ih later absent

variable {first second : T}

theorem covers_join (goodFirst : kit.good first) (goodSecond : kit.good second)
    (joined : kit.joins first second = true) (address : Nat) :
    kit.covers (kit.join first second) address <->
      kit.covers first address ∨ kit.covers second address := by
  have here := kit.nonempty goodFirst
  have there := kit.nonempty goodSecond
  have touch := kit.touching joined
  have bounds := kit.bounds_join first second
  have starts : (kit.bounds (kit.join first second)).1 = (kit.bounds first).1 := by rw [bounds]
  have stops : (kit.bounds (kit.join first second)).2 = (kit.bounds second).2 := by rw [bounds]
  unfold covers
  omega

theorem meaning_join (goodFirst : kit.good first) (goodSecond : kit.good second)
    (joined : kit.joins first second = true) (rest : List T) (address : Nat) :
    kit.meaning (kit.join first second :: rest) address =
      kit.meaning (first :: second :: rest) address := by
  have covered := covers_join goodFirst goodSecond joined address
  have below := kit.value_below joined address
  rw [meaning_cons, meaning_cons, meaning_cons]
  by_cases inFirst : kit.covers first address
  · rw [if_pos inFirst, if_pos (covered.mpr (.inl inFirst)), below]
  by_cases inSecond : kit.covers second address
  · rw [if_neg inFirst, if_pos inSecond, if_pos (covered.mpr (.inr inSecond)), below,
      kit.value_above goodFirst goodSecond joined address inSecond.1]
  rw [if_neg inFirst, if_neg inSecond, if_neg]
  intro wrong
  rcases covered.mp wrong with first | second
  · exact inFirst first
  · exact inSecond second

/-! ## Coalesced lists -/

/-- Sorted, disjoint and not joining. -/
def Apart (kit : Joining T V) (first second : T) : Prop :=
  (kit.bounds first).2 <= (kit.bounds second).1 ∧ kit.joins first second = false

theorem Apart.of_gap (gap : (kit.bounds first).2 < (kit.bounds second).1) :
    kit.Apart first second := by
  refine ⟨Nat.le_of_lt gap, ?_⟩
  cases joined : kit.joins first second with
  | false => rfl
  | true =>
    have touch := kit.touching joined
    omega

structure Coalesced (kit : Joining T V) (rows : List T) : Prop where
  good : ∀ row ∈ rows, kit.good row
  apart : rows.IsChain kit.Apart

namespace Coalesced

theorem nil : kit.Coalesced [] := ⟨nofun, .nil⟩

theorem singleton {row : T} (good : kit.good row) : kit.Coalesced [row] := by
  refine ⟨fun other member => ?_, .singleton row⟩
  rw [List.mem_singleton.mp member]
  exact good

theorem left {first second : List T} (coalesced : kit.Coalesced (first ++ second)) :
    kit.Coalesced first :=
  ⟨fun row member => coalesced.good row (mem_append_left _ member), coalesced.apart.left_of_append⟩

theorem right {first second : List T} (coalesced : kit.Coalesced (first ++ second)) :
    kit.Coalesced second :=
  ⟨fun row member => coalesced.good row (mem_append_right _ member),
    coalesced.apart.right_of_append⟩

theorem pairwise (coalesced : kit.Coalesced rows) : rows.Pairwise kit.Apart := by
  have chain : rows.IsChain (fun first second => kit.good first ∧ kit.good second ∧
      kit.Apart first second) := by
    refine List.IsChain.imp_of_mem_imp ?_ coalesced.apart
    intro first second memberFirst memberSecond apart
    exact ⟨coalesced.good first memberFirst, coalesced.good second memberSecond, apart⟩
  have transitive : Trans
      (fun first second => kit.good first ∧ kit.good second ∧ kit.Apart first second)
      (fun first second => kit.good first ∧ kit.good second ∧ kit.Apart first second)
      (fun first second => kit.good first ∧ kit.good second ∧ kit.Apart first second) := by
    refine ⟨?_⟩
    rintro first second third ⟨goodFirst, goodSecond, before⟩ ⟨_, goodThird, behind⟩
    refine ⟨goodFirst, goodThird, Apart.of_gap ?_⟩
    have room := kit.nonempty goodSecond
    have lower := before.1
    have upper := behind.1
    omega
  exact (List.isChain_iff_pairwise.mp chain).imp (fun related => related.2.2)

theorem ordered (coalesced : kit.Coalesced rows) : Ordered kit.bounds rows :=
  ⟨fun row member => kit.nonempty (coalesced.good row member),
    coalesced.pairwise.imp (fun apart => apart.1)⟩

theorem of_pairwise (good : ∀ row ∈ rows, kit.good row)
    (apart : rows.Pairwise kit.Apart) : kit.Coalesced rows :=
  ⟨good, apart.isChain⟩

theorem sublist {shorter : List T} (coalesced : kit.Coalesced rows) (kept : shorter.Sublist rows) :
    kit.Coalesced shorter :=
  of_pairwise (fun row member => coalesced.good row (kept.subset member))
    (coalesced.pairwise.sublist kept)

end Coalesced

/-! ## Joining at one seam -/

/-- Put two lists next to each other and join the rows that meet, if they do. -/
def seam (kit : Joining T V) (left right : List T) : List T :=
  match left.getLast?, right with
  | some last, head :: rest =>
    if kit.joins last head then left.dropLast ++ kit.join last head :: rest else left ++ right
  | _, _ => left ++ right

theorem seam_nil_left (right : List T) : kit.seam [] right = right := by
  cases right <;> rfl

theorem seam_nil_right (left : List T) : kit.seam left [] = left := by
  unfold seam
  cases left.getLast? <;> exact List.append_nil left

theorem seam_concat (left : List T) (last head : T) (rest : List T) :
    kit.seam (left ++ [last]) (head :: rest) =
      if kit.joins last head then left ++ kit.join last head :: rest
      else left ++ last :: head :: rest := by
  unfold seam
  rw [List.getLast?_concat, List.dropLast_concat]
  dsimp only
  split
  · rfl
  · rw [append_assoc]
    rfl

theorem seam_append_left (before : List T) {left : List T} (nonempty : left ≠ []) (right : List T) :
    kit.seam (before ++ left) right = before ++ kit.seam left right := by
  rcases List.eq_nil_or_concat left with empty | ⟨front, last, whole⟩
  · exact absurd empty nonempty
  rw [whole, List.concat_eq_append, <- append_assoc]
  cases right with
  | nil => rw [seam_nil_right, seam_nil_right, append_assoc]
  | cons head rest =>
    rw [seam_concat, seam_concat]
    split
    · rw [append_assoc]
    · rw [append_assoc]

/-- What a seam does to two coalesced lists in order: the rows mean the same,
are coalesced, and have no bound that was not there. -/
structure Seamed (kit : Joining T V) (rows seamed : List T) : Prop where
  coalesced : kit.Coalesced seamed
  meaning : ∀ address, kit.meaning seamed address = kit.meaning rows address
  starts : ∀ row ∈ seamed, ∃ other ∈ rows, (kit.bounds row).1 = (kit.bounds other).1
  stops : ∀ row ∈ seamed, ∃ other ∈ rows, (kit.bounds row).2 = (kit.bounds other).2

theorem Seamed.refl (coalesced : kit.Coalesced rows) : kit.Seamed rows rows :=
  ⟨coalesced, fun _ => rfl, fun row member => ⟨row, member, rfl⟩,
    fun row member => ⟨row, member, rfl⟩⟩

theorem seam_spec {left right : List T} (first : kit.Coalesced left) (second : kit.Coalesced right)
    (order : ∀ row ∈ left, ∀ other ∈ right,
      (kit.bounds row).2 <= (kit.bounds other).1) :
    kit.Seamed (left ++ right) (kit.seam left right) := by
  rcases List.eq_nil_or_concat left with empty | ⟨before, last, whole⟩
  · subst empty
    rw [seam_nil_left]
    exact Seamed.refl second
  cases right with
  | nil =>
    rw [seam_nil_right, List.append_nil]
    exact Seamed.refl first
  | cons head rest =>
    have shape : left = before ++ [last] := by rw [whole, List.concat_eq_append]
    subst shape
    have goodLast := first.good last (mem_append_right _ mem_cons_self)
    have goodHead := second.good head mem_cons_self
    have chainLeft := List.isChain_append.mp first.apart
    rw [seam_concat]
    cases joined : kit.joins last head with
    | false =>
      rw [if_neg (by simp)]
      have flat : before ++ [last] ++ head :: rest = before ++ last :: head :: rest := by
        rw [append_assoc]
        rfl
      rw [flat]
      refine Seamed.refl ⟨fun row member => ?_, ?_⟩
      · rw [<- flat] at member
        rcases mem_append.mp member with inLeft | inRight
        · exact first.good row inLeft
        · exact second.good row inRight
      rw [<- flat]
      refine List.isChain_append.mpr ⟨first.apart, second.apart, ?_⟩
      intro row isLast other isHead
      rw [List.getLast?_concat] at isLast
      cases isLast
      cases isHead
      exact ⟨order last (mem_append_right _ mem_cons_self) head
        mem_cons_self, joined⟩
    | true =>
      rw [if_pos rfl]
      have goodJoin := kit.good_join goodLast goodHead joined
      have startJoin : (kit.bounds (kit.join last head)).1 = (kit.bounds last).1 := by
        rw [kit.bounds_join]
      have stopJoin : (kit.bounds (kit.join last head)).2 = (kit.bounds head).2 := by
        rw [kit.bounds_join]
      refine ⟨⟨fun row member => ?_, ?_⟩, fun address => ?_, fun row member => ?_,
        fun row member => ?_⟩
      · rcases mem_append.mp member with inBefore | inRest
        · exact first.good row (mem_append_left _ inBefore)
        · rcases mem_cons.mp inRest with same | later
          · exact same ▸ goodJoin
          · exact second.good row (mem_cons_of_mem _ later)
      · have chainRight := isChain_cons.mp second.apart
        refine List.isChain_append.mpr ⟨chainLeft.1, isChain_cons.mpr ⟨?_, chainRight.2⟩, ?_⟩
        · intro next isNext
          have apart := chainRight.1 next isNext
          have goodNext := second.good next
            (mem_cons_of_mem _ (List.mem_of_mem_head? isNext))
          refine ⟨?_, ?_⟩
          · rw [stopJoin]
            exact apart.1
          · rw [kit.joins_join goodLast goodHead joined goodNext]
            exact apart.2
        · intro previous isLast other isHead
          cases isHead
          have apart := chainLeft.2.2 previous isLast last rfl
          refine ⟨?_, ?_⟩
          · rw [startJoin]
            exact apart.1
          · rw [kit.join_joins joined]
            exact apart.2
      · have flat : before ++ [last] ++ head :: rest = before ++ last :: head :: rest := by
          rw [append_assoc]
          rfl
        rw [flat, meaning_append, meaning_append, meaning_join goodLast goodHead joined]
      · rcases mem_append.mp member with inBefore | inRest
        · exact ⟨row, mem_append_left _ (mem_append_left _ inBefore), rfl⟩
        rcases mem_cons.mp inRest with same | later
        · refine ⟨last, mem_append_left _
            (mem_append_right _ mem_cons_self), ?_⟩
          rw [same, startJoin]
        · exact ⟨row, mem_append_right _ (mem_cons_of_mem _ later), rfl⟩
      · rcases mem_append.mp member with inBefore | inRest
        · exact ⟨row, mem_append_left _ (mem_append_left _ inBefore), rfl⟩
        · rcases mem_cons.mp inRest with same | later
          · refine ⟨head, mem_append_right _ mem_cons_self, ?_⟩
            rw [same, stopJoin]
          · exact ⟨row, mem_append_right _ (mem_cons_of_mem _ later), rfl⟩

/-- Splicing a coalesced run between two others and joining at both seams. -/
theorem seam_seam_spec {before middle after : List T} (first : kit.Coalesced before)
    (second : kit.Coalesced middle) (third : kit.Coalesced after)
    (orderBefore : ∀ row ∈ before, ∀ other ∈ middle ++ after,
      (kit.bounds row).2 <= (kit.bounds other).1)
    (orderAfter : ∀ row ∈ middle, ∀ other ∈ after,
      (kit.bounds row).2 <= (kit.bounds other).1) :
    kit.Seamed (before ++ (middle ++ after)) (kit.seam before (kit.seam middle after)) := by
  have inner := seam_spec second third orderAfter
  have outer := seam_spec first inner.coalesced (fun row member other inside => by
    rcases inner.starts other inside with ⟨source, fromRows, same⟩
    rw [same]
    exact orderBefore row member source fromRows)
  refine ⟨outer.coalesced, fun address => ?_, fun row member => ?_, fun row member => ?_⟩
  · rw [outer.meaning, meaning_append, meaning_append, inner.meaning]
  · rcases outer.starts row member with ⟨source, inside, same⟩
    rcases mem_append.mp inside with inBefore | inSeam
    · exact ⟨source, mem_append_left _ inBefore, same⟩
    · rcases inner.starts source inSeam with ⟨origin, fromRows, sameOrigin⟩
      exact ⟨origin, mem_append_right _ fromRows, same.trans sameOrigin⟩
  rcases outer.stops row member with ⟨source, inside, same⟩
  rcases mem_append.mp inside with inBefore | inSeam
  · exact ⟨source, mem_append_left _ inBefore, same⟩
  · rcases inner.stops source inSeam with ⟨origin, fromRows, sameOrigin⟩
    exact ⟨origin, mem_append_right _ fromRows, same.trans sameOrigin⟩

/-! ## Joining everywhere -/

/-- Walk a list with the row collected last. -/
def coalesceFrom (kit : Joining T V) (last : T) : List T -> List T
  | [] => [last]
  | row :: rest =>
    if kit.joins last row then coalesceFrom kit (kit.join last row) rest
    else last :: coalesceFrom kit row rest

def coalesce (kit : Joining T V) : List T -> List T
  | [] => []
  | row :: rest => kit.coalesceFrom row rest

theorem coalesceFrom_ne_nil (last : T) (rows : List T) : kit.coalesceFrom last rows ≠ [] := by
  induction rows generalizing last with
  | nil => exact List.cons_ne_nil _ _
  | cons row rest ih =>
    rw [coalesceFrom]
    split
    · exact ih _
    · exact List.cons_ne_nil _ _

theorem coalesce_ne_nil (nonempty : rows ≠ []) : kit.coalesce rows ≠ [] := by
  cases rows with
  | nil => exact absurd rfl nonempty
  | cons row rest => exact coalesceFrom_ne_nil row rest

/-- What the walk makes of its rows.  Its first row starts like the first one it
was given, and joins to a previous row just as that does. -/
structure Collected (kit : Joining T V) (last : T) (rows collected : List T) : Prop extends
    Seamed kit (last :: rows) collected where
  head : ∃ first rest, collected = first :: rest ∧ (kit.bounds first).1 = (kit.bounds last).1 ∧
    ∀ previous, kit.joins previous first = kit.joins previous last

theorem coalesceFrom_spec {last : T} (good : ∀ row ∈ last :: rows, kit.good row)
    (sorted : (last :: rows).Pairwise (fun first second => (kit.bounds first).2 <= (kit.bounds
      second).1)) :
    kit.Collected last rows (kit.coalesceFrom last rows) := by
  induction rows generalizing last with
  | nil =>
    exact ⟨Seamed.refl (Coalesced.singleton (good last mem_cons_self)), last, [], rfl, rfl,
      fun _ => rfl⟩
  | cons row rest ih =>
    have goodLast := good last mem_cons_self
    have goodRow := good row (mem_cons_of_mem _ mem_cons_self)
    rcases pairwise_cons.mp sorted with ⟨fromLast, sortedRest⟩
    have goodRest : ∀ other ∈ row :: rest, kit.good other :=
      fun other member => good other (mem_cons_of_mem _ member)
    rw [coalesceFrom]
    cases joined : kit.joins last row with
    | true =>
      rw [if_pos rfl]
      have goodJoin := kit.good_join goodLast goodRow joined
      have startJoin : (kit.bounds (kit.join last row)).1 = (kit.bounds last).1 := by
        rw [kit.bounds_join]
      have stopJoin : (kit.bounds (kit.join last row)).2 = (kit.bounds row).2 := by
        rw [kit.bounds_join]
      have collected := ih (fun other member => by
          rcases mem_cons.mp member with same | later
          · exact same ▸ goodJoin
          · exact goodRest other (mem_cons_of_mem _ later))
        (pairwise_cons.mpr ⟨fun other member => by
          rw [stopJoin]
          exact (pairwise_cons.mp sortedRest).1 other member,
          (pairwise_cons.mp sortedRest).2⟩)
      refine ⟨⟨collected.coalesced, fun address => ?_, fun other member => ?_,
        fun other member => ?_⟩, ?_⟩
      · rw [collected.meaning, meaning_join goodLast goodRow joined]
      · rcases collected.starts other member with ⟨source, inside, same⟩
        rcases mem_cons.mp inside with isJoin | later
        · refine ⟨last, mem_cons_self, ?_⟩
          rw [same, isJoin, startJoin]
        · exact ⟨source, mem_cons_of_mem _ (mem_cons_of_mem _ later), same⟩
      · rcases collected.stops other member with ⟨source, inside, same⟩
        rcases mem_cons.mp inside with isJoin | later
        · refine ⟨row, mem_cons_of_mem _ mem_cons_self, ?_⟩
          rw [same, isJoin, stopJoin]
        · exact ⟨source, mem_cons_of_mem _ (mem_cons_of_mem _ later), same⟩
      · rcases collected.head with ⟨first, others, whole, start, alike⟩
        refine ⟨first, others, whole, start.trans startJoin, fun previous => ?_⟩
        rw [alike, kit.join_joins joined]
    | false =>
      rw [if_neg (by simp)]
      have collected := ih goodRest sortedRest
      rcases collected.head with ⟨first, others, whole, start, alike⟩
      refine ⟨⟨⟨fun other member => ?_, ?_⟩, fun address => ?_, fun other member => ?_,
        fun other member => ?_⟩, last, _, rfl, rfl, fun _ => rfl⟩
      · rcases mem_cons.mp member with same | later
        · exact same ▸ goodLast
        · exact collected.coalesced.good other later
      · refine isChain_cons.mpr ⟨fun next isNext => ?_, collected.coalesced.apart⟩
        rw [whole] at isNext
        cases isNext
        refine ⟨?_, ?_⟩
        · rw [start]
          exact fromLast row mem_cons_self
        · rw [alike]
          exact joined
      · rw [meaning, meaning, collected.meaning]
      · rcases mem_cons.mp member with same | later
        · exact ⟨last, mem_cons_self, by rw [same]⟩
        · rcases collected.starts other later with ⟨source, inside, same⟩
          exact ⟨source, mem_cons_of_mem _ inside, same⟩
      · rcases mem_cons.mp member with same | later
        · exact ⟨last, mem_cons_self, by rw [same]⟩
        · rcases collected.stops other later with ⟨source, inside, same⟩
          exact ⟨source, mem_cons_of_mem _ inside, same⟩

theorem coalesce_spec (good : ∀ row ∈ rows, kit.good row)
    (sorted : rows.Pairwise (fun first second => (kit.bounds first).2 <= (kit.bounds second).1)) :
    kit.Seamed rows (kit.coalesce rows) := by
  cases rows with
  | nil => exact Seamed.refl Coalesced.nil
  | cons row rest => exact (coalesceFrom_spec good sorted).toSeamed

end Joining

end Foundation
end Carrick

import Carrick.PipeCore.Record
import Mathlib.Data.Nat.ModEq

namespace Carrick
namespace PipeCore

open Foundation

/-!
# The queued content of the ring

The live pages occupy consecutive slots from the head, modulo the capacity.
Their slices in that order are the queued content.  The lemmas of this module
say how the content changes under the edits the operations make: a page leaves
at the head, loses a leading part, grows at the tail or is appended, and the
storage is moved or rotated.
-/

/-- The slots of `used` live pages from `head`, in ring order. -/
def liveSlots (pages : Nat) : Nat -> Nat -> List Nat
  | 0, _ => []
  | used + 1, head => head :: liveSlots pages used ((head + 1) % pages)

/-- The live bytes of the page in slot `index`. -/
def pageBytes (pageSize : Nat) (bytes : List UInt8) (slots : List Page) (index : Nat) :
    List UInt8 :=
  slice bytes (index * pageSize + (slots.getD index default).offset) (slots.getD index default).len

def ringContent (pageSize pages : Nat) (bytes : List UInt8) (slots : List Page)
    (head used : Nat) : List UInt8 :=
  (liveSlots pages used head).flatMap (pageBytes pageSize bytes slots)

def Pipe.content (pipe : Pipe) : List UInt8 :=
  ringContent pipe.state.pageSize pipe.state.capacityPages pipe.bytes pipe.slots
    pipe.state.head pipe.state.used

/-- A nonempty slice inside its page. -/
def Page.Live (pageSize : Nat) (page : Page) : Prop :=
  0 < page.len ∧ page.offset + page.len <= pageSize

/-- The ring is described by its record: the live pages fit into the capacity
and the storage, and each of them is a nonempty slice of its page. -/
structure Ring (pageSize pages : Nat) (bytes : List UInt8) (slots : List Page)
    (head used : Nat) : Prop where
  head_lt : head < pages
  used_le : used <= pages
  bytes_fit : used = 0 ∨ pages * pageSize <= bytes.length
  slots_fit : used = 0 ∨ pages <= slots.length
  pages_live : ∀ index ∈ liveSlots pages used head,
    (slots.getD index default).Live pageSize

/-! ## The live slots -/

theorem mem_liveSlots {pages used head index : Nat} (inside : head < pages) :
    index ∈ liveSlots pages used head <->
      ∃ ordinal, ordinal < used ∧ index = (head + ordinal) % pages := by
  induction used generalizing head with
  | zero => simp [liveSlots]
  | succ used ih =>
    unfold liveSlots
    rw [List.mem_cons, ih (Nat.mod_lt _ (by omega))]
    constructor
    · rintro (rfl | ⟨ordinal, below, rfl⟩)
      · exact ⟨0, by omega, (Nat.mod_eq_of_lt inside).symm⟩
      · refine ⟨ordinal + 1, by omega, ?_⟩
        rw [Nat.mod_add_mod]
        congr 1
        omega
    rintro ⟨ordinal, below, rfl⟩
    cases ordinal with
    | zero => exact .inl (Nat.mod_eq_of_lt inside)
    | succ ordinal =>
      refine .inr ⟨ordinal, by omega, ?_⟩
      rw [Nat.mod_add_mod]
      congr 1
      omega

theorem slot_injective {pages head first second : Nat} (firstBelow : first < pages)
    (secondBelow : second < pages) (same : (head + first) % pages = (head + second) % pages) :
    first = second := by
  have congruent : Nat.ModEq pages first second := Nat.ModEq.add_left_cancel' head same
  exact Nat.ModEq.eq_of_lt_of_lt congruent firstBelow secondBelow

theorem head_not_mem_rest {pages used head : Nat} (inside : head < pages) (fits : used < pages) :
    head ∉ liveSlots pages used ((head + 1) % pages) := by
  intro member
  rcases (mem_liveSlots (Nat.mod_lt _ (by omega))).mp member with ⟨ordinal, below, same⟩
  rw [Nat.mod_add_mod, Nat.add_assoc] at same
  have wrapped : (head + 0) % pages = (head + (1 + ordinal)) % pages := by
    rw [<- same]
    exact Nat.mod_eq_of_lt inside
  have := slot_injective (by omega) (by omega) wrapped
  omega

theorem next_not_mem {pages used head : Nat} (inside : head < pages) (fits : used < pages) :
    (head + used) % pages ∉ liveSlots pages used head := by
  intro member
  rcases (mem_liveSlots inside).mp member with ⟨ordinal, below, same⟩
  have := slot_injective fits (by omega) same
  omega

theorem liveSlots_append (pages : Nat) {used head : Nat} (inside : head < pages) :
    liveSlots pages (used + 1) head = liveSlots pages used head ++ [(head + used) % pages] := by
  induction used generalizing head with
  | zero => simp [liveSlots, Nat.mod_eq_of_lt inside]
  | succ used ih =>
    have shifted := ih (Nat.mod_lt (head + 1) (by omega : 0 < pages))
    rw [liveSlots, shifted, liveSlots, List.cons_append, Nat.mod_add_mod]
    congr 4
    omega

/-! ## The content under edits -/

section Content

variable {pageSize pages : Nat} {bytes : List UInt8} {slots : List Page} {head used : Nat}

theorem ringContent_congr {otherBytes : List UInt8} {otherSlots : List Page}
    (same : ∀ index ∈ liveSlots pages used head,
      pageBytes pageSize otherBytes otherSlots index = pageBytes pageSize bytes slots index) :
    ringContent pageSize pages otherBytes otherSlots head used =
      ringContent pageSize pages bytes slots head used := by
  unfold ringContent
  exact List.flatMap_congr same

theorem ringContent_cons (pageSize pages : Nat) (bytes : List UInt8) (slots : List Page)
    (head used : Nat) :
    ringContent pageSize pages bytes slots head (used + 1) =
      pageBytes pageSize bytes slots head ++
        ringContent pageSize pages bytes slots ((head + 1) % pages) used :=
  rfl

theorem ringContent_append (inside : head < pages) :
    ringContent pageSize pages bytes slots head (used + 1) =
      ringContent pageSize pages bytes slots head used ++
        pageBytes pageSize bytes slots ((head + used) % pages) := by
  unfold ringContent
  rw [liveSlots_append pages inside, List.flatMap_append, List.flatMap_singleton]

variable {index : Nat}

theorem pageBytes_set_ne {other : Nat} (ne : index ≠ other) (page : Page) :
    pageBytes pageSize bytes (slots.set other page) index =
      pageBytes pageSize bytes slots index := by
  unfold pageBytes
  rw [List.getD_eq_getElem?_getD, List.getD_eq_getElem?_getD, List.getElem?_set_ne (Ne.symm ne)]

theorem getD_set_self (inside : index < slots.length) (page : Page) :
    (slots.set index page).getD index default = page := by
  rw [List.getD_eq_getElem?_getD, List.getElem?_set_self inside, Option.getD_some]

theorem getD_set_ne {other : Nat} (ne : index ≠ other) (page : Page) :
    (slots.set other page).getD index default = slots.getD index default := by
  rw [List.getD_eq_getElem?_getD, List.getD_eq_getElem?_getD, List.getElem?_set_ne (Ne.symm ne)]

theorem page_stretch_le (pageSize : Nat) {pages : Nat} (below : index < pages) :
    index * pageSize + pageSize <= pages * pageSize := by
  rw [<- Nat.succ_mul]
  exact Nat.mul_le_mul_right _ below

/-- Writing into the stretch of one slot leaves the live bytes of the others. -/
theorem pageBytes_overwrite_ne {other start : Nat} {new : List UInt8} (ne : index ≠ other)
    (live : (slots.getD index default).Live pageSize)
    (lower : other * pageSize <= start)
    (upper : start + new.length <= other * pageSize + pageSize)
    (inside : start + new.length <= bytes.length) :
    pageBytes pageSize (overwrite bytes start new) slots index =
      pageBytes pageSize bytes slots index := by
  unfold pageBytes
  apply slice_overwrite_outside inside
  have bound := live.2
  rcases Nat.lt_or_gt_of_ne ne with before | after
  · have := page_stretch_le pageSize before
    omega
  · have := page_stretch_le pageSize after
    omega

theorem length_pageBytes (below : index < pages)
    (fits : pages * pageSize <= bytes.length) (live : (slots.getD index default).Live pageSize) :
    (pageBytes pageSize bytes slots index).length = (slots.getD index default).len := by
  have stretch := page_stretch_le pageSize below
  have bound := live.2
  unfold pageBytes
  exact length_slice (by omega)

theorem Ring.pop (ring : Ring pageSize pages bytes slots head (used + 1)) (page : Page) :
    Ring pageSize pages bytes (slots.set head page) ((head + 1) % pages) used ∧
      ringContent pageSize pages bytes (slots.set head page) ((head + 1) % pages) used =
        ringContent pageSize pages bytes slots ((head + 1) % pages) used := by
  have fits := ring.used_le
  have notHead : ∀ index ∈ liveSlots pages used ((head + 1) % pages),
      index ≠ head := by
    rintro index member rfl
    exact head_not_mem_rest ring.head_lt (by omega) member
  refine ⟨⟨Nat.mod_lt _ (by omega), by omega, ?_, ?_, ?_⟩, ?_⟩
  · exact .inr (ring.bytes_fit.resolve_left (by omega))
  · rw [List.length_set]
    exact .inr (ring.slots_fit.resolve_left (by omega))
  · intro index member
    rw [getD_set_ne (notHead index member)]
    exact ring.pages_live index (List.mem_cons_of_mem _ member)
  · apply ringContent_congr
    intro index member
    exact pageBytes_set_ne (notHead index member) page

theorem Ring.skip (ring : Ring pageSize pages bytes slots head (used + 1)) :
    Ring pageSize pages bytes slots ((head + 1) % pages) used := by
  have fits := ring.used_le
  refine ⟨Nat.mod_lt _ (by omega), by omega, ?_, ?_, ?_⟩
  · exact .inr (ring.bytes_fit.resolve_left (by omega))
  · exact .inr (ring.slots_fit.resolve_left (by omega))
  · intro index member
    exact ring.pages_live index (List.mem_cons_of_mem _ member)

theorem Ring.consume (ring : Ring pageSize pages bytes slots head (used + 1)) {count : Nat}
    (short : count < (slots.getD head default).len) :
    Ring pageSize pages bytes (slots.set head
        ⟨(slots.getD head default).offset + count, (slots.getD head default).len - count⟩)
        head (used + 1) ∧
      ringContent pageSize pages bytes slots head (used + 1) =
        slice bytes (head * pageSize + (slots.getD head default).offset) count ++
          ringContent pageSize pages bytes (slots.set head
            ⟨(slots.getD head default).offset + count, (slots.getD head default).len - count⟩)
            head (used + 1) := by
  generalize fresh : (⟨(slots.getD head default).offset + count,
    (slots.getD head default).len - count⟩ : Page) = page
  have popped := ring.pop page
  have slotsFit := ring.slots_fit.resolve_left (by omega)
  have inSlots : head < slots.length := Nat.lt_of_lt_of_le ring.head_lt slotsFit
  have updated : (slots.set head page).getD head default = page := getD_set_self inSlots page
  have live := ring.pages_live head (List.mem_cons_self ..)
  constructor
  · refine ⟨ring.head_lt, ring.used_le, ring.bytes_fit, ?_, ?_⟩
    · rw [List.length_set]
      exact ring.slots_fit
    intro index member
    rcases List.mem_cons.mp member with rfl | inRest
    · rw [updated, <- fresh]
      have bound := live.2
      exact ⟨by show 0 < _ - _; omega, by show _ + count + (_ - _) <= _; omega⟩
    · exact popped.1.pages_live index inRest
  · rw [ringContent_cons, ringContent_cons, popped.2, <- List.append_assoc]
    congr 1
    unfold pageBytes
    rw [updated, <- fresh]
    have total : (slots.getD head default).len =
        count + ((slots.getD head default).len - count) := by omega
    conv_lhs => rw [total]
    rw [slice_append, Nat.add_assoc]

/-- Bytes written into the stretch of a slot that is not live change nothing. -/
theorem Ring.scribble (ring : Ring pageSize pages bytes slots head used) {other : Nat}
    {new : List UInt8} (below : other < pages)
    (dead : other ∉ liveSlots pages used head) (short : new.length <= pageSize)
    (fits : pages * pageSize <= bytes.length) :
    Ring pageSize pages (overwrite bytes (other * pageSize) new) slots head used ∧
      ringContent pageSize pages (overwrite bytes (other * pageSize) new) slots head used =
        ringContent pageSize pages bytes slots head used := by
  have stretch := page_stretch_le pageSize below
  have inside : other * pageSize + new.length <= bytes.length := by omega
  refine ⟨⟨ring.head_lt, ring.used_le, ?_, ring.slots_fit, ring.pages_live⟩, ?_⟩
  · rw [length_overwrite inside]
    exact ring.bytes_fit
  apply ringContent_congr
  intro index member
  have ne : index ≠ other := by
    rintro rfl
    exact dead member
  exact pageBytes_overwrite_ne ne (ring.pages_live index member) le_rfl (by omega) inside

theorem Ring.push (ring : Ring pageSize pages bytes slots head used) {new : List UInt8}
    {filled : Nat} (room : used < pages) (positive : 0 < filled) (enough : filled <= new.length)
    (short : new.length <= pageSize) (bytesFit : pages * pageSize <= bytes.length)
    (slotsFit : pages <= slots.length) :
    Ring pageSize pages (overwrite bytes ((head + used) % pages * pageSize) new)
        (slots.set ((head + used) % pages) ⟨0, filled⟩) head (used + 1) ∧
      ringContent pageSize pages (overwrite bytes ((head + used) % pages * pageSize) new)
          (slots.set ((head + used) % pages) ⟨0, filled⟩) head (used + 1) =
        ringContent pageSize pages bytes slots head used ++ new.take filled := by
  have below : (head + used) % pages < pages := Nat.mod_lt _ (by omega)
  have dead := next_not_mem ring.head_lt room
  have scribbled := ring.scribble below dead short bytesFit
  have stretch := page_stretch_le pageSize below
  have updated := getD_set_self (Nat.lt_of_lt_of_le below slotsFit) (⟨0, filled⟩ : Page)
  have notTail : ∀ index ∈ liveSlots pages used head,
      index ≠ (head + used) % pages := by
    rintro index member rfl
    exact dead member
  refine ⟨⟨ring.head_lt, by omega, ?_, ?_, ?_⟩, ?_⟩
  · rw [length_overwrite (by omega)]
    exact .inr bytesFit
  · rw [List.length_set]
    exact .inr slotsFit
  · intro index member
    rw [liveSlots_append pages ring.head_lt] at member
    rcases List.mem_append.mp member with old | isTail
    · rw [getD_set_ne (notTail index old)]
      exact ring.pages_live index old
    · rw [List.mem_singleton.mp isTail, updated]
      exact ⟨positive, by show 0 + filled <= pageSize; omega⟩
  have appended : pageBytes pageSize (overwrite bytes ((head + used) % pages * pageSize) new)
      (slots.set ((head + used) % pages) ⟨0, filled⟩) ((head + used) % pages) =
      new.take filled := by
    unfold pageBytes
    rw [updated]
    exact slice_overwrite_inside (by omega) enough
  rw [ringContent_append ring.head_lt, appended, <- scribbled.2]
  congr 1
  apply ringContent_congr
  intro index member
  exact pageBytes_set_ne (notTail index member) _

theorem Ring.grow (ring : Ring pageSize pages bytes slots head (used + 1)) {tail : Nat}
    (isTail : tail = (head + used) % pages) {page : Page} (found : slots.getD tail default = page)
    {new : List UInt8} {filled : Nat} (enough : filled <= new.length)
    (fits : page.offset + page.len + new.length <= pageSize) :
    Ring pageSize pages
        (overwrite bytes (tail * pageSize + (page.offset + page.len)) new)
        (slots.set tail ⟨page.offset, page.len + filled⟩) head (used + 1) ∧
      ringContent pageSize pages
          (overwrite bytes (tail * pageSize + (page.offset + page.len)) new)
          (slots.set tail ⟨page.offset, page.len + filled⟩) head (used + 1) =
        ringContent pageSize pages bytes slots head (used + 1) ++ new.take filled := by
  have room := ring.used_le
  have below : tail < pages := by
    rw [isTail]
    exact Nat.mod_lt _ (by omega)
  have bytesFit := ring.bytes_fit.resolve_left (by omega)
  have slotsFit := ring.slots_fit.resolve_left (by omega)
  have stretch := page_stretch_le pageSize below
  have inside : tail * pageSize + (page.offset + page.len) + new.length <= bytes.length := by omega
  have updated := getD_set_self (Nat.lt_of_lt_of_le below slotsFit)
    (⟨page.offset, page.len + filled⟩ : Page)
  have tailLive : tail ∈ liveSlots pages (used + 1) head := by
    rw [liveSlots_append pages ring.head_lt, isTail]
    exact List.mem_append.mpr (.inr (List.mem_singleton.mpr rfl))
  have live := ring.pages_live tail tailLive
  rw [found] at live
  have notTail : ∀ index ∈ liveSlots pages used head, index ≠ tail := by
    rintro index member same
    exact next_not_mem ring.head_lt (by omega) (isTail ▸ same ▸ member)
  have earlier : ∀ index ∈ liveSlots pages used head,
      (slots.getD index default).Live pageSize := by
    intro index member
    apply ring.pages_live
    rw [liveSlots_append pages ring.head_lt]
    exact List.mem_append.mpr (.inl member)
  refine ⟨⟨ring.head_lt, room, ?_, ?_, ?_⟩, ?_⟩
  · rw [length_overwrite inside]
    exact .inr bytesFit
  · rw [List.length_set]
    exact .inr slotsFit
  · intro index member
    rw [liveSlots_append pages ring.head_lt, <- isTail] at member
    rcases List.mem_append.mp member with old | atTail
    · rw [getD_set_ne (notTail index old)]
      exact earlier index old
    · rw [List.mem_singleton.mp atTail, updated]
      have positive := live.1
      exact ⟨by show 0 < page.len + filled; omega,
        by show page.offset + (page.len + filled) <= pageSize; omega⟩
  have grown : pageBytes pageSize
      (overwrite bytes (tail * pageSize + (page.offset + page.len)) new)
      (slots.set tail ⟨page.offset, page.len + filled⟩) tail =
      pageBytes pageSize bytes slots tail ++ new.take filled := by
    unfold pageBytes
    rw [updated, found]
    dsimp only
    rw [slice_append, slice_overwrite_outside inside (.inl (by omega))]
    congr 1
    rw [Nat.add_assoc]
    exact slice_overwrite_inside inside enough
  rw [ringContent_append ring.head_lt, ringContent_append ring.head_lt, <- isTail, grown,
    <- List.append_assoc]
  congr 2
  apply ringContent_congr
  intro index member
  rw [pageBytes_set_ne (notTail index member)]
  exact pageBytes_overwrite_ne (notTail index member) (earlier index member) (by omega) (by omega)
    inside

/-! ## Moving the live pages to the start of a storage -/

theorem liveSlots_eq_map (inside : head < pages) :
    liveSlots pages used head = (List.range used).map fun ordinal => (head + ordinal) % pages := by
  induction used with
  | zero => rfl
  | succ used ih =>
    rw [liveSlots_append pages inside, ih, List.range_succ, List.map_append,
      List.map_singleton]

/-- Storage whose first pages are the live pages in ring order describes the
same content from head zero, under any capacity that holds them. -/
theorem Ring.relocate (ring : Ring pageSize pages bytes slots head used) {newPages : Nat}
    {newBytes : List UInt8} {newSlots : List Page} (positive : 0 < newPages)
    (room : used <= newPages) (bytesFit : used = 0 ∨ newPages * pageSize <= newBytes.length)
    (slotsFit : used = 0 ∨ newPages <= newSlots.length)
    (samePage : ∀ ordinal, ordinal < used ->
      newSlots.getD ordinal default = slots.getD ((head + ordinal) % pages) default)
    (sameBytes : ∀ ordinal, ordinal < used ->
      pageBytes pageSize newBytes newSlots ordinal =
        pageBytes pageSize bytes slots ((head + ordinal) % pages)) :
    Ring pageSize newPages newBytes newSlots 0 used ∧
      ringContent pageSize newPages newBytes newSlots 0 used =
        ringContent pageSize pages bytes slots head used := by
  have unwrapped : ∀ ordinal, ordinal < used -> (0 + ordinal) % newPages = ordinal := by
    intro ordinal below
    rw [Nat.zero_add]
    exact Nat.mod_eq_of_lt (by omega)
  refine ⟨⟨positive, room, bytesFit, slotsFit, ?_⟩, ?_⟩
  · intro index member
    rcases (mem_liveSlots positive).mp member with ⟨ordinal, below, rfl⟩
    rw [unwrapped ordinal below, samePage ordinal below]
    exact ring.pages_live _ ((mem_liveSlots ring.head_lt).mpr ⟨ordinal, below, rfl⟩)
  unfold ringContent
  rw [liveSlots_eq_map positive, liveSlots_eq_map ring.head_lt, List.flatMap_map,
    List.flatMap_map]
  apply List.flatMap_congr
  intro ordinal member
  have below := List.mem_range.mp member
  rw [unwrapped ordinal below]
  exact sameBytes ordinal below

theorem wrap_position (pageSize pages number : Nat) {offset : Nat} (positive : 0 < pages)
    (inPage : offset < pageSize) :
    (number * pageSize + offset) % (pages * pageSize) = number % pages * pageSize + offset := by
  have below : number % pages * pageSize + offset < pages * pageSize := by
    have stretch := page_stretch_le pageSize (Nat.mod_lt number positive)
    omega
  conv_lhs => rw [<- Nat.div_add_mod number pages]
  rw [Nat.add_mul, Nat.add_assoc, Nat.mul_right_comm, Nat.mul_add_mod]
  exact Nat.mod_eq_of_lt below

/-- Rotating bytes and metadata by the head brings the live pages in order. -/
theorem Ring.rotate (ring : Ring pageSize pages bytes slots head used) {newPages : Nat}
    (positive : 0 < newPages) (room : used <= newPages)
    (oldBytesFit : pages * pageSize <= bytes.length) (oldSlotsFit : pages <= slots.length)
    (bytesFit : newPages * pageSize <= bytes.length) (slotsFit : newPages <= slots.length) :
    Ring pageSize newPages (rotateFront bytes (pages * pageSize) (head * pageSize))
        (rotateFront slots pages head) 0 used ∧
      ringContent pageSize newPages (rotateFront bytes (pages * pageSize) (head * pageSize))
          (rotateFront slots pages head) 0 used =
        ringContent pageSize pages bytes slots head used := by
  have oldRoom := ring.used_le
  have samePage : ∀ ordinal, ordinal < used ->
      (rotateFront slots pages head).getD ordinal default =
        slots.getD ((head + ordinal) % pages) default := by
    intro ordinal below
    rw [List.getD_eq_getElem?_getD, List.getD_eq_getElem?_getD,
      getElem?_rotateFront oldSlotsFit (by omega), Nat.add_comm ordinal head]
  refine ring.relocate positive room ?_ ?_ samePage ?_
  · rw [length_rotateFront]
    exact .inr bytesFit
  · rw [length_rotateFront]
    exact .inr slotsFit
  intro ordinal below
  have live := ring.pages_live _ ((mem_liveSlots ring.head_lt).mpr ⟨ordinal, below, rfl⟩)
  have bound := live.2
  have stretch := page_stretch_le pageSize (by omega : ordinal < pages)
  unfold pageBytes
  rw [samePage ordinal below]
  apply slice_congr
  intro index inPage
  rw [getElem?_rotateFront oldBytesFit (by omega)]
  have position : ordinal * pageSize + (slots.getD ((head + ordinal) % pages) default).offset +
      index + head * pageSize = (head + ordinal) * pageSize +
      ((slots.getD ((head + ordinal) % pages) default).offset + index) := by
    rw [Nat.add_mul]
    omega
  rw [position, wrap_position pageSize pages _ (by omega) (by omega), Nat.add_assoc]

end Content

/-- The copy loop of `replaceStorage` after `count` turns: the first `count`
pages are the live pages in ring order. -/
theorem copyPages_spec {pipe : Pipe}
    (ring : Ring pipe.state.pageSize pipe.state.capacityPages pipe.bytes pipe.slots
      pipe.state.head pipe.state.used)
    {bytes : List UInt8} {slots : List Page} (bytesFit : pipe.state.capacity <= bytes.length)
    (slotsFit : pipe.state.capacityPages <= slots.length) {count : Nat}
    (enough : count <= pipe.state.used) :
    ((List.range count).foldl pipe.copyPage (bytes, slots)).1.length = bytes.length ∧
      ((List.range count).foldl pipe.copyPage (bytes, slots)).2.length = slots.length ∧
      ∀ ordinal, ordinal < count ->
        ((List.range count).foldl pipe.copyPage (bytes, slots)).2.getD ordinal default =
          pipe.slots.getD (pipe.slotIndex ordinal) default ∧
        pageBytes pipe.state.pageSize
            ((List.range count).foldl pipe.copyPage (bytes, slots)).1
            ((List.range count).foldl pipe.copyPage (bytes, slots)).2 ordinal =
          pageBytes pipe.state.pageSize pipe.bytes pipe.slots (pipe.slotIndex ordinal) := by
  induction count with
  | zero => exact ⟨rfl, rfl, fun ordinal impossible => by omega⟩
  | succ count ih =>
    rcases ih (by omega) with ⟨bytesLength, slotsLength, copied⟩
    rw [List.range_succ, List.foldl_append]
    generalize (List.range count).foldl pipe.copyPage (bytes, slots) = storage at *
    have used_le := ring.used_le
    have liveAt : ∀ ordinal, ordinal < pipe.state.used ->
        (pipe.slots.getD (pipe.slotIndex ordinal) default).Live pipe.state.pageSize ∧
        pipe.slotIndex ordinal < pipe.state.capacityPages := by
      intro ordinal below
      refine ⟨ring.pages_live _ ((mem_liveSlots ring.head_lt).mpr ⟨ordinal, below, rfl⟩), ?_⟩
      exact Nat.mod_lt _ (by omega)
    have live := liveAt count (by omega)
    have oldFit := ring.bytes_fit.resolve_left (by omega)
    have pageLength := length_pageBytes live.2 oldFit live.1
    have stretch := page_stretch_le pipe.state.pageSize
      (by omega : count < pipe.state.capacityPages)
    have bound := live.1.2
    have capacityBound : pipe.state.capacityPages * pipe.state.pageSize <= bytes.length := bytesFit
    have inside : count * pipe.state.pageSize +
        (pipe.slots.getD (pipe.slotIndex count) default).offset +
        (pageBytes pipe.state.pageSize pipe.bytes pipe.slots (pipe.slotIndex count)).length <=
        storage.1.length := by omega
    have turn : List.foldl pipe.copyPage storage [count] =
        (overwrite storage.1 (count * pipe.state.pageSize +
          (pipe.slots.getD (pipe.slotIndex count) default).offset)
          (pageBytes pipe.state.pageSize pipe.bytes pipe.slots (pipe.slotIndex count)),
        storage.2.set count (pipe.slots.getD (pipe.slotIndex count) default)) := rfl
    rw [turn]
    dsimp only
    refine ⟨(length_overwrite inside).trans bytesLength,
      (List.length_set).trans slotsLength, ?_⟩
    intro ordinal below
    by_cases last : ordinal = count
    · subst last
      have updated := getD_set_self (by omega : ordinal < storage.2.length)
        (pipe.slots.getD (pipe.slotIndex ordinal) default)
      refine ⟨updated, ?_⟩
      unfold pageBytes at *
      rw [updated, slice_overwrite_inside inside (by omega), List.take_of_length_le (by omega)]
    have earlier := copied ordinal (by omega)
    refine ⟨(getD_set_ne last _).trans earlier.1, ?_⟩
    rw [pageBytes_set_ne last, <- earlier.2]
    refine pageBytes_overwrite_ne last ?_ (by omega) (by omega) inside
    rw [earlier.1]
    exact (liveAt ordinal (by omega)).1

end PipeCore
end Carrick

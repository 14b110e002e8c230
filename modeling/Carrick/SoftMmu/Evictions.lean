import Mathlib.Data.List.Count
import Carrick.SoftMmu.CodePages

namespace Carrick
namespace SoftMmu

open Foundation

/-!
# What a probe of the translation buffer finds

A slot is valid only while it holds its last fill and nothing has been evicted from
the leaf of that fill since.  The counter of large slots is exact, so an eviction that
sees it at zero can leave out the walk over the slots of large leaves.
-/

/-- The calls that change one buffer. -/
inductive TlbEvent where
  | fill (access : Access) (va : GuestVa) (mode : CpuAccessMode) (hostPage : Fin wordLimit)
      (leafSize : Nat)
  | evictVa (va : GuestVa)
  | evictRange (start : GuestVa) (len : Nat)
  | evictWriteVa (va : GuestVa)
  | flushAll
  | flushWritePlane

namespace TlbEvent

def run (tlb : SoftTlb) : TlbEvent -> SoftTlb
  | fill access va mode hostPage leafSize =>
    tlb.fillPlaneWithLeafSize access va mode hostPage leafSize
  | evictVa va => tlb.evictVa va
  | evictRange start len => tlb.evictRange start len
  | evictWriteVa va => tlb.evictWriteVa va
  | flushAll => tlb.flushAll
  | flushWritePlane => tlb.flushWritePlane

/-- The addresses that an event evicts from a plane: whole pages, from the first page
of a range to its last one. -/
def Covers (access : Access) (address : Nat) : TlbEvent -> Prop
  | fill _ _ _ _ _ => False
  | evictVa va => pageBase address = pageBase va.raw
  | evictRange start len =>
    pageBase start.raw <= pageBase address ∧
      pageBase address <= pageBase (saturatingAdd start.raw (len - 1))
  | evictWriteVa va => access = .write ∧ pageBase address = pageBase va.raw
  | flushAll => True
  | flushWritePlane => access = .write

end TlbEvent

/-- The buffer before the event at position `n`. -/
def tlbAt (events : List TlbEvent) (n : Nat) : SoftTlb :=
  stage TlbEvent.run .new events n

/-- The slots of a plane that were filled from a leaf of more than one page. -/
def SoftTlb.largeSlots (tlb : SoftTlb) (access : Access) : Nat :=
  (List.range slotCount).countP fun slot => 12 < tlb.leafShifts access slot

/-! ## The slots of one buffer -/

structure Tidy (tlb : SoftTlb) : Prop where
  counted : tlb.largePageEntries =
    tlb.largeSlots .read + tlb.largeSlots .write + tlb.largeSlots .execute
  valid : ∀ access slot, 12 < tlb.leafShifts access slot ->
    (tlb.entries access slot).isValid = true
  shifted : ∀ access slot, (tlb.entries access slot).isValid = true ->
    12 <= tlb.leafShifts access slot
  placed : ∀ access slot, (tlb.entries access slot).isValid = true ->
    slot = (tlb.entries access slot).vaPage / pageSize % slotCount

/-- The slots that are still valid are as they were. -/
def Kept (tlb later : SoftTlb) : Prop :=
  ∀ access slot, (later.entries access slot).isValid = true ->
    later.entries access slot = tlb.entries access slot ∧
      later.leafShifts access slot = tlb.leafShifts access slot

/-- No valid slot of the plane was filled from the leaf of an address. -/
def Rid (tlb : SoftTlb) (access : Access) (address : Nat) : Prop :=
  ∀ slot, (tlb.entries access slot).isValid = true ->
    (tlb.entries access slot).vaPage / 2 ^ tlb.leafShifts access slot ≠
      address / 2 ^ tlb.leafShifts access slot

theorem Kept.refl (tlb : SoftTlb) : Kept tlb tlb :=
  fun _ _ _ => ⟨rfl, rfl⟩

section Kept

variable {tlb middle later : SoftTlb}

theorem Kept.trans (first : Kept tlb middle) (second : Kept middle later) : Kept tlb later := by
  intro access slot valid
  obtain ⟨entry, shift⟩ := second access slot valid
  rw [entry] at valid
  obtain ⟨firstEntry, firstShift⟩ := first access slot valid
  exact ⟨entry.trans firstEntry, shift.trans firstShift⟩

theorem Rid.kept {access : Access} {address : Nat} (rid : Rid tlb access address)
    (kept : Kept tlb later) : Rid later access address := by
  intro slot valid
  obtain ⟨entry, shift⟩ := kept access slot valid
  rw [entry] at valid ⊢
  rw [shift]
  exact rid slot valid

end Kept

theorem not_valid_invalid : SoftTlbEntry.invalid.isValid = false := by
  decide

theorem countP_update (chosen : Nat -> Bool) {slot count : Nat} (inside : slot < count)
    (value : Bool) :
    (List.range count).countP (fun index => if index = slot then value else chosen index) +
        (chosen slot).toNat = (List.range count).countP chosen + value.toNat := by
  induction count with
  | zero => cases inside
  | succ count ih =>
    rw [List.range_succ, List.countP_append, List.countP_append, List.countP_singleton,
      List.countP_singleton]
    rcases Nat.lt_succ_iff_lt_or_eq.mp inside with below | last
    · have before := ih below
      rw [if_neg (Nat.ne_of_gt below)]
      omega
    subst last
    have same : (List.range slot).countP (fun index => if index = slot then value else
        chosen index) = (List.range slot).countP chosen := by
      apply List.countP_congr
      intro index member
      rw [if_neg (Nat.ne_of_lt (List.mem_range.mp member))]
    rw [same, if_pos rfl]
    cases value <;> cases chosen slot <;> simp

section Tidy

variable {tlb : SoftTlb}

theorem SoftTlb.largeSlots_le (access : Access) : tlb.largeSlots access <= slotCount :=
  List.countP_le_length.trans_eq List.length_range

theorem SoftTlb.largeSlots_setSlot (access : Access) {slot : Nat} (inside : slot < slotCount)
    (entry : SoftTlbEntry) (shift large : Nat) :
    (tlb.setSlot access slot entry shift large).largeSlots access +
        (decide (12 < tlb.leafShifts access slot)).toNat =
      tlb.largeSlots access + (decide (12 < shift)).toNat := by
  rw [SoftTlb.largeSlots, SoftTlb.largeSlots,
    <- countP_update (fun index => decide (12 < tlb.leafShifts access index)) inside]
  congr 2
  funext index
  by_cases here : index = slot <;> simp [SoftTlb.setSlot, here]

theorem SoftTlb.largeSlots_other (access other : Access) (apart : other ≠ access) (slot : Nat)
    (entry : SoftTlbEntry) (shift large : Nat) :
    (tlb.setSlot access slot entry shift large).largeSlots other = tlb.largeSlots other := by
  simp [SoftTlb.largeSlots, SoftTlb.setSlot, apart]

theorem Tidy.setSlot (tidy : Tidy tlb) {access : Access} {slot shift large : Nat}
    {entry : SoftTlbEntry} (inside : slot < slotCount)
    (counted : large + (decide (12 < tlb.leafShifts access slot)).toNat =
      tlb.largePageEntries + (decide (12 < shift)).toNat)
    (big : 12 < shift -> entry.isValid = true) (shifted : entry.isValid = true -> 12 <= shift)
    (placed : entry.isValid = true -> slot = entry.vaPage / pageSize % slotCount) :
    Tidy (tlb.setSlot access slot entry shift large) where
  counted := by
    have own := tlb.largeSlots_setSlot access inside entry shift large
    have others := fun other apart =>
      tlb.largeSlots_other access other apart slot entry shift large
    have before := tidy.counted
    change large = _
    cases access <;> simp_all <;> omega
  valid := by
    intro plane index
    unfold SoftTlb.setSlot
    dsimp only
    split_ifs
    · exact big
    · exact tidy.valid plane index
  shifted := by
    intro plane index
    unfold SoftTlb.setSlot
    dsimp only
    split_ifs
    · exact shifted
    · exact tidy.shifted plane index
  placed := by
    intro plane index
    unfold SoftTlb.setSlot
    dsimp only
    split_ifs with here
    · rw [here.2]
      exact placed
    · exact tidy.placed plane index

theorem Tidy.largeWithout (tidy : Tidy tlb) (access : Access) {slot : Nat}
    (inside : slot < slotCount) : tlb.largeWithout access slot +
      (decide (12 < tlb.leafShifts access slot)).toNat = tlb.largePageEntries := by
  have emptied := tlb.largeSlots_setSlot access inside .invalid 0 0
  have before := tidy.counted
  unfold SoftTlb.largeWithout
  split_ifs with large
  · rw [decide_eq_true large] at emptied ⊢
    have some : 0 < tlb.largePageEntries := by
      cases access <;> simp at emptied <;> omega
    exact Nat.sub_add_cancel some
  · simp [large]

theorem Tidy.clear (tidy : Tidy tlb) {access : Access} {slot : Nat} (inside : slot < slotCount) :
    Tidy (tlb.clearSlotInPlane access slot) := by
  unfold SoftTlb.clearSlotInPlane
  apply tidy.setSlot inside
  · exact tidy.largeWithout access inside
  · intro large
    cases large
  · intro valid
    cases not_valid_invalid.symm.trans valid
  · intro valid
    cases not_valid_invalid.symm.trans valid

theorem kept_clear (access : Access) (slot : Nat) : Kept tlb (tlb.clearSlotInPlane access slot) := by
  intro plane index
  unfold SoftTlb.clearSlotInPlane SoftTlb.setSlot
  dsimp only
  split_ifs
  · intro valid
    cases not_valid_invalid.symm.trans valid
  · exact fun _ => ⟨rfl, rfl⟩

theorem cleared (access : Access) (slot : Nat) :
    ((tlb.clearSlotInPlane access slot).entries access slot).isValid = false := by
  simp [SoftTlb.clearSlotInPlane, SoftTlb.setSlot, not_valid_invalid]

/-- What one slot of the walk does: the branch for a large slot without an entry is
never taken. -/
theorem Tidy.evictSlot (tidy : Tidy tlb) (va : GuestVa) (access : Access) {slot : Nat}
    (inside : slot < slotCount) :
    Tidy (SoftTlb.evictSlot va access tlb slot) ∧ Kept tlb (SoftTlb.evictSlot va access tlb slot) ∧
      (12 < tlb.leafShifts access slot ->
        (tlb.entries access slot).vaPage / 2 ^ tlb.leafShifts access slot =
          va.raw / 2 ^ tlb.leafShifts access slot ->
        ((SoftTlb.evictSlot va access tlb slot).entries access slot).isValid = false) := by
  unfold SoftTlb.evictSlot
  dsimp only
  split_ifs with large valid same
  · exact ⟨tidy.clear inside, kept_clear access slot, fun _ _ => cleared access slot⟩
  · exact ⟨tidy, Kept.refl tlb, fun _ inLeaf => absurd inLeaf same⟩
  · exact absurd (tidy.valid access slot large) valid
  · exact ⟨tidy, Kept.refl tlb, fun wrong => absurd wrong large⟩

/-- The walk leaves no slice of a large leaf that the address is in. -/
theorem Tidy.evictSlots (tidy : Tidy tlb) (va : GuestVa) (access : Access) {slots : List Nat}
    (inside : ∀ slot ∈ slots, slot < slotCount) :
    Tidy (slots.foldl (SoftTlb.evictSlot va access) tlb) ∧
      Kept tlb (slots.foldl (SoftTlb.evictSlot va access) tlb) ∧
      ∀ slot ∈ slots, 12 < tlb.leafShifts access slot ->
        (tlb.entries access slot).vaPage / 2 ^ tlb.leafShifts access slot =
          va.raw / 2 ^ tlb.leafShifts access slot ->
        ((slots.foldl (SoftTlb.evictSlot va access) tlb).entries access slot).isValid = false := by
  induction slots generalizing tlb with
  | nil => exact ⟨tidy, Kept.refl tlb, fun _ listed => absurd listed (List.not_mem_nil)⟩
  | cons first rest ih =>
    obtain ⟨firstTidy, firstKept, firstGone⟩ :=
      tidy.evictSlot va access (inside first (List.mem_cons_self))
    obtain ⟨lastTidy, lastKept, lastGone⟩ :=
      ih firstTidy (fun slot listed => inside slot (List.mem_cons_of_mem _ listed))
    refine ⟨lastTidy, firstKept.trans lastKept, ?_⟩
    intro slot listed large inLeaf
    by_contra valid
    have still := (lastKept access slot (Bool.eq_true_of_not_eq_false valid)).1
    have validLater := Bool.eq_true_of_not_eq_false valid
    rw [List.foldl_cons, still] at validLater
    obtain ⟨entry, shift⟩ := firstKept access slot validLater
    rcases List.mem_cons.mp listed with same | later
    · rw [same] at validLater large inLeaf
      cases (firstGone large inLeaf).symm.trans validLater
    apply valid
    apply lastGone slot later
    · rw [shift]
      exact large
    · rw [shift, entry]
      exact inLeaf

theorem Tidy.evictPage (tidy : Tidy tlb) (access : Access) (va : GuestVa) :
    Tidy (tlb.evictPage access va) ∧ Kept tlb (tlb.evictPage access va) ∧
      (((tlb.evictPage access va).entries access (indexFor va)).isValid = true ->
        ((tlb.evictPage access va).entries access (indexFor va)).vaPage ≠ pageBase va.raw) := by
  unfold SoftTlb.evictPage
  dsimp only
  split_ifs with found
  · refine ⟨tidy.clear (Nat.mod_lt _ (by decide)), kept_clear access _, ?_⟩
    intro valid
    cases (cleared access _).symm.trans valid
  refine ⟨tidy, Kept.refl tlb, ?_⟩
  intro valid same
  apply found
  rw [valid, same]
  simp

theorem vaPage_mul (entry : SoftTlbEntry) : ∃ page, entry.vaPage = page * pageSize :=
  ⟨entry.tag / pageSize, by
    have whole := Nat.div_add_mod entry.tag pageSize
    rw [SoftTlbEntry.vaPage, pageBase, Nat.mul_comm]
    omega⟩

/-- One plane is rid of the leaf of the address, whatever its size. -/
theorem Tidy.evictInPlane (tidy : Tidy tlb) (access : Access) (va : GuestVa) :
    Tidy (tlb.evictInPlane access va) ∧ Kept tlb (tlb.evictInPlane access va) ∧
      Rid (tlb.evictInPlane access va) access va.raw := by
  obtain ⟨pageTidy, pageKept, pageGone⟩ := tidy.evictPage access va
  -- a leaf of one page is in the slot of the address, which has been looked at
  have small : ∀ slot, ((tlb.evictPage access va).entries access slot).isValid = true ->
      (tlb.evictPage access va).leafShifts access slot = 12 ->
      ((tlb.evictPage access va).entries access slot).vaPage / 2 ^ 12 ≠ va.raw / 2 ^ 12 := by
    intro slot valid shift same
    have here := pageTidy.placed access slot valid
    have index : slot = indexFor va := by
      rw [here, indexFor]
      exact congrArg (· % slotCount) same
    rw [index] at valid same
    apply pageGone valid
    obtain ⟨page, whole⟩ := vaPage_mul ((tlb.evictPage access va).entries access (indexFor va))
    have size : pageSize = 4096 := rfl
    rw [whole] at same ⊢
    rw [pageBase]
    rw [size] at same ⊢
    omega
  unfold SoftTlb.evictInPlane
  split_ifs with large
  · obtain ⟨lastTidy, lastKept, lastGone⟩ := pageTidy.evictSlots va access
      (fun slot listed => List.mem_range.mp listed)
    refine ⟨lastTidy, pageKept.trans lastKept, ?_⟩
    intro slot valid
    obtain ⟨entry, shift⟩ := lastKept access slot valid
    have inside : slot < slotCount := by
      rw [lastTidy.placed access slot valid]
      exact Nat.mod_lt _ (by decide)
    have before := valid
    rw [entry] at before
    rw [entry, shift]
    rcases Nat.eq_or_lt_of_le (pageTidy.shifted access slot before) with one | more
    · rw [<- one]
      exact small slot before one.symm
    · intro inLeaf
      cases (lastGone slot (List.mem_range.mpr inside) more inLeaf).symm.trans valid
  · refine ⟨pageTidy, pageKept, ?_⟩
    intro slot valid
    rcases Nat.eq_or_lt_of_le (pageTidy.shifted access slot valid) with one | more
    · rw [<- one]
      exact small slot valid one.symm
    have inside : slot < slotCount := by
      rw [pageTidy.placed access slot valid]
      exact Nat.mod_lt _ (by decide)
    have counted := pageTidy.counted
    have some : 0 < (tlb.evictPage access va).largeSlots access := by
      apply List.countP_pos_iff.mpr
      exact ⟨slot, List.mem_range.mpr inside, decide_eq_true more⟩
    cases access <;> omega

theorem Tidy.evictVa (tidy : Tidy tlb) (va : GuestVa) :
    Tidy (tlb.evictVa va) ∧ Kept tlb (tlb.evictVa va) ∧
      ∀ access, Rid (tlb.evictVa va) access va.raw := by
  obtain ⟨readTidy, readKept, readRid⟩ := tidy.evictInPlane .read va
  obtain ⟨writeTidy, writeKept, writeRid⟩ := readTidy.evictInPlane .write va
  obtain ⟨lastTidy, lastKept, lastRid⟩ := writeTidy.evictInPlane .execute va
  refine ⟨lastTidy, (readKept.trans writeKept).trans lastKept, ?_⟩
  intro access
  cases access with
  | read => exact readRid.kept (writeKept.trans lastKept)
  | write => exact writeRid.kept lastKept
  | execute => exact lastRid

theorem Tidy.evictPages (tidy : Tidy tlb) (first : Nat) (pages : List Nat)
    (bounded : ∀ page ∈ pages, first + page * pageSize < wordLimit) :
    let later := pages.foldl (fun tlb page =>
      if bounded : first + page * pageSize < wordLimit then
        tlb.evictVa ⟨first + page * pageSize, bounded⟩
      else tlb) tlb
    Tidy later ∧ Kept tlb later ∧
      ∀ access page, page ∈ pages -> Rid later access (first + page * pageSize) := by
  induction pages generalizing tlb with
  | nil => exact ⟨tidy, Kept.refl tlb, fun _ _ listed => absurd listed (List.not_mem_nil)⟩
  | cons page rest ih =>
    have inWord := bounded page (List.mem_cons_self)
    obtain ⟨firstTidy, firstKept, firstRid⟩ := tidy.evictVa ⟨first + page * pageSize, inWord⟩
    obtain ⟨lastTidy, lastKept, lastRid⟩ :=
      ih firstTidy (fun other listed => bounded other (List.mem_cons_of_mem _ listed))
    rw [List.foldl_cons, dif_pos inWord]
    refine ⟨lastTidy, firstKept.trans lastKept, ?_⟩
    intro access other listed
    rcases List.mem_cons.mp listed with same | later
    · rw [same]
      exact (firstRid access).kept lastKept
    · exact lastRid access other later

end Tidy

/-! ## What an event leaves -/

theorem leaf_of_page {address other shift : Nat} (same : pageBase address = pageBase other)
    (whole : 12 <= shift) : address / 2 ^ shift = other / 2 ^ shift := by
  have size : pageSize = 2 ^ 12 := rfl
  have page : address / 2 ^ 12 = other / 2 ^ 12 := by
    unfold pageBase at same
    rw [size] at same
    omega
  obtain ⟨more, rfl⟩ := Nat.exists_eq_add_of_le whole
  rw [Nat.pow_add, <- Nat.div_div_eq_div_mul, <- Nat.div_div_eq_div_mul, page]

theorem pageBase_pageBase (address : Nat) : pageBase (pageBase address) = pageBase address := by
  have size : pageSize = 4096 := rfl
  unfold pageBase
  rw [size]
  omega

/-- The slot has what it had, and the event covers no part of its leaf. -/
def Spared (tlb later : SoftTlb) (event : TlbEvent) (access : Access) (slot : Nat) : Prop :=
  later.entries access slot = tlb.entries access slot ∧
    later.leafShifts access slot = tlb.leafShifts access slot ∧
    ∀ address, address / 2 ^ later.leafShifts access slot =
      (later.entries access slot).vaPage / 2 ^ later.leafShifts access slot ->
        ¬ event.Covers access address

/-- The slot has just been filled. -/
def Fresh (later : SoftTlb) (event : TlbEvent) (access : Access) (slot : Nat) : Prop :=
  ∃ va mode hostPage leafSize, event = .fill access va mode hostPage leafSize ∧
    later.entries access slot = ⟨tagFor va mode, addendFor va hostPage⟩ ∧
    later.leafShifts access slot = shiftForLeafSize leafSize

section Events

variable {tlb later : SoftTlb}

theorem Kept.spared (kept : Kept tlb later) (tidy : Tidy later) {event : TlbEvent}
    {access : Access} {slot : Nat} (valid : (later.entries access slot).isValid = true)
    (rid : ∀ address, event.Covers access address ->
      ∃ evicted, pageBase address = pageBase evicted ∧ Rid later access evicted) :
    Spared tlb later event access slot := by
  obtain ⟨entry, shift⟩ := kept access slot valid
  refine ⟨entry, shift, ?_⟩
  intro address inLeaf covered
  obtain ⟨evicted, page, rid⟩ := rid address covered
  rw [leaf_of_page page (tidy.shifted access slot valid)] at inLeaf
  exact rid slot valid inLeaf.symm

theorem valid_filled (va : GuestVa) (mode : CpuAccessMode) (addend : Nat) :
    (⟨tagFor va mode, addend⟩ : SoftTlbEntry).isValid = true := by
  have bits := modeTagBits_lt mode
  have size : pageSize = 4096 := rfl
  have limit : wordLimit = 18446744073709551616 := rfl
  apply decide_eq_true
  dsimp only
  rw [tagFor, pageBase, size, limit]
  omega

/-- An entry adds the offset in its page to the page it was filled with. -/
theorem translate_filled {va origin : GuestVa} {mode : CpuAccessMode} {hostPage : Nat}
    (page : pageBase origin.raw = pageBase va.raw) (bounded : hostPage < wordLimit) :
    (⟨tagFor origin mode, addendFor origin hostPage⟩ : SoftTlbEntry).translate va.raw =
      pageBase hostPage + va.raw % pageSize := by
  have inWord := va.bounded
  have size : pageSize = 4096 := rfl
  have limit : wordLimit = 18446744073709551616 := rfl
  unfold SoftTlbEntry.translate addendFor wrappingSub
  rw [page]
  unfold pageBase
  rw [limit] at bounded inWord ⊢
  rw [size]
  dsimp only
  omega

theorem le_shiftForLeafSize (bytes : Nat) : 12 <= shiftForLeafSize bytes := by
  unfold shiftForLeafSize
  split_ifs <;> decide

theorem Tidy.fill (tidy : Tidy tlb) (access : Access) (va : GuestVa) (mode : CpuAccessMode)
    (hostPage leafSize : Nat) :
    Tidy (tlb.fillPlaneWithLeafSize access va mode hostPage leafSize) := by
  have inside : indexFor va < slotCount := Nat.mod_lt _ (by decide)
  have size : slotCount = 1024 := rfl
  have room : tlb.largePageEntries <= 3072 := by
    rw [tidy.counted]
    have read := tlb.largeSlots_le .read
    have write := tlb.largeSlots_le .write
    have execute := tlb.largeSlots_le .execute
    omega
  have kept : tlb.largeWithout access (indexFor va) + 1 <= 2 ^ 32 - 1 := by
    apply le_trans (Nat.succ_le_succ (le_trans _ room)) (by decide)
    unfold SoftTlb.largeWithout
    split_ifs
    · exact Nat.sub_le _ _
    · exact le_refl _
  unfold SoftTlb.fillPlaneWithLeafSize
  dsimp only
  rw [Nat.min_eq_left kept]
  apply tidy.setSlot inside
  · have without := tidy.largeWithout access inside
    by_cases large : 12 < shiftForLeafSize leafSize <;> simp [large] <;> omega
  · exact fun _ => valid_filled va mode _
  · exact fun _ => le_shiftForLeafSize leafSize
  intro _
  rw [SoftTlbEntry.vaPage, pageBase_tagFor, indexFor, pageBase]
  have paged : pageSize = 4096 := rfl
  rw [paged]
  congr 1
  omega

theorem new_tidy : Tidy .new where
  counted := by
    simp [SoftTlb.new, SoftTlb.largeSlots]
  valid := by
    intro access slot large
    cases large
  shifted := by
    intro access slot valid
    cases not_valid_invalid.symm.trans valid
  placed := by
    intro access slot valid
    cases not_valid_invalid.symm.trans valid

theorem Tidy.flushWritePlane (tidy : Tidy tlb) : Tidy tlb.flushWritePlane where
  counted := by
    have before := tidy.counted
    have gone : tlb.flushWritePlane.largeSlots .write = 0 := by
      simp [SoftTlb.largeSlots, SoftTlb.flushWritePlane]
    rw [gone]
    change tlb.largePageEntries - tlb.largeSlots .write =
      tlb.largeSlots .read + 0 + tlb.largeSlots .execute
    omega
  valid := by
    intro access slot
    unfold SoftTlb.flushWritePlane
    dsimp only
    split_ifs
    · intro large
      cases large
    · exact tidy.valid access slot
  shifted := by
    intro access slot
    unfold SoftTlb.flushWritePlane
    dsimp only
    split_ifs
    · intro valid
      cases not_valid_invalid.symm.trans valid
    · exact tidy.shifted access slot
  placed := by
    intro access slot
    unfold SoftTlb.flushWritePlane
    dsimp only
    split_ifs
    · intro valid
      cases not_valid_invalid.symm.trans valid
    · exact tidy.placed access slot

theorem kept_flushWritePlane : Kept tlb tlb.flushWritePlane := by
  intro access slot
  unfold SoftTlb.flushWritePlane
  dsimp only
  split_ifs
  · intro valid
    cases not_valid_invalid.symm.trans valid
  · exact fun _ => ⟨rfl, rfl⟩

theorem Tidy.evictRange (tidy : Tidy tlb) (start : GuestVa) (len : Nat) :
    Tidy (tlb.evictRange start len) ∧ Kept tlb (tlb.evictRange start len) ∧
      ∀ access address, (TlbEvent.evictRange start len).Covers access address ->
        ∃ evicted, pageBase address = pageBase evicted ∧
          Rid (tlb.evictRange start len) access evicted := by
  have size : pageSize = 4096 := rfl
  have inWord := start.bounded
  have lastInWord : saturatingAdd start.raw (len - 1) < wordLimit := by
    unfold saturatingAdd
    exact lt_of_le_of_lt (Nat.min_le_right _ _) (Nat.sub_lt wordLimit_pos Nat.one_pos)
  unfold SoftTlb.evictRange
  simp only [TlbEvent.Covers]
  split_ifs with empty many
  · obtain ⟨lastTidy, lastKept, rid⟩ := tidy.evictVa start
    refine ⟨lastTidy, lastKept, fun access address covered => ⟨start.raw, ?_, rid access⟩⟩
    have above := covered.2
    rw [empty, saturatingAdd, Nat.add_zero, Nat.min_eq_left (Nat.le_sub_one_of_lt inWord)] at above
    exact Nat.le_antisymm above covered.1
  · refine ⟨new_tidy, fun _ _ valid => ?_, fun access address _ => ⟨address, rfl, fun _ valid => ?_⟩⟩
    · cases not_valid_invalid.symm.trans valid
    · cases not_valid_invalid.symm.trans valid
  have ordered : pageBase start.raw <= saturatingAdd start.raw (len - 1) := by
    unfold saturatingAdd pageBase
    omega
  generalize saturatingAdd start.raw (len - 1) = last at lastInWord many ordered ⊢
  obtain ⟨lastTidy, lastKept, rid⟩ := tidy.evictPages (pageBase start.raw)
    (List.range ((pageBase last - pageBase start.raw) / pageSize + 1)) (by
      intro page listed
      have below := List.mem_range.mp listed
      unfold pageBase at below ordered ⊢
      rw [size] at below ordered ⊢
      omega)
  refine ⟨lastTidy, lastKept, fun access address covered => ?_⟩
  refine ⟨_, ?_, rid access ((pageBase address - pageBase start.raw) / pageSize) ?_⟩
  · unfold pageBase at covered ⊢
    rw [size] at covered ⊢
    omega
  · rw [List.mem_range]
    exact Nat.lt_succ_of_le (Nat.div_le_div_right (Nat.sub_le_sub_right covered.2 _))

/-- After an event every valid slot has just been filled or has been spared. -/
theorem Tidy.run (tidy : Tidy tlb) (event : TlbEvent) :
    Tidy (event.run tlb) ∧ ∀ access slot,
      ((event.run tlb).entries access slot).isValid = true ->
        Fresh (event.run tlb) event access slot ∨
          Spared tlb (event.run tlb) event access slot := by
  cases event with
  | fill plane va mode hostPage leafSize =>
    refine ⟨tidy.fill plane va mode hostPage leafSize, ?_⟩
    intro access slot _
    by_cases here : access = plane ∧ slot = indexFor va
    · rw [here.1, here.2]
      refine .inl ⟨va, mode, hostPage, leafSize, rfl, ?_, ?_⟩
      · exact if_pos ⟨rfl, rfl⟩
      · exact if_pos ⟨rfl, rfl⟩
    · exact .inr ⟨if_neg here, if_neg here, fun _ _ covered => covered⟩
  | evictVa va =>
    obtain ⟨lastTidy, kept, rid⟩ := tidy.evictVa va
    exact ⟨lastTidy, fun access slot valid => .inr (kept.spared lastTidy valid
      (fun _ covered => ⟨va.raw, covered, rid access⟩))⟩
  | evictRange start len =>
    obtain ⟨lastTidy, kept, rid⟩ := tidy.evictRange start len
    exact ⟨lastTidy, fun access slot valid => .inr (kept.spared lastTidy valid (rid access))⟩
  | evictWriteVa va =>
    obtain ⟨lastTidy, kept, rid⟩ := tidy.evictInPlane .write va
    refine ⟨lastTidy, fun access slot valid => .inr (kept.spared lastTidy valid ?_)⟩
    rintro address ⟨rfl, page⟩
    exact ⟨va.raw, page, rid⟩
  | flushAll =>
    refine ⟨new_tidy, fun access slot valid => ?_⟩
    cases not_valid_invalid.symm.trans valid
  | flushWritePlane =>
    refine ⟨tidy.flushWritePlane, fun access slot valid => .inr
      (kept_flushWritePlane.spared tidy.flushWritePlane valid ?_)⟩
    rintro address rfl
    cases (show (tlb.flushWritePlane.entries .write slot).isValid = false from rfl).symm.trans valid

end Events

/-! ## Runs -/

/-- The entry comes from a fill, and no later event has covered any part of the leaf
of that fill. -/
def ComesFromFill (events : List TlbEvent) (n : Nat) (access : Access) (entry : SoftTlbEntry)
    (shift : Nat) : Prop :=
  ∃ k va mode hostPage leafSize, k < n ∧
    events[k]? = some (.fill access va mode hostPage leafSize) ∧
    entry = ⟨tagFor va mode, addendFor va hostPage⟩ ∧ shift = shiftForLeafSize leafSize ∧
    ∀ j event, k < j -> j < n -> events[j]? = some event ->
      ∀ address, address / 2 ^ shift = va.raw / 2 ^ shift -> ¬ event.Covers access address

theorem tlbAt_filled (events : List TlbEvent) (n : Nat) :
    Tidy (tlbAt events n) ∧ ∀ access slot,
      ((tlbAt events n).entries access slot).isValid = true ->
        ComesFromFill events n access ((tlbAt events n).entries access slot)
          ((tlbAt events n).leafShifts access slot) := by
  induction n with
  | zero =>
    refine ⟨new_tidy, fun access slot valid => ?_⟩
    cases not_valid_invalid.symm.trans valid
  | succ n ih =>
    obtain ⟨tidy, filled⟩ := ih
    cases present : events[n]? with
    | none =>
      have same : tlbAt events (n + 1) = tlbAt events n := stage_past present
      rw [same]
      refine ⟨tidy, fun access slot valid => ?_⟩
      obtain ⟨k, va, mode, hostPage, leafSize, early, fill, entry, shift, spared⟩ :=
        filled access slot valid
      refine ⟨k, va, mode, hostPage, leafSize, Nat.lt_succ_of_lt early, fill, entry, shift, ?_⟩
      intro j event after before there
      rcases Nat.lt_succ_iff_lt_or_eq.mp before with below | last
      · exact spared j event after below there
      · rw [last, present] at there
        cases there
    | some event =>
      have next : tlbAt events (n + 1) = event.run (tlbAt events n) := stage_next present
      rw [next]
      obtain ⟨lastTidy, comes⟩ := tidy.run event
      refine ⟨lastTidy, fun access slot valid => ?_⟩
      rcases comes access slot valid with ⟨va, mode, hostPage, leafSize, rfl, entry, shift⟩ |
        ⟨entry, shift, uncovered⟩
      · refine ⟨n, va, mode, hostPage, leafSize, Nat.lt_succ_self n, present, entry, shift, ?_⟩
        intro j _ after before
        omega
      rw [entry] at valid
      obtain ⟨k, va, mode, hostPage, leafSize, early, fill, same, size, spared⟩ :=
        filled access slot valid
      rw [entry, shift] at uncovered ⊢
      refine ⟨k, va, mode, hostPage, leafSize, Nat.lt_succ_of_lt early, fill, same, size, ?_⟩
      intro j later after before there address inLeaf
      rcases Nat.lt_succ_iff_lt_or_eq.mp before with below | last
      · exact spared j later after below there address inLeaf
      rw [last, present] at there
      cases there
      apply uncovered address
      have page : ((tlbAt events n).entries access slot).vaPage = pageBase va.raw := by
        rw [same, SoftTlbEntry.vaPage, pageBase_tagFor]
      rw [inLeaf, page]
      apply leaf_of_page (pageBase_pageBase va.raw).symm
      exact tidy.shifted access slot valid

/-- A probe finds what one fill put there for the page, the plane and the effective
mode, as long as nothing has covered any part of the leaf of that fill since; and the
counter of large slots is exact. -/
theorem probes_find_uncovered_fills (events : List TlbEvent) (n : Nat) :
    (∀ va len access mode address,
      (tlbAt events n).probe va len access mode = some address ->
        crossesPage va len = false ∧ ∃ k filled effective hostPage leafSize, k < n ∧
          events[k]? = some (.fill access filled effective hostPage leafSize) ∧
          pageBase filled.raw = pageBase va.raw ∧ modeTagBits effective = modeTagBits mode ∧
          address = pageBase hostPage + va.raw % pageSize ∧
          ∀ j event, k < j -> j < n -> events[j]? = some event ->
            ∀ covered, covered / 2 ^ shiftForLeafSize leafSize =
              va.raw / 2 ^ shiftForLeafSize leafSize -> ¬ event.Covers access covered) ∧
    ((tlbAt events n).largePageEntries = (tlbAt events n).largeSlots .read +
      (tlbAt events n).largeSlots .write + (tlbAt events n).largeSlots .execute ∧
    ∀ access slot, 12 < (tlbAt events n).leafShifts access slot ->
      ((tlbAt events n).entries access slot).isValid = true) ∧
    ∀ access slot, ((tlbAt events n).entries access slot).isValid = true ->
      ComesFromFill events n access ((tlbAt events n).entries access slot)
        ((tlbAt events n).leafShifts access slot) := by
  obtain ⟨tidy, filled⟩ := tlbAt_filled events n
  refine ⟨?_, ⟨tidy.counted, tidy.valid⟩, filled⟩
  intro va len access mode address found
  unfold SoftTlb.probe at found
  split_ifs at found with crosses hit
  have valid := valid_filled va mode ((tlbAt events n).entries access (indexFor va)).addend
  rw [<- hit] at valid
  obtain ⟨k, origin, effective, hostPage, leafSize, early, fill, entry, shift, uncovered⟩ :=
    filled access (indexFor va) valid
  rw [entry] at hit found
  have page : pageBase origin.raw = pageBase va.raw := by
    rw [<- pageBase_tagFor origin effective, <- pageBase_tagFor va mode]
    exact congrArg pageBase hit
  refine ⟨Bool.eq_false_iff.mpr crosses, k, origin, effective, hostPage, leafSize, early, fill,
    page, ?_, ?_, ?_⟩
  · unfold tagFor at hit
    rw [page] at hit
    exact Nat.add_left_cancel hit
  · rw [<- Option.some.inj found]
    exact translate_filled page hostPage.isLt
  · intro j event after before there covered inLeaf
    apply uncovered j event after before there covered
    rw [shift, inLeaf]
    exact leaf_of_page page.symm (le_shiftForLeafSize leafSize)

/-- Two modes of the user ring that differ in the alignment-check flag have the same
tag, so one finds what was filled for the other. -/
theorem fill_found_in_other_mode :
    let mode : CpuAccessMode := ⟨true, false, true, true, true, true⟩
    let va : GuestVa := ⟨0, wordLimit_pos⟩
    let events : List TlbEvent := [.fill .read va mode ⟨0, wordLimit_pos⟩ 4096]
    (tlbAt events 1).probe va 1 .read { mode with ac := true } = some 0 ∧
      ∀ event ∈ events, ∀ filled hostPage leafSize,
        event ≠ .fill .read filled { mode with ac := true } hostPage leafSize := by
  refine ⟨by decide +kernel, ?_⟩
  intro event listed filled hostPage leafSize same
  rw [List.mem_singleton.mp listed] at same
  cases same

end SoftMmu
end Carrick

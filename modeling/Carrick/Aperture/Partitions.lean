import Carrick.Aperture.Conservation

namespace Carrick
namespace Aperture

open Foundation

/-!
# Carves divide what the guest sees

A carve takes from each allocation the bytes of one range, in the coordinates
of the guest or of the source an overlay slot stands for.  What is left and
what is taken partition the bytes the guest saw, each of them still backed by
the same part of the same object and standing for the same source address.
-/

namespace SharedAlloc

/-- What backs one byte of an allocation. -/
def backingAt (alloc : SharedAlloc) (byte : Nat) : BackingObject :=
  match alloc.backing with
  | .sharedFile hostFd offset => .sharedFile hostFd (offset + (byte - alloc.guestAddr))
  | other => other

/-- The answer of one allocation to a translation of `[source, stop)`. -/
def translate (source stop : Nat) (alloc : SharedAlloc) : Option Nat :=
  alloc.source.bind fun allocSource =>
    (checkedAdd allocSource alloc.liveLen).bind fun allocEnd =>
      if source < allocSource || allocEnd < stop then none
      else (checkedSub source allocSource).bind fun delta => checkedAdd alloc.guestAddr delta

end SharedAlloc

namespace SharedAperture

def translateSourceRange (aperture : SharedAperture) (source len : Nat) : Option Nat :=
  (checkedAdd source len).bind fun stop =>
    aperture.live.findSome? (SharedAlloc.translate source stop)

/-- The address at which a guest carve measures an allocation. -/
def guestAnchor (alloc : SharedAlloc) : Option Nat :=
  if alloc.source = none then some alloc.guestAddr else none

/-- The address at which a source carve measures an allocation. -/
def sourceAnchor (exclude : Option Nat) (alloc : SharedAlloc) : Option Nat :=
  if some alloc.guestAddr = exclude then none else alloc.source

/-- The byte of an allocation, measured from `anchor`, lies in the carved
range. -/
def Taken (anchor : Option Nat) (start stop : Nat) (alloc : SharedAlloc) (byte : Nat) : Prop :=
  match anchor with
  | none => False
  | some origin =>
    start <= origin + (byte - alloc.guestAddr) ∧ origin + (byte - alloc.guestAddr) < stop

/-- What a carve makes of one allocation: the pieces that are kept and the
bytes that are released partition what the guest saw, no byte changes its
backing or its source, and an allocation apart from the range stays as it is. -/
structure Parted (anchor : Option Nat) (start stop : Nat) (alloc : SharedAlloc)
    (cut : Carve) : Prop where
  apart : cut.kept.Pairwise (fun left right => ∀ byte, left.Visible byte ->
    ¬ right.Visible byte)
  kept : ∀ byte, (∃ piece ∈ cut.kept, piece.Visible byte) <->
    alloc.Visible byte ∧ ¬ Taken anchor start stop alloc byte
  released : ∀ byte, alloc.Visible byte ->
    (Covered cut.released byte <-> Taken anchor start stop alloc byte)
  keeps : ∀ piece, piece ∈ cut.kept ++ cut.displaced ->
    piece.source = alloc.source.map (· + (piece.guestAddr - alloc.guestAddr)) ∧
      ∀ byte, piece.Visible byte -> piece.backingAt byte = alloc.backingAt byte
  untouched : (∀ byte, alloc.Visible byte -> ¬ Taken anchor start stop alloc byte) ->
    cut = .untouched alloc

/-- The fragments a carve hands out are the bytes it took. -/
def HandsOut (anchor : Option Nat) (start stop : Nat) (alloc : SharedAlloc) (cut : Carve) : Prop :=
  cut.displaced.length <= 1 ∧ ∀ byte, (∃ piece ∈ cut.displaced, piece.Visible byte) <->
    alloc.Visible byte ∧ Taken anchor start stop alloc byte

/-! ## One allocation -/

variable {alloc piece : SharedAlloc} {anchor start stop low high : Nat} {overlap : Overlap}

theorem Parted.of_untouched {origin : Option Nat}
    (missed : ∀ byte, alloc.Visible byte -> ¬ Taken origin start stop alloc byte) :
    Parted origin start stop alloc (.untouched alloc) ∧
      HandsOut origin start stop alloc (.untouched alloc) := by
  refine ⟨⟨List.pairwise_singleton _ _, ?_, ?_, by simp [Carve.untouched], fun _ => rfl⟩,
    by simp [Carve.untouched], ?_⟩
  · simpa [Carve.untouched] using missed
  · intro byte visible
    simp [Carve.untouched, missed byte visible]
  · simpa [Carve.untouched] using missed

/-- A fragment taken `delta` bytes into an allocation keeps its backing. -/
theorem fragmentAt_keeps {delta byte : Nat} (addr : piece.guestAddr = alloc.guestAddr + delta)
    (cut : alloc.backing.fragmentAt delta = some piece.backing)
    (inside : piece.guestAddr <= byte) : piece.backingAt byte = alloc.backingAt byte := by
  unfold SharedAlloc.backingAt
  cases backed : alloc.backing <;>
    simp only [backed, BackingObject.fragmentAt, Option.some.injEq, Option.map_eq_some_iff] at cut
  case sharedFile hostFd offset =>
    rcases cut with ⟨moved, total, same⟩
    have moved_eq := (checkedAdd_eq_some_iff.mp total).1
    simp only [<- same, BackingObject.sharedFile.injEq, true_and]
    omega
  all_goals simp only [<- cut]

theorem parted_cut (sound : alloc.Sound low high) (met : Meets alloc anchor start stop overlap)
    {suffix displaced : List SharedAlloc} {carved : Nat}
    (same : alloc.source = none ∨ alloc.source = some anchor)
    (computed : survivingSuffix alloc overlap (alloc.source.map (fun _ => overlap.stop)) =
      some suffix)
    (gone : ∀ piece ∈ displaced,
      piece.source = alloc.source.map (· + (piece.guestAddr - alloc.guestAddr)) ∧
        ∀ byte, piece.Visible byte -> piece.backingAt byte = alloc.backingAt byte) :
    Parted (some anchor) start stop alloc ⟨survivingPrefix alloc overlap alloc.source ++ suffix,
      releasedInterval overlap, displaced, carved⟩ := by
  rcases sound with ⟨shows, reserved, low_le, le_high⟩
  rcases met with ⟨inWords, start_eq, stop_eq, nonempty, liveLen_eq, prefix_eq, offset_eq,
    suffix_eq, releaseStart_eq, releaseEnd_eq⟩
  have middle : ¬ ∀ byte, alloc.Visible byte ->
      ¬ Taken (some anchor) start stop alloc byte := by
    intro missed
    apply missed (alloc.guestAddr + overlap.prefixLiveLen) <;>
      simp only [SharedAlloc.Visible, Taken] <;> omega
  have ends : releasedInterval overlap = [(overlap.releaseStart, overlap.releaseLen)] := by
    unfold releasedInterval
    rw [if_pos]
    split_ifs at releaseEnd_eq <;> omega
  have shape := survivingSuffix_shape computed
  refine ⟨?_, ?_, ?_, ?_, fun missed => absurd missed middle⟩
  · simp only [survivingPrefix, SharedAlloc.Visible]
    rcases shape with ⟨_, shape⟩ | ⟨_, _, _, _, shape⟩ <;> split_ifs <;> simp [shape]
    omega
  · intro byte
    simp only [survivingPrefix, SharedAlloc.Visible, Taken]
    rcases shape with ⟨_, shape⟩ | ⟨_, _, _, _, shape⟩ <;> split_ifs <;> simp [shape] <;> omega
  · intro byte visible
    simp only [ends, covered_cons, covered_nil, or_false, Taken, SharedAlloc.Visible] at visible ⊢
    clear shape
    split_ifs at releaseEnd_eq <;> omega
  intro piece listed
  simp only [List.mem_append] at listed
  rcases listed with (early | late) | taken
  · rw [(mem_survivingPrefix early).2]
    simp [SharedAlloc.backingAt]
  · rcases shape with ⟨_, shape⟩ | ⟨_, _, backing, fragment, shape⟩
    · rw [shape] at late
      cases late
    rw [shape, List.mem_singleton] at late
    rw [late]
    refine ⟨?_, fun byte visible => fragmentAt_keeps rfl fragment visible.1⟩
    rcases same with plain | overlay
    · rw [plain]
      rfl
    · simp only [overlay, Option.map_some, Option.some.injEq]
      omega
  · exact gone piece taken

variable {cut : Carve}

theorem carveGuestAlloc_parted (sound : alloc.Sound low high)
    (computed : carveGuestAlloc start stop alloc = some cut) :
    Parted (guestAnchor alloc) start stop alloc cut ∧
      HandsOut (guestAnchor alloc) start stop alloc cut := by
  rcases carveGuestAlloc_cases computed with
    ⟨same, missed⟩ | ⟨plain, overlap, suffix, backing, met, suffixed, fragment, shape⟩
  · rw [same]
    apply Parted.of_untouched
    simp only [SharedAlloc.Visible, guestAnchor]
    grind [Taken]
  have start_eq := met.start_eq
  have stop_eq := met.stop_eq
  have liveLen_eq := met.liveLen_eq
  have prefix_eq := met.prefix_eq
  have measured : guestAnchor alloc = some alloc.guestAddr := by simp [guestAnchor, plain]
  rw [shape, measured, <- plain]
  refine ⟨parted_cut sound met (.inl plain) (by simpa [plain] using suffixed) ?_,
    by simp, ?_⟩
  · intro piece listed
    rw [List.mem_singleton] at listed
    rw [listed, plain]
    exact ⟨rfl, fun byte visible =>
      fragmentAt_keeps (by simp only; omega) fragment visible.1⟩
  · intro byte
    simp only [List.mem_singleton, exists_eq_left, SharedAlloc.Visible, Taken]
    omega

theorem carveSourceAlloc_parted {exclude : Option Nat} (sound : alloc.Sound low high)
    (computed : carveSourceAlloc start stop exclude alloc = some cut) :
    Parted (sourceAnchor exclude alloc) start stop alloc cut := by
  rcases carveSourceAlloc_cases computed with
    ⟨same, missed⟩ | ⟨included, allocSource, overlap, suffix, sourced, met, suffixed, shape⟩
  · rw [same]
    apply (Parted.of_untouched _).1
    simp only [SharedAlloc.Visible, sourceAnchor]
    split_ifs with excluded
    · simp [Taken]
    cases sourced : alloc.source with
    | none => simp [Taken]
    | some allocSource =>
      have apart := missed excluded allocSource sourced
      simp only [Taken]
      omega
  · rw [shape, sourceAnchor, if_neg included, sourced]
    simpa only [sourced] using parted_cut sound met (.inr sourced)
      (by rw [sourced]; exact suffixed) (by simp)

/-! ## Translations -/

theorem translate_eq {source stop allocSource : Nat} (sourced : alloc.source = some allocSource)
    (small : allocSource + alloc.liveLen < wordLimit)
    (inWords : alloc.guestAddr + alloc.liveLen < wordLimit) (nonempty : source < stop) :
    alloc.translate source stop =
      if allocSource <= source ∧ stop <= allocSource + alloc.liveLen then
        some (alloc.guestAddr + (source - allocSource)) else none := by
  simp only [SharedAlloc.translate, sourced, Option.bind_some, checkedAdd, if_pos small]
  grind [checkedSub]

theorem translate_plain {source stop : Nat} (plain : alloc.source = none) :
    alloc.translate source stop = none := by
  rw [SharedAlloc.translate, plain, Option.bind_none]

theorem carveGuestAlloc_translate (source bound : Nat)
    (computed : carveGuestAlloc start stop alloc = some cut) :
    cut.kept.findSome? (SharedAlloc.translate source bound) = alloc.translate source bound := by
  rcases carveGuestAlloc_cases computed with
    ⟨same, _⟩ | ⟨plain, overlap, suffix, backing, _, suffixed, _, shape⟩
  · simp [same, Carve.untouched]
  rw [translate_plain plain, List.findSome?_eq_none_iff, shape]
  intro piece listed
  apply translate_plain
  rcases List.mem_append.mp listed with front | back
  · rw [(mem_survivingPrefix front).2]
  · exact (mem_survivingSuffix suffixed back).2.2.2.2.2

/-- A source carve keeps the translation of every range apart from its own. -/
theorem carveSourceAlloc_translate {exclude : Option Nat} (sound : alloc.Sound low high)
    (inWords : high < wordLimit) {source bound : Nat} (nonempty : source < bound)
    (apart : bound <= start ∨ stop <= source)
    (computed : carveSourceAlloc start stop exclude alloc = some cut) :
    cut.kept.findSome? (SharedAlloc.translate source bound) = alloc.translate source bound := by
  rcases carveSourceAlloc_cases computed with
    ⟨same, _⟩ | ⟨_, allocSource, overlap, suffix, sourced, met, suffixed, shape⟩
  · simp [same, Carve.untouched]
  rcases met with ⟨small, start_eq, stop_eq, nonvoid, _, prefix_eq, offset_eq, suffix_eq, _, _⟩
  rcases sound with ⟨shows, reserved, _, le_high⟩
  rw [translate_eq sourced small (by omega) nonempty, shape]
  simp only [survivingPrefix]
  rcases survivingSuffix_shape suffixed with ⟨_, back⟩ | ⟨_, _, _, _, back⟩ <;>
    rw [back] <;> split <;>
    simp only [List.nil_append, List.append_nil, List.cons_append, List.findSome?_cons,
      List.findSome?_nil] <;>
    repeat rw [translate_eq rfl (by simp only; omega) (by simp only; omega) nonempty]
  all_goals grind

/-! ## The carves -/

/-- A carve of the live list is the carve of each allocation, in order. -/
theorem carveLive_flatMap {each : SharedAlloc -> Option Carve} {allocs : List SharedAlloc} :
    ∀ {carve : Carve}, carveLive each allocs = some carve -> ∃ cut : SharedAlloc -> Carve,
      (∀ alloc ∈ allocs, each alloc = some (cut alloc)) ∧
      carve.kept = allocs.flatMap (fun alloc => (cut alloc).kept) ∧
      carve.released = allocs.flatMap (fun alloc => (cut alloc).released) ∧
      carve.displaced = allocs.flatMap (fun alloc => (cut alloc).displaced) := by
  intro carve computed
  refine ⟨fun alloc => (each alloc).getD (.untouched alloc), ?_⟩
  induction allocs generalizing carve with
  | nil =>
    cases computed
    simp
  | cons alloc rest ih =>
    rcases Option.bind_eq_some_iff.mp computed with ⟨first, here, later⟩
    rcases Option.bind_eq_some_iff.mp later with ⟨others, there, joined⟩
    cases joined
    rcases ih there with ⟨all, kept, released, displaced⟩
    simp only [Carve.append, List.flatMap_cons, here, Option.getD_some, kept, released, displaced,
      List.mem_cons, and_self, and_true]
    rintro other (same | member)
    · rw [same, here, Option.getD_some]
    · exact all other member

theorem findSome?_flatMap_eq {Key Value : Type} {find : Key -> Option Value}
    {split : Key -> List Key} {keys : List Key}
    (same : ∀ key ∈ keys, (split key).findSome? find = find key) :
    (keys.flatMap split).findSome? find = keys.findSome? find := by
  induction keys with
  | nil => rfl
  | cons key rest ih =>
    simp only [List.forall_mem_cons] at same
    rw [List.flatMap_cons, List.findSome?_append, same.1, ih same.2, List.findSome?_cons]
    cases find key <;> rfl

/-- What a carve of `[start, stop)` makes of the whole state: each allocation is
parted at its anchor, and what is released joins the free list. -/
structure CarvedBy (anchor : SharedAlloc -> Option Nat) (start stop : Nat)
    (before after : SharedAperture) (cut : SharedAlloc -> Carve) : Prop where
  live : after.live = before.live.flatMap (fun alloc => (cut alloc).kept)
  free : after.free =
    release before.free (before.live.flatMap (fun alloc => (cut alloc).released))
  parted : ∀ alloc ∈ before.live, Parted (anchor alloc) start stop alloc (cut alloc)

/-- In every state of every run, a refused carve changes nothing.  A carve
that succeeds divides each allocation into the pieces that stay and the bytes
that go, each byte with its backing and its source, and does not touch the
allocations apart from its range.  The translations stay: all of them after a
guest carve, those of the ranges apart from its own after a source carve. -/
theorem carves_are_exact {base size : Nat} (fits : base + size < wordLimit)
    (history : List Event) :
    (∀ source len exclude, match (after base size fits history).carveSourceRange source len
        exclude with
      | (later, none) => later = after base size fits history
      | (later, some _) => (∃ cut, CarvedBy (sourceAnchor exclude) source (source + len)
          (after base size fits history) later cut) ∧
        ∀ other width, 0 < width -> other + width <= source ∨ source + len <= other ->
          later.translateSourceRange other width =
            (after base size fits history).translateSourceRange other width) ∧
    (∀ guestAddr len, match (after base size fits history).carveGuestRange guestAddr len with
      | (later, none) => later = after base size fits history
      | (later, some displaced) => (∃ cut, CarvedBy guestAnchor guestAddr (guestAddr + len)
            (after base size fits history) later cut ∧
          displaced = (after base size fits history).live.flatMap
            (fun alloc => (cut alloc).displaced) ∧
          ∀ alloc, alloc ∈ (after base size fits history).live ->
            HandsOut (guestAnchor alloc) guestAddr (guestAddr + len) alloc (cut alloc)) ∧
        ∀ other width, later.translateSourceRange other width =
          (after base size fits history).translateSourceRange other width) := by
  have valid := after_valid fits history
  generalize after base size fits history = aperture at valid ⊢
  constructor
  · intro source len exclude
    unfold carveSourceRange
    split_ifs with carvable
    · cases total : checkedAdd source len with
      | none => rfl
      | some stop =>
        have stop_eq := (checkedAdd_eq_some_iff.mp total).1
        simp only
        cases computed : carveLive (carveSourceAlloc source stop exclude) aperture.live with
        | none => rfl
        | some carve =>
          rcases carveLive_flatMap computed with ⟨cut, each, kept, released, _⟩
          rw [stop_eq]
          refine ⟨⟨cut, kept, by simp only [released], ?_⟩, ?_⟩
          · intro alloc listed
            exact carveSourceAlloc_parted (valid.live alloc listed) (each alloc listed)
          intro other width positive apart
          simp only [translateSourceRange, kept, checkedAdd]
          split
          · simp only [Option.bind_some]
            refine findSome?_flatMap_eq fun alloc listed => ?_
            exact carveSourceAlloc_translate (valid.live alloc listed) aperture.windowEnd_lt
              (by omega) (by omega) (each alloc listed)
          · rfl
    · rfl
  · intro guestAddr len
    rcases aperture.carveGuestRange_cases guestAddr len with same | ⟨carve, computed, carved⟩
    · rw [same]
    rw [carved]
    rcases carveLive_flatMap computed with ⟨cut, each, kept, released, displaced⟩
    refine ⟨⟨cut, ⟨kept, by simp only [released], ?_⟩, displaced, ?_⟩, ?_⟩
    · intro alloc listed
      exact (carveGuestAlloc_parted (valid.live alloc listed) (each alloc listed)).1
    · intro alloc listed
      exact (carveGuestAlloc_parted (valid.live alloc listed) (each alloc listed)).2
    intro other width
    simp only [translateSourceRange, kept]
    refine congrArg (Option.bind _) (funext fun bound => findSome?_flatMap_eq ?_)
    intro alloc listed
    exact carveGuestAlloc_translate other bound (each alloc listed)

/-- The second page is carved out of a shared file's four. -/
theorem second_page_is_carved_out :
    let aperture := after 0 0x100000 megabyte_fits
      [.alloc 0x4000 (.sharedFile 7 0x8000) none (fun _ _ => false)]
    (aperture.carveGuestRange 0x1000 0x1000).1.live =
        [⟨0, 0x1000, 0x1000, .sharedFile 7 0x8000, none⟩,
          ⟨0x2000, 0x2000, 0x2000, .sharedFile 7 0xa000, none⟩] ∧
      ∃ cut, CarvedBy guestAnchor 0x1000 0x2000 aperture
        (aperture.carveGuestRange 0x1000 0x1000).1 cut := by
  intro aperture
  have answered : (aperture.carveGuestRange 0x1000 0x1000).2 =
      some [⟨0x1000, 0x1000, 0x1000, .sharedFile 7 0x9000, none⟩] := by decide +kernel
  refine ⟨by decide +kernel, ?_⟩
  have exact := (carves_are_exact megabyte_fits
    [.alloc 0x4000 (.sharedFile 7 0x8000) none (fun _ _ => false)]).2 0x1000 0x1000
  rcases carved : aperture.carveGuestRange 0x1000 0x1000 with ⟨later, answer⟩
  rw [carved] at answered
  rw [show aperture.carveGuestRange 0x1000 0x1000 = (later, _) from carved.trans
    (congrArg (Prod.mk later) answered)] at exact
  rcases exact with ⟨⟨cut, divided, _⟩, _⟩
  exact ⟨cut, divided⟩

end SharedAperture

end Aperture
end Carrick

import Carrick.Foundation.Census
import Carrick.Reservation.FirstFit
import Carrick.Reservation.Fragments
import Mathlib.Order.Interval.Finset.Nat

namespace Carrick
namespace Reservation

open Foundation
open Command

/-!
# The charges of a proposal

A proposal is admitted against the limits before anything is edited: the bytes
its range and its source hold are surveyed, and the bytes it will add are
predicted from one kind of mapping.  Counted over the addresses of the map,
the prediction is what the completed edit leaves, whatever nodes the edit cuts,
carries or recolours on its way.
-/

/-! ## Totals as counts of addresses -/

/-- A page of a kind that is told by protection and attributes. -/
def Page.isOf (kind : ReservationProtection -> ReservationNodeFlags -> Bool) (page : Page) : Bool :=
  kind page.prot page.flags

def anyKind (_ : ReservationProtection) (_ : ReservationNodeFlags) : Bool := true

/-- The pages that `RLIMIT_DATA` covers. -/
def dataKind (prot : ReservationProtection) (flags : ReservationNodeFlags) : Bool :=
  flags.chargesData prot

def ReservationRange.addresses (range : ReservationRange) : Finset Nat :=
  Finset.Ico range.start range.stop

variable {address : Nat}

theorem ReservationRange.mem_addresses {range : ReservationRange} :
    address ∈ range.addresses <-> range.contains address = true := by
  unfold addresses
  rw [Finset.mem_Ico, contains_iff]

theorem ReservationRange.card_addresses (range : ReservationRange) :
    range.addresses.card = range.len := by
  unfold addresses
  rw [Nat.card_Ico]
  rfl

def allAddresses : Finset Nat := Finset.range wordLimit

theorem ReservationRange.addresses_subset (range : ReservationRange) :
    range.addresses ⊆ allAddresses := by
  intro address member
  have bounds := Finset.mem_Ico.mp member
  have inWord := range.in_word
  unfold allAddresses
  rw [Finset.mem_range]
  omega

variable {kind : ReservationProtection -> ReservationNodeFlags -> Bool}

variable {tree : MappingTree}

theorem pages_any_iff (tidy : Tidy tree) :
    (pages tree address).any (Page.isOf kind) = true <->
      ∃ node ∈ tree.toList, node.covers address ∧ kind node.prot node.flags = true := by
  unfold pages
  rw [Option.any_map, Option.any_eq_true]
  constructor
  · rintro ⟨cell, found, isKind⟩
    rcases exists_of_cells found with ⟨node, member, covers, rfl⟩
    exact ⟨node, member, covers, isKind⟩
  · rintro ⟨node, member, covers, isKind⟩
    exact ⟨node.cell address, cells_of_mem tidy member covers, isKind⟩

theorem card_covered (keep : Node -> Bool) {nodes : List Node}
    (apart : nodes.Pairwise (fun earlier later => earlier.stop <= later.start))
    (formed : ∀ node ∈ nodes, node.WellFormed) :
    (allAddresses.filter (fun address =>
        ∃ node ∈ nodes, node.covers address ∧ keep node = true)).card =
      sumOf (fun node => if keep node then node.len else 0) nodes := by
  induction nodes with
  | nil => simp [sumOf]
  | cons node rest ih =>
    rcases List.pairwise_cons.mp apart with ⟨before, restApart⟩
    have nodeFormed := formed node List.mem_cons_self
    have ordered := nodeFormed.ordered
    have inWord := nodeFormed.in_word
    have onward := ih restApart
      (fun later member => formed later (List.mem_cons_of_mem _ member))
    have own : (if keep node then Finset.Ico node.start node.stop else ∅).card =
        if keep node then node.len else 0 := by
      split
      · rw [Nat.card_Ico]
        rfl
      · rfl
    rw [sumOf_cons, <- onward, <- own, <- Finset.card_union_of_disjoint]
    · refine congrArg Finset.card ?_
      ext address
      rw [Finset.mem_filter, Finset.mem_union, Finset.mem_filter]
      unfold allAddresses
      rw [Finset.mem_range]
      constructor
      · rintro ⟨inside, holder, member, covers, keeps⟩
        rcases List.mem_cons.mp member with rfl | later
        · rw [if_pos keeps, Finset.mem_Ico]
          exact .inl covers
        · exact .inr ⟨inside, holder, later, covers, keeps⟩
      rintro (own | ⟨inside, holder, later, covers, keeps⟩)
      · split at own
        · rename_i keeps
          have covers := Finset.mem_Ico.mp own
          exact ⟨by omega, node, List.mem_cons_self, covers, keeps⟩
        · cases own
      · exact ⟨inside, holder, List.mem_cons_of_mem _ later, covers, keeps⟩
    · refine Finset.disjoint_left.mpr (fun address ofNode ofRest => ?_)
      rcases (Finset.mem_filter.mp ofRest).2 with ⟨holder, later, covers, _⟩
      have order := before holder later
      split at ofNode
      · have bounds := Finset.mem_Ico.mp ofNode
        have low := covers.1
        omega
      · cases ofNode

theorem census_tree (tidy : Tidy tree) :
    census (Page.isOf kind) (pages tree) allAddresses =
      sumOf (fun node => if kind node.prot node.flags then node.len else 0) tree.toList := by
  rw [<- card_covered (fun node => kind node.prot node.flags) tidy.apart tidy.formed]
  unfold census
  refine congrArg Finset.card (Finset.filter_congr (fun address _ => ?_))
  exact pages_any_iff tidy

/-- The totals that the tree caches at its root. -/
def Root.totals (root : Root) : Charges :=
  let total := (root.tree.cached?).getD .none
  ⟨total.bytes, total.data⟩

variable {root : Root}

theorem totals_eq (balanced : root.tree.Balanced mappingSummary) (tidy : Tidy root.tree) :
    root.totals = ⟨census (Page.isOf anyKind) (pages root.tree) allAddresses,
      census (Page.isOf dataKind) (pages root.tree) allAddresses⟩ := by
  have bytes : sumOf (fun node => if anyKind node.prot node.flags then node.len else 0)
      root.tree.toList = sumOf Node.len root.tree.toList :=
    sumOf_congr (fun node _ => if_pos rfl)
  have data : sumOf (fun node => if dataKind node.prot node.flags then node.len else 0)
      root.tree.toList = sumOf Node.chargedData root.tree.toList := rfl
  rw [census_tree tidy, census_tree tidy, bytes, data]
  unfold Root.totals
  rw [cached_eq balanced tidy]
  cases root.tree with
  | leaf => rfl
  | node left node cached right => rfl

/-! ## The survey of a range -/

/-- What a survey knows when its cursor has come this far: the pages below it
are counted, and they belong to editable nodes. -/
structure SurveyedTo (root : Root) (range : ReservationRange) (requireCoverage : Bool)
    (survey : Survey) : Prop where
  started : range.start <= survey.cursor
  within : survey.cursor <= range.stop
  aligned : survey.cursor % pageSize = 0
  bytes : survey.bytes = census (Page.isOf anyKind) (pages root.tree)
    (Finset.Ico range.start survey.cursor)
  data : survey.data = census (Page.isOf dataKind) (pages root.tree)
    (Finset.Ico range.start survey.cursor)
  editable : ∀ address page, range.start <= address -> address < survey.cursor ->
    pages root.tree address = some page -> page.flags.rootEditable = true
  covered : requireCoverage = true -> ∀ address, range.start <= address ->
    address < survey.cursor -> pages root.tree address ≠ none

variable {node : Node}

theorem pages_of_mem (tidy : Tidy tree) (member : node ∈ tree.toList)
    (covers : node.covers address) :
    ∃ page, pages tree address = some page ∧ page.prot = node.prot ∧ page.flags = node.flags := by
  unfold pages
  rw [cells_of_mem tidy member covers]
  exact ⟨_, rfl, rfl, rfl⟩

theorem pages_eq_none (missed : ∀ node ∈ tree.toList, ¬ node.covers address) :
    pages tree address = none := by
  unfold pages
  rw [cells_eq_none_iff.mpr missed]
  rfl

theorem next_gap (tidy : Tidy root.tree) {cursor : Nat} (found : root.next cursor = some node)
    (above : cursor <= address) (below : address < node.start) :
    pages root.tree address = none := by
  rcases next_eq_some tidy found with ⟨member, _, others⟩
  have ordered := (tidy.formed node member).ordered
  refine pages_eq_none (fun other otherMember covers => ?_)
  unfold Node.covers at covers
  by_cases same : other = node
  · rw [same] at covers
    omega
  · rcases others other otherMember same with low | high <;> omega

theorem census_step (tidy : Tidy root.tree) {cursor stop : Nat}
    (found : root.next cursor = some node) (starts : node.start < stop) (behind : cursor < stop) :
    census (Page.isOf kind) (pages root.tree) (Finset.Ico cursor (min node.stop stop)) =
      if kind node.prot node.flags then min node.stop stop - max node.start cursor else 0 := by
  rcases next_eq_some tidy found with ⟨member, reaches, _⟩
  have ordered := (tidy.formed node member).ordered
  have split : Finset.Ico cursor (min node.stop stop) =
      Finset.Ico cursor (max node.start cursor) ∪
        Finset.Ico (max node.start cursor) (min node.stop stop) := by
    rw [Finset.Ico_union_Ico_eq_Ico (by omega) (by omega)]
  rw [split, census_union (Finset.Ico_disjoint_Ico_consecutive _ _ _)]
  have hole : census (Page.isOf kind) (pages root.tree)
      (Finset.Ico cursor (max node.start cursor)) = 0 := by
    refine census_none (fun address inside => ?_)
    have bounds := Finset.mem_Ico.mp inside
    rw [next_gap tidy found bounds.1 (by omega)]
    rfl
  have own : ∀ address ∈ Finset.Ico (max node.start cursor) (min node.stop stop),
      (pages root.tree address).any (Page.isOf kind) = kind node.prot node.flags := by
    intro address inside
    have bounds := Finset.mem_Ico.mp inside
    have covers : node.covers address := ⟨by omega, by omega⟩
    rcases pages_of_mem tidy member covers with ⟨page, here, prot, flags⟩
    rw [here, Option.any_some]
    unfold Page.isOf
    rw [prot, flags]
  rw [hole, Nat.zero_add]
  split
  · rename_i isKind
    rw [census_all (fun address inside => (own address inside).trans isKind), Nat.card_Ico]
  · rename_i other
    exact census_none (fun address inside => (own address inside).trans (by simpa using other))

theorem SurveyedTo.step {root : Root} (tidy : Tidy root.tree) {range : ReservationRange}
    {requireCoverage : Bool} {survey : Survey}
    (walk : SurveyedTo root range requireCoverage survey) (inside : survey.cursor < range.stop)
    {node : Node} (found : root.next survey.cursor = some node) (starts : node.start < range.stop)
    (editable : node.rootEditable = true)
    (meets : requireCoverage = true -> node.start <= survey.cursor) :
    SurveyedTo root range requireCoverage
      { cursor := min node.stop range.stop
        bytes := survey.bytes + (min node.stop range.stop - max node.start survey.cursor)
        data := survey.data + if node.flags.chargesData node.prot then
          min node.stop range.stop - max node.start survey.cursor else 0 } := by
  rcases next_eq_some tidy found with ⟨member, reaches, _⟩
  have started := walk.started
  have stopAligned := (tidy.formed node member).stop_aligned
  have rangeAligned := range.stop_aligned
  have onward : Finset.Ico range.start (min node.stop range.stop) =
      Finset.Ico range.start survey.cursor ∪
        Finset.Ico survey.cursor (min node.stop range.stop) := by
    rw [Finset.Ico_union_Ico_eq_Ico started (by omega)]
  have counts : ∀ kind, census (Page.isOf kind) (pages root.tree)
      (Finset.Ico range.start (min node.stop range.stop)) =
        census (Page.isOf kind) (pages root.tree) (Finset.Ico range.start survey.cursor) +
          if kind node.prot node.flags then
            min node.stop range.stop - max node.start survey.cursor else 0 := by
    intro kind
    rw [onward, census_union (Finset.Ico_disjoint_Ico_consecutive _ _ _),
      census_step tidy found starts inside]
  have own : ∀ address, node.start <= address -> address < min node.stop range.stop ->
      ∃ page, pages root.tree address = some page ∧ page.flags = node.flags := by
    intro address low high
    have covers : node.covers address := ⟨low, by omega⟩
    rcases pages_of_mem tidy member covers with ⟨page, here, _, flags⟩
    exact ⟨page, here, flags⟩
  refine ⟨by dsimp only; omega, Nat.min_le_right _ _, ?_, ?_, ?_, ?_, ?_⟩
  · rcases min_choice node.stop range.stop with same | same
    · dsimp only
      rw [same]
      exact stopAligned
    · dsimp only
      rw [same]
      exact rangeAligned
  · dsimp only
    rw [counts, walk.bytes]
    rfl
  · dsimp only
    rw [counts, walk.data]
    rfl
  · intro address page low high here
    by_cases earlier : address < survey.cursor
    · exact walk.editable address page low earlier here
    by_cases gap : address < node.start
    · rw [next_gap tidy found (by omega) gap] at here
      cases here
    rcases own address (by omega) high with ⟨other, same, flags⟩
    rw [here] at same
    cases same
    rw [flags]
    unfold Node.rootEditable at editable
    exact (Bool.and_eq_true_iff.mp editable).1
  · intro covering address low high absent
    by_cases earlier : address < survey.cursor
    · exact walk.covered covering address low earlier absent
    · have first := meets covering
      rcases own address (by omega) high with ⟨other, same, _⟩
      rw [absent] at same
      cases same

theorem surveyFrom_spec (tidy : Tidy root.tree) {range : ReservationRange}
    {requireCoverage : Bool} (fuel : Nat) {survey found : Survey}
    (walk : SurveyedTo root range requireCoverage survey) (inside : survey.cursor < range.stop)
    (enough : range.stop <= survey.cursor + fuel * pageSize)
    (passed : surveyFrom root range requireCoverage fuel survey = .ok found) :
    SurveyedTo root range requireCoverage found ∧
      ∀ address, found.cursor <= address -> address < range.stop ->
        pages root.tree address = none := by
  induction fuel generalizing survey with
  | zero => omega
  | succ fuel ih =>
    unfold surveyFrom at passed
    split at passed
    · rename_i nothing
      cases passed
      refine ⟨walk, fun address above _ => pages_eq_none (fun node member covers => ?_)⟩
      have low := next_eq_none tidy nothing node member
      have high := covers.2
      omega
    rename_i node searched
    split at passed
    · cases passed
      exact ⟨walk, fun address above below => next_gap tidy searched above (by omega)⟩
    rename_i starts
    split at passed
    · cases passed
    rename_i editable
    split at passed
    · cases passed
    rename_i meets
    have aligned := walk.aligned
    have within := walk.within
    rcases next_eq_some tidy searched with ⟨member, reaches, _⟩
    have stopAligned := (tidy.formed node member).stop_aligned
    have next := walk.step tidy inside searched (by omega) (by simpa using editable)
      (fun covering => by
        by_contra hole
        exact meets ⟨covering, by omega⟩)
    dsimp only at passed
    by_cases reached : min node.stop range.stop = range.stop
    · rw [if_pos reached] at passed
      cases passed
      refine ⟨next, fun address above below => ?_⟩
      dsimp only at above
      omega
    rw [if_neg reached] at passed
    refine ih next (by dsimp only; omega) ?_ passed
    dsimp only
    have rangeAligned := range.stop_aligned
    unfold pageSize at *
    omega

/-- What a survey that passed says about the range of its proposal. -/
structure Surveyed (root : Root) (proposal : ReservationProposal) (found : Survey) : Prop where
  bytes : found.bytes = census (Page.isOf anyKind) (pages root.tree) proposal.range.addresses
  data : found.data = census (Page.isOf dataKind) (pages root.tree) proposal.range.addresses
  editable : ∀ address page, proposal.range.contains address = true ->
    pages root.tree address = some page -> page.flags.rootEditable = true
  covered : proposal.requireCoverage = true -> ∀ address,
    proposal.range.contains address = true -> pages root.tree address ≠ none

theorem survey_spec (tidy : Tidy root.tree) {proposal : ReservationProposal} {found : Survey}
    (passed : survey root proposal = .ok found) : Surveyed root proposal found := by
  unfold survey at passed
  rcases except_bind_eq_ok passed with ⟨walked, walking, checking⟩
  have same : walked = found ∧ ¬ (proposal.requireCoverage = true ∧
      walked.cursor ≠ proposal.range.stop) := by
    by_cases short : proposal.requireCoverage = true ∧ walked.cursor ≠ proposal.range.stop
    · rw [if_pos short] at checking
      cases checking
    · rw [if_neg short] at checking
      cases checking
      exact ⟨rfl, short⟩
  rcases same with ⟨rfl, whole⟩
  have ordered := proposal.range.ordered
  have begun : SurveyedTo root proposal.range proposal.requireCoverage
      ⟨proposal.range.start, 0, 0⟩ := by
    refine ⟨le_rfl, Nat.le_of_lt ordered, proposal.range.start_aligned, ?_, ?_, ?_, ?_⟩
    · rw [Finset.Ico_self]
      rfl
    · rw [Finset.Ico_self]
      rfl
    · intro address page low high
      exact absurd high (Nat.not_lt.mpr low)
    · intro _ address low high
      exact absurd high (Nat.not_lt.mpr low)
  rcases surveyFrom_spec tidy proposal.range.pages begun ordered proposal.range.le_pages walking with
    ⟨walk, rest⟩
  have started := walk.started
  have within := walk.within
  have counts : ∀ kind, census (Page.isOf kind) (pages root.tree) proposal.range.addresses =
      census (Page.isOf kind) (pages root.tree) (Finset.Ico proposal.range.start walked.cursor) := by
    intro kind
    have split : proposal.range.addresses = Finset.Ico proposal.range.start walked.cursor ∪
        Finset.Ico walked.cursor proposal.range.stop := by
      unfold ReservationRange.addresses
      rw [Finset.Ico_union_Ico_eq_Ico started within]
    have empty : census (Page.isOf kind) (pages root.tree)
        (Finset.Ico walked.cursor proposal.range.stop) = 0 := by
      refine census_none (fun address inside => ?_)
      have bounds := Finset.mem_Ico.mp inside
      rw [rest address bounds.1 bounds.2]
      rfl
    rw [split, census_union (Finset.Ico_disjoint_Ico_consecutive _ _ _), empty, Nat.add_zero]
  refine ⟨walk.bytes.trans (counts _).symm, walk.data.trans (counts _).symm, ?_, ?_⟩
  · intro address page inside here
    have bounds := ReservationRange.contains_iff.mp inside
    by_cases seen : address < walked.cursor
    · exact walk.editable address page bounds.1 seen here
    · rw [rest address (by omega) bounds.2] at here
      cases here
  intro covering address inside
  have bounds := ReservationRange.contains_iff.mp inside
  have reached : walked.cursor = proposal.range.stop := by
    by_contra short
    exact whole ⟨covering, short⟩
  exact walk.covered covering address bounds.1 (reached ▸ bounds.2)

/-! ## The prediction -/

/-- A private mapping that is not a stack. -/
def ReservationNodeFlags.plain (flags : ReservationNodeFlags) : Bool :=
  flags.contains .privateMap && !flags.contains .growsdown

theorem plain_of_rootEditable :
    ∀ flags : ReservationNodeFlags, flags.rootEditable = true -> flags.plain = true := by
  decide +kernel

theorem plain_difference_anonymous : ∀ flags : ReservationNodeFlags,
    (flags.difference .anonymous).plain = flags.plain := by
  decide +kernel

theorem chargesData_of_plain {flags : ReservationNodeFlags} (plain : flags.plain = true)
    (prot : ReservationProtection) :
    flags.chargesData prot = ReservationNodeFlags.anonymousPrivate.chargesData prot := by
  have ofAnonymous : ReservationNodeFlags.anonymousPrivate.plain = true := by decide
  unfold ReservationNodeFlags.plain at plain ofAnonymous
  unfold ReservationNodeFlags.chargesData
  rw [plain, ofAnonymous]

/-- The bytes of the source that a proposal retires. -/
def ReservationProposal.movedBytes (proposal : ReservationProposal) : Nat :=
  (proposal.source.map ReservationRange.len).getD 0

/-- Whether the pages a proposal leaves are predicted to be data. -/
def ReservationProposal.leavesData (proposal : ReservationProposal) : Bool :=
  ReservationNodeFlags.anonymousPrivate.chargesData proposal.protection

def ReservationProposal.addedBytes (proposal : ReservationProposal) : Nat :=
  if proposal.operation = .retire then 0 else proposal.range.len

/-- The charges a proposal takes away, by its survey. -/
def ReservationProposal.removed (proposal : ReservationProposal) (found : Survey) : Charges :=
  ⟨found.bytes + proposal.movedBytes,
    found.data + if proposal.leavesData then proposal.movedBytes else 0⟩

/-- The charges a proposal adds. -/
def ReservationProposal.added (proposal : ReservationProposal) : Charges :=
  ⟨proposal.addedBytes, if proposal.leavesData then proposal.addedBytes else 0⟩

/-- What the calls see to before they propose an edit: a node they install is
plain, an edit of mapped pages asks for coverage, and the source of a move lies
apart from its range and is all of the moved mapping. -/
structure Honest (root : Root) (proposal : ReservationProposal) : Prop where
  installs : proposal.operation.installs = true -> proposal.flags.plain = true
  coverage : proposal.operation.reprotects = true -> proposal.requireCoverage = true
  moves : ∀ source, proposal.source = some source -> proposal.operation = .move ∧
    ∀ address, source.contains address = true ->
      proposal.range.contains address = false ∧ ∃ page, pages root.tree address = some page ∧
        page.prot = proposal.protection ∧ page.flags = proposal.flags

/-- Whether an address belongs to the source of a move. -/
def inSource (source : Option ReservationRange) (address : Nat) : Bool :=
  source.any (fun range => range.contains address)

/-- What a completed proposal leaves of the map that it was made for. -/
structure CommittedOver (proposal : ReservationProposal) (before after : Nat -> Option Page) :
    Prop where
  outside : ∀ address, proposal.range.contains address = false ->
    inSource proposal.source address = false -> after address = before address
  source : ∀ address, proposal.range.contains address = false ->
    inSource proposal.source address = true -> after address = none
  retired : proposal.operation = .retire -> ∀ address,
    proposal.range.contains address = true -> after address = none
  filled : proposal.operation ≠ .retire -> ∀ address,
    proposal.range.contains address = true -> ∃ page, after address = some page ∧
      page.prot = proposal.protection ∧ page.flags.plain = true

/-- The addresses of the source of a move. -/
def sourceAddresses (source : Option ReservationRange) : Finset Nat :=
  (source.map ReservationRange.addresses).getD ∅

theorem mem_sourceAddresses {source : Option ReservationRange} :
    address ∈ sourceAddresses source <-> inSource source address = true := by
  unfold sourceAddresses inSource
  cases source with
  | none => simp
  | some range =>
    rw [Option.map_some, Option.getD_some, Option.any_some]
    exact ReservationRange.mem_addresses

/-- The prediction is exact, for every kind of page that plain mappings of the
proposed protection all are or all are not. -/
theorem CommittedOver.census_eq {proposal : ReservationProposal} {after : Nat -> Option Page}
    (honest : Honest root proposal) (committed : CommittedOver proposal (pages root.tree) after)
    (kind : ReservationProtection -> ReservationNodeFlags -> Bool) (charged : Bool)
    (uniform : ∀ flags, flags.plain = true -> kind proposal.protection flags = charged) :
    census (Page.isOf kind) after allAddresses +
        (census (Page.isOf kind) (pages root.tree) proposal.range.addresses +
          if charged then proposal.movedBytes else 0) =
      census (Page.isOf kind) (pages root.tree) allAddresses +
        if charged then proposal.addedBytes else 0 := by
  have apart : Disjoint proposal.range.addresses (sourceAddresses proposal.source) := by
    refine Finset.disjoint_left.mpr (fun address ofRange ofSource => ?_)
    have inside := ReservationRange.mem_addresses.mp ofRange
    have within := mem_sourceAddresses.mp ofSource
    unfold inSource at within
    rcases (Option.any_eq_true _ _).mp within with ⟨source, isSource, contains⟩
    rw [((honest.moves source isSource).2 address contains).1] at inside
    cases inside
  have part : proposal.range.addresses ∪ sourceAddresses proposal.source ⊆ allAddresses := by
    refine Finset.union_subset proposal.range.addresses_subset ?_
    unfold sourceAddresses
    cases proposal.source with
    | none => exact Finset.empty_subset _
    | some source => exact source.addresses_subset
  have exchange := @census_exchange _ (Page.isOf kind) (pages root.tree) after allAddresses
    (proposal.range.addresses ∪ sourceAddresses proposal.source) part (by
      intro address _ missed
      rw [Finset.mem_union, not_or, ReservationRange.mem_addresses, mem_sourceAddresses,
        Bool.not_eq_true, Bool.not_eq_true] at missed
      exact committed.outside address missed.1 missed.2)
  rw [census_union apart, census_union apart] at exchange
  have sourceBefore : census (Page.isOf kind) (pages root.tree) (sourceAddresses proposal.source) =
      if charged then proposal.movedBytes else 0 := by
    unfold sourceAddresses ReservationProposal.movedBytes
    cases isSource : proposal.source with
    | none => simp [census]
    | some source =>
      rw [Option.map_some, Option.getD_some, Option.map_some, Option.getD_some]
      rcases honest.moves source isSource with ⟨moves, whole⟩
      have plain := honest.installs (by rw [moves]; rfl)
      have own : ∀ address ∈ source.addresses,
          (pages root.tree address).any (Page.isOf kind) = charged := by
        intro address member
        rcases (whole address (ReservationRange.mem_addresses.mp member)).2 with
          ⟨page, here, prot, flags⟩
        rw [here, Option.any_some]
        unfold Page.isOf
        rw [prot, flags, uniform _ plain]
      cases charged with
      | true => rw [census_all own, source.card_addresses, if_pos rfl]
      | false =>
        rw [census_none own]
        rfl
  have sourceAfter : census (Page.isOf kind) after (sourceAddresses proposal.source) = 0 := by
    refine census_none (fun address member => ?_)
    have outside : proposal.range.contains address = false := by
      by_contra inside
      exact Finset.disjoint_left.mp apart
        (ReservationRange.mem_addresses.mpr (by simpa using inside)) member
    rw [committed.source address outside (mem_sourceAddresses.mp member)]
    rfl
  have rangeAfter : census (Page.isOf kind) after proposal.range.addresses =
      if charged then proposal.addedBytes else 0 := by
    unfold ReservationProposal.addedBytes
    by_cases retires : proposal.operation = .retire
    · rw [if_pos retires, ite_self]
      refine census_none (fun address member => ?_)
      rw [committed.retired retires address (ReservationRange.mem_addresses.mp member)]
      rfl
    rw [if_neg retires]
    have own : ∀ address ∈ proposal.range.addresses,
        (after address).any (Page.isOf kind) = charged := by
      intro address member
      rcases committed.filled retires address (ReservationRange.mem_addresses.mp member) with
        ⟨page, here, prot, plain⟩
      rw [here, Option.any_some]
      unfold Page.isOf
      rw [prot, uniform _ plain]
    cases charged with
    | true => rw [census_all own, proposal.range.card_addresses, if_pos rfl]
    | false =>
      rw [census_none own]
      rfl
  rw [sourceBefore, sourceAfter, rangeAfter] at exchange
  omega

end Reservation
end Carrick

import Carrick.Reservation.Remap

namespace Carrick
namespace Reservation

open Foundation
open Command

/-!
# The steps of a root

What one call does to the committed map.  The edits are followed without any
assumption about the index first, since a refused edit may have stopped half
way; on a sound root every edit that gets past its checks goes through.
-/

/-! ## Completions -/

/-- The byte source of the node that a completion of this proposal creates. -/
def Pending.created (pending : Pending) (hostOwned : Bool) : Option HostBackingIdentity :=
  if pending.readsBacking hostOwned then pending.firstSpare else none

variable {pending : Pending}

theorem createdBacking_of_source {hostOwned : Bool}
    (present : pending.readsBacking hostOwned = true -> pending.firstSpare ≠ none) (root : Root) :
    createdBacking pending hostOwned root = (.ok (pending.created hostOwned), root) := by
  unfold createdBacking Pending.created
  cases reads : pending.readsBacking hostOwned with
  | false => rfl
  | true =>
    rcases Option.ne_none_iff_exists'.mp (present reads) with ⟨backing, found⟩
    rw [found]
    rfl

/-- A completion is refused before it does anything, or it is the edit of its
request followed by the settlement. -/
theorem completeAs_cases (request : ReservationRequest) (hostOwned : Bool) (root : Root) :
    (∃ reason, completeAs request hostOwned root = (.error reason, root) ∧
      ∀ pending, root.pending = some pending -> root.authenticates pending request = true ->
        root.sparesRequired pending.request <= pending.nodes.length ->
        pending.readsBacking hostOwned = true ∧ pending.firstSpare = none) ∨
    ∃ pending, root.pending = some pending ∧ root.authenticates pending request = true ∧
      completeAs request hostOwned root =
        (applyEdit pending.request (pending.createdFlags hostOwned) (pending.created hostOwned)
          pending.nodes >>= fun _ => settlePending pending) root := by
  unfold completeAs
  rw [observe_bind_apply]
  cases has : root.pending with
  | none =>
    refine .inl ⟨.stale, demand_bind_none rfl _ _ root, ?_⟩
    intro pending wrong
    cases wrong
  | some pending =>
    rw [demand_bind_some rfl, observe_bind_apply]
    cases authentic : root.authenticates pending request with
    | false =>
      refine .inl ⟨.stale, require_bind_false rfl _ _ root, ?_⟩
      rintro other ⟨rfl⟩ wrong
      rw [authentic] at wrong
      cases wrong
    | true =>
      rw [require_bind_true rfl]
      by_cases missing : pending.readsBacking hostOwned = true ∧ pending.firstSpare = none
      · have refused : createdBacking pending hostOwned root = (.error .stale, root) := by
          unfold createdBacking
          rw [missing.1, missing.2]
          rfl
        refine .inl ⟨.stale, bind_of_error refused, ?_⟩
        rintro other ⟨rfl⟩ _ _
        exact missing
      have found := createdBacking_of_source (fun reads absent => missing ⟨reads, absent⟩) root
      rw [bind_of_ok found, observe_bind_apply]
      by_cases enough : root.sparesRequired pending.request <= pending.nodes.length
      · rw [require_bind_true (decide_eq_true enough)]
        exact .inr ⟨pending, rfl, authentic, rfl⟩
      · refine .inl ⟨.stale, require_bind_false (decide_eq_false enough) _ _ root, ?_⟩
        rintro other ⟨rfl⟩ _ room
        exact absurd room enough

theorem settlePending_frame (pending : Pending) (root : Root) :
    ((settlePending pending root).2).tree = root.tree ∧
    ((settlePending pending root).2).minted = root.minted ∧
    ((settlePending pending root).2).retiredBelow = root.retiredBelow ∧
    ((settlePending pending root).2).mm = root.mm ∧
    SameIndex root (settlePending pending root).2 := by
  unfold settlePending
  rw [edit_bind_apply, observe_bind_apply]
  dsimp only
  cases Root.checkedNext root.generation with
  | none => exact ⟨rfl, rfl, rfl, rfl, rfl, rfl⟩
  | some generation => exact ⟨rfl, rfl, rfl, rfl, rfl, rfl⟩

variable {root : Root}

theorem settlePending_of_next (pending : Pending)
    (counter : (Root.checkedNext root.generation).isSome = true) :
    (settlePending pending root).1 = .ok pending.result ∧
      ((settlePending pending root).2).pending = none := by
  rcases Option.isSome_iff_exists.mp counter with ⟨generation, next⟩
  unfold settlePending
  rw [edit_bind_apply, observe_bind_apply]
  dsimp only
  rw [next, demand_bind_some rfl]
  exact ⟨rfl, rfl⟩

theorem authenticates_iff {request : ReservationRequest} :
    root.authenticates pending request = true <->
      request = pending.request ∧ pending.request.mm = root.mm ∧
        pending.request.generation = root.generation := by
  simp [Root.authenticates, and_assoc]

theorem createdFlags_file (pending : Pending) (hostOwned : Bool) :
    (pending.createdFlags hostOwned).contains .file = pending.flags.contains .file := by
  unfold Pending.createdFlags
  cases hostOwned with
  | false => rfl
  | true =>
    rw [if_pos rfl]
    unfold ReservationNodeFlags.contains ReservationNodeFlags.difference
    have same : pending.flags &&& ~~~ReservationNodeFlags.anonymous &&& ReservationNodeFlags.file =
        pending.flags &&& ReservationNodeFlags.file := by
      rw [BitVec.and_assoc]
      rfl
    rw [same]

/-- The source of the node that a completion creates reaches its last page and
is registered. -/
theorem PendingOk.created_ready (ok : PendingOk root pending) (hostOwned : Bool)
    (installs : pending.request.operation.installs = true) :
    (pending.request.createdNode (pending.createdFlags hostOwned)
        (pending.created hostOwned)).Reaches ∧
      ∀ source, pending.created hostOwned = some source ->
        (root.sourceFind source.name).isSome = true := by
  unfold Pending.created Pending.readsBacking
  rw [createdFlags_file, installs, Bool.and_true]
  cases file : pending.flags.contains .file with
  | false => exact ⟨nofun, nofun⟩
  | true =>
    rcases ok.file file installs with ⟨backing, first, registered, reaches⟩
    rw [if_pos rfl, first]
    refine ⟨reaches, ?_⟩
    rintro source ⟨rfl⟩
    exact registered

/-- On a sound root, the completion of the pending request goes through. -/
theorem completeAs_sound (sound : Sound root) (has : root.pending = some pending)
    {request : ReservationRequest} (authentic : root.authenticates pending request = true)
    (hostOwned : Bool) :
    ∃ after, completeAs request hostOwned root = (.ok pending.result, after) ∧ Sound after ∧
      Settled root after ∧ after.pending = none ∧
      pages after.tree = pending.request.commits (pending.createdFlags hostOwned)
        (pending.created hostOwned) (pages root.tree) := by
  have ok := sound.pending pending has
  rcases completeAs_cases request hostOwned root with
    ⟨reason, ran, missing⟩ | ⟨other, hasOther, _, ran⟩
  · rcases missing pending has authentic ok.spares with ⟨reads, absent⟩
    unfold Pending.readsBacking at reads
    rw [Bool.and_eq_true, createdFlags_file] at reads
    rcases ok.file reads.1 reads.2 with ⟨backing, first, _⟩
    rw [absent] at first
    cases first
  rw [has] at hasOther
  cases hasOther
  rcases applyEdit_spec pending.request (pending.createdFlags hostOwned)
    (pending.created hostOwned) pending.nodes sound.tidy with
    ⟨answer, edited, ranEdit, effects, tidy, done, goes⟩
  rcases goes ok.spares sound.counted (ok.created_ready hostOwned) with ⟨returned, settled⟩
  cases returned
  rcases authenticates_iff.mp authentic with ⟨_, _, generation⟩
  have counter : (Root.checkedNext edited.generation).isSome = true := by
    rw [effects.frame.generation, <- generation]
    exact ok.counter
  rcases settlePending_of_next pending counter with ⟨answered, cleared⟩
  rcases settlePending_frame pending edited with ⟨tree, _, _, _, index⟩
  refine ⟨(settlePending pending edited).2, ?_, ?_, ?_, cleared, ?_⟩
  · rw [ran, bind_of_ok ranEdit]
    exact Prod.ext answered rfl
  · refine ⟨tree ▸ tidy, settled.toCounted.congr tree index, fun other wrong => ?_⟩
    rw [cleared] at wrong
    cases wrong
  · exact settled.congr tree index
  · rw [tree]
    exact (done rfl).1

/-! ## What one call commits -/

/-- The outcome of a call that should change the map by `effect`: a refusal
leaves the tree as it was, an answer means that the effect is committed. -/
structure Performed {α : Type} (effect : (Nat -> Option Page) -> Nat -> Option Page)
    (before : Root) (answer : Except Refusal α) (after : Root) : Prop where
  sound : Sound after
  refused : ∀ reason, answer = .error reason -> after.tree = before.tree
  committed : ∀ value, answer = .ok value ->
    pages after.tree = effect (pages before.tree)

/-- A call that does so and settles the sources it touches. -/
structure Edited {α : Type} (effect : (Nat -> Option Page) -> Nat -> Option Page) (before : Root)
    (answer : Except Refusal α) (after : Root) : Prop extends
    Performed effect before answer after where
  settled : Settled before after

variable {before after : Root}

theorem Steady.settled (steady : Steady before after) (counted : Counted before) :
    Settled before after :=
  let same := steady.sources counted.index
  Settled.of_sameEntries (steady.counted counted) same.awaits same.counts

theorem Steady.settle {middle : Root} (steady : Steady before middle) (index : IndexOk before)
    (settled : Settled middle after) : Settled before after := by
  have same := steady.sources index
  refine ⟨settled.toCounted, fun name => ?_⟩
  rw [settled.awaits name, same.counts name, same.awaits name]

variable {α : Type}

theorem Edited.of_steady (soundBefore : Sound before) (steady : Steady before after)
    (sound : Sound after) (answer : Except Refusal α) :
    Edited id before answer after :=
  ⟨⟨sound, fun _ _ => steady.tree, fun _ _ => by rw [steady.tree]; rfl⟩,
    steady.settled soundBefore.counted⟩

variable {effect : (Nat -> Option Page) -> Nat -> Option Page}

theorem Edited.of_error (soundBefore : Sound before) (steady : Steady before after)
    (sound : Sound after) (reason : Refusal) :
    Edited effect before (.error reason : Except Refusal α) after :=
  ⟨⟨sound, fun _ _ => steady.tree, nofun⟩,
    steady.settled soundBefore.counted⟩

theorem Edited.setGeneration {middle : Root} {value : α}
    (edited : Edited effect before (.ok value : Except Refusal α) middle) (generation : Nat) :
    Ends (Edited effect before)
      (edit (fun root => { root with generation := generation }) : Guarded Unit) middle := by
  have untouched : Untouched middle { middle with generation := generation } :=
    ⟨rfl, rfl, rfl, rfl, rfl, rfl, rfl⟩
  exact ⟨⟨untouched.keepsSound edited.sound, nofun,
    fun _ _ => edited.committed value rfl⟩, edited.settled.congr rfl untouched.same_index⟩

theorem Edited.refusal {β : Type} {reason : Refusal}
    (edited : Edited effect before (.error reason : Except Refusal α) after) :
    Edited effect before (.error reason : Except Refusal β) after :=
  ⟨⟨edited.sound, fun _ _ => edited.refused reason rfl, nofun⟩,
    edited.settled⟩

theorem Edited.refused_here (sound : Sound root) (reason : Refusal) :
    Edited effect root (.error reason : Except Refusal α) root :=
  Edited.of_error sound (Steady.refl root) sound reason

theorem Edited.answering {command : Guarded α} {answer : α -> Answer}
    (ends : Ends (Edited effect root) command root) :
    Ends (Edited effect root) (answering answer command) root := by
  refine Ends.bind (fun reason after ran => (ends.of_eq ran).refusal) (fun value after ran => ?_)
  have edited := ends.of_eq ran
  exact ⟨⟨edited.sound, nofun,
    fun _ _ => edited.committed value rfl⟩, edited.settled⟩

/-- A command that maintains both the committed side and the invariant. -/
theorem Edited.of_relates (sound : Sound root) {command : Guarded α}
    (steady : Relates Steady command) (keeps : Ends (fun _ => Sound) command root) :
    Ends (Edited id root) command root :=
  Edited.of_steady sound (steady root) keeps _

/-! ## Inserting a node -/

variable {range : ReservationRange}

theorem isFree_iff (tidy : Tidy root.tree) :
    root.isFree range = true <-> Free root.tree range.start range.stop := by
  unfold Root.isFree Free
  cases found : root.next range.start with
  | none =>
    simp only [Option.all_none, true_iff]
    exact fun node member => .inl (next_eq_none tidy found node member)
  | some node =>
    rcases next_eq_some tidy found with ⟨member, reaches, others⟩
    have ordered := (tidy.formed node member).ordered
    rw [Option.all_some, decide_eq_true_eq]
    constructor
    · intro beyond other otherMember
      by_cases same : other = node
      · exact .inr (same ▸ beyond)
      · rcases others other otherMember same with below | above
        · exact .inl below.1
        · exact .inr (by omega)
    · intro free
      rcases free node member with below | above
      · omega
      · exact above

theorem registerSource_steady (backing : Option HostBackingIdentity) :
    Relates Steady (registerSource backing) := by
  cases backing with
  | none => exact Relates.pure _
  | some source => exact sourceReserve_steady source.name

theorem registerSource_pending (backing : Option HostBackingIdentity) (root : Root) :
    ((registerSource backing root).2).pending = root.pending := by
  cases backing with
  | none => rfl
  | some source => exact (sourceReserve_sameMap source.name root).pending

/-- The root in which a node is about to be created. -/
structure Inserting (node : Node) (before middle : Root) : Prop extends Steady before middle where
  idle : before.pending = none
  still_idle : middle.pending = none
  free : Free before.tree node.start node.stop
  reaches : node.Reaches
  registered : IndexOk before -> ∀ source, node.hostBacking = some source ->
    (middle.sourceFind source.name).isSome = true

theorem pending_of_not_excluded (included : (!root.editExcluded) = true) :
    root.pending = none := by
  unfold Root.editExcluded at included
  cases has : root.pending with
  | none => rfl
  | some pending =>
    rw [has] at included
    cases included

/-- An insertion is refused with the map unchanged, or it is a creation. -/
def Inserted (node : Node) (before : Root) (answer : Except Refusal Unit) (after : Root) : Prop :=
  (Steady before after ∧ after.pending = before.pending ∧ ∃ reason, answer = .error reason) ∨
  ∃ middle, Inserting node before middle ∧ createNode node middle = (answer, after)

theorem insertBackedNode_inserted (tidy : Tidy root.tree) (range : ReservationRange)
    (prot : ReservationProtection) (flags : ReservationNodeFlags)
    (backing : Option HostBackingIdentity) :
    Ends (Inserted ⟨range.start, range.stop, prot, flags, 0, backing⟩ root)
      (insertBackedNode range prot flags backing) root := by
  have refused : ∀ reason, Inserted ⟨range.start, range.stop, prot, flags, 0, backing⟩ root
      (.error reason) root := fun reason => .inl ⟨Steady.refl root, rfl, reason, rfl⟩
  refine Ends.require (refused _) (fun reaching => Ends.observe ?_)
  refine Ends.require (refused _) (fun _ => Ends.observe ?_)
  refine Ends.require (refused _) (fun included => Ends.observe ?_)
  refine Ends.require (refused _) (fun free => ?_)
  have idle := pending_of_not_excluded included
  have taken := hostNode_untouched root
  refine Ends.bind (fun reason first ran => ?_) (fun spare first ran => ?_)
  · rw [ran] at taken
    exact .inl ⟨taken.steady, taken.pending, reason, rfl⟩
  rw [ran] at taken
  have steady := registerSource_steady backing first
  have same := registerSource_pending backing first
  refine Ends.bind (fun reason middle registering => ?_) (fun done middle registering => ?_)
  · rw [registering] at steady same
    exact .inl ⟨Steady.trans _ _ _ taken.steady steady, same.trans taken.pending, reason, rfl⟩
  rw [registering] at steady same
  refine .inr ⟨middle, ⟨Steady.trans _ _ _ taken.steady steady, idle,
    (same.trans taken.pending).trans idle, (isFree_iff tidy).mp free, ?_, ?_⟩, rfl⟩
  · intro source hasSource
    have present : backing = some source := hasSource
    rw [present] at reaching
    have inside := HostBackingIdentity.advance_isSome_iff.mp reaching
    change source.offset + range.len < _
    omega
  intro index source hasSource
  have present : backing = some source := hasSource
  rw [present] at registering
  have spec := (sourceReserve_spec (index.congr taken.same_index) source.name).2
  have reserved : sourceReserve source.name first = (.ok done, middle) := registering
  rw [reserved] at spec
  exact spec rfl

theorem Inserted.edited (sound : Sound root) {prot : ReservationProtection}
    {flags : ReservationNodeFlags} {backing : Option HostBackingIdentity}
    {answer : Except Refusal Unit}
    (inserted : Inserted ⟨range.start, range.stop, prot, flags, 0, backing⟩ root answer after) :
    Edited (mapped range prot flags backing) root answer after := by
  rcases inserted with ⟨steady, same, reason, refused⟩ | ⟨middle, inserting, ran⟩
  · cases refused
    exact Edited.of_error sound steady (sound.same_pending steady same) reason
  have tree := inserting.tree
  have tidy : Tidy middle.tree := tree ▸ sound.tidy
  have free : Free middle.tree range.start range.stop := tree ▸ inserting.free
  have formed := range_formed range prot flags 0 backing
  rcases createNode_counted tidy (inserting.toSteady.counted sound.counted) formed free
    inserting.reaches (inserting.registered sound.counted.index) with
    ⟨final, returned, settled, more⟩
  rw [ran] at returned
  cases returned
  rcases createNode_spec tidy formed free with ⟨_, _, wrong, _⟩ | ⟨final, same, created⟩
  · rw [ran] at wrong
    cases wrong
  rw [ran] at same
  cases same
  refine ⟨⟨⟨created.tidy, settled.toCounted, ?_⟩, nofun, ?_⟩, ?_⟩
  · intro pending wrong
    rw [created.pending, inserting.still_idle] at wrong
    cases wrong
  · intro _ _
    rw [created.pages_eq, tree]
  · exact inserting.toSteady.settle sound.counted.index settled

theorem importRow_edited (sound : Sound root) (range : ReservationRange)
    (prot : ReservationProtection) (flags : ReservationNodeFlags)
    (backing : Option HostBackingIdentity) :
    Ends (Edited (mapped range prot flags backing) root) (importRow range prot flags backing)
      root := by
  refine Ends.observe (Ends.require (Edited.refused_here sound _) (fun _ => ?_))
  exact (insertBackedNode_inserted sound.tidy range prot flags backing).edited sound

/-! ## Host edits -/

theorem hostEditAdmitted_cases (root : Root) :
    (∃ reason, hostEditAdmitted root = (.error reason, root)) ∨
    ∃ generation, hostEditAdmitted root = (.ok generation, root) ∧ root.pending = none := by
  unfold hostEditAdmitted
  rw [observe_bind_apply]
  cases admitted : root.admitted with
  | false => exact .inl ⟨.stale, rfl⟩
  | true =>
    rw [require_bind_true rfl, observe_bind_apply]
    cases included : !root.editExcluded with
    | false => exact .inl ⟨.busy, rfl⟩
    | true =>
      rw [require_bind_true rfl, observe_bind_apply]
      cases Root.checkedNext root.generation with
      | none => exact .inl ⟨.stale, rfl⟩
      | some generation =>
        exact .inr ⟨generation, rfl, pending_of_not_excluded included⟩

theorem hostEditAdmitted_bind_ends {post : Except Refusal α -> Root -> Prop}
    {next : Nat -> Guarded α} (refused : ∀ reason, post (.error reason) root)
    (rest : root.pending = none -> ∀ generation, Ends post (next generation) root) :
    Ends post (hostEditAdmitted >>= next) root := by
  rcases hostEditAdmitted_cases root with ⟨reason, ran⟩ | ⟨generation, ran, idle⟩
  · unfold Ends
    rw [bind_of_error ran]
    exact refused reason
  · unfold Ends
    rw [bind_of_ok ran]
    exact rest idle generation

theorem insertOpaqueBacked_edited (sound : Sound root) (range : ReservationRange)
    (prot : ReservationProtection) (flags : ReservationNodeFlags)
    (backing : Option HostBackingIdentity) :
    Ends (Edited (mapped range prot (flags.difference .anonymous) backing) root)
      (insertOpaqueBacked range prot flags backing) root := by
  have inserted := insertBackedNode_inserted sound.tidy range prot (flags.difference .anonymous)
    backing
  refine Ends.observe (Ends.require (Edited.refused_here sound _) (fun _ => ?_))
  refine hostEditAdmitted_bind_ends (fun _ => Edited.refused_here sound _) (fun _ generation => ?_)
  refine Ends.bind (fun reason after ran => ?_) (fun done middle ran => ?_)
  · exact (Inserted.edited sound (inserted.of_eq ran)).refusal
  · exact (Inserted.edited sound (inserted.of_eq ran)).setGeneration generation

theorem retireOpaque_edited (sound : Sound root) (range : ReservationRange) :
    Ends (Edited (unmapped range) root) (retireOpaque range) root := by
  refine Ends.observe (Ends.require (Edited.refused_here sound _) (fun _ => ?_))
  refine hostEditAdmitted_bind_ends (fun _ => Edited.refused_here sound _) (fun idle generation => ?_)
  refine Ends.observe ?_
  have taken := allocateSpares_untouched (root.splitsNeeded range) root
  refine Ends.bind (fun reason middle ran => ?_) (fun spares middle ran => ?_)
  · rw [ran] at taken
    exact Edited.of_error sound taken.steady (taken.keepsSound sound) reason
  rw [ran] at taken
  have tidy : Tidy middle.tree := taken.tree ▸ sound.tidy
  have enough : middle.splitsNeeded range <= spares.length := by
    rw [allocateSpares_length ran]
    unfold Root.splitsNeeded Root.straddles Root.next
    rw [taken.tree]
  rcases removeRange_effect range spares tidy with ⟨answer, after, removed, emptied, done, goes⟩
  rcases goes enough (taken.steady.counted sound.counted) with ⟨⟨rest, returned⟩, released⟩
  cases returned
  unfold Ends
  rw [bind_of_ok removed]
  have edited : Edited (unmapped range) root (.ok () : Except Refusal Unit) after := by
    refine ⟨⟨⟨emptied.tidy, released.toCounted, fun pending wrong => ?_⟩,
      nofun, fun _ _ => ?_⟩,
      taken.steady.settle sound.counted.index released.toSettled⟩
    · rw [emptied.pending, taken.pending, idle] at wrong
      cases wrong
    · rw [(done rest rfl).2.1, taken.tree]
  exact edited.setGeneration generation

/-! ## Attribute edits -/

/-- The map with attributes set and cleared on a range. -/
def attributed (range : ReservationRange) (set clear : ReservationNodeFlags) :
    (Nat -> Option Page) -> Nat -> Option Page :=
  rewritten range (fun page => { page with flags := (page.flags.union set).difference clear })

variable {set : ReservationNodeFlags}

theorem attributes_keep_anonymous {clear : ReservationNodeFlags}
    (setting : ReservationNodeFlags.attributes.contains set = true)
    (clearing : ReservationNodeFlags.attributes.contains clear = true)
    (flags : ReservationNodeFlags) :
    ((flags.union set).difference clear).contains .anonymous = flags.contains .anonymous := by
  unfold ReservationNodeFlags.contains at *
  rw [decide_eq_true_eq] at setting clearing
  have first : set[0] = false := by
    rw [<- setting, BitVec.getElem_and]
    rfl
  have second : clear[0] = false := by
    rw [<- clearing, BitVec.getElem_and]
    rfl
  have same : (flags.union set).difference clear &&& ReservationNodeFlags.anonymous =
      flags &&& ReservationNodeFlags.anonymous := by
    ext i inside
    unfold ReservationNodeFlags.union ReservationNodeFlags.difference ReservationNodeFlags.anonymous
    simp only [BitVec.getElem_and, BitVec.getElem_or, BitVec.getElem_not]
    cases i with
    | zero =>
      rw [first, second]
      simp
    | succ i => simp
  rw [same]

theorem attributesCheckedFrom_covers (tidy : Tidy root.tree) {fuel cursor final : Nat}
    (passed : attributesCheckedFrom root range set fuel cursor = .ok final) :
    ∀ address, cursor <= address -> address < final -> cells root.tree address ≠ none := by
  induction fuel generalizing cursor with
  | zero =>
    cases passed
    intro address above below
    omega
  | succ fuel ih =>
    unfold attributesCheckedFrom at passed
    split at passed
    · cases passed
      intro address above below
      omega
    rename_i node found
    have searched := (Option.filter_eq_some_iff.mp found).1
    rcases next_eq_some tidy searched with ⟨member, reaches, _⟩
    split at passed
    · cases passed
    split at passed
    · cases passed
    rename_i atCursor
    have here : ∀ address, cursor <= address -> address < node.stop ->
        cells root.tree address ≠ none := by
      intro address above below
      rw [cells_of_mem tidy member ⟨by omega, below⟩]
      exact Option.some_ne_none _
    intro address above below
    by_cases inside : address < node.stop
    · exact here address above inside
    split at passed
    · rename_i last
      cases passed
      omega
    · exact ih passed address (by omega) below

theorem attributesChecked_covers (tidy : Tidy root.tree)
    (passed : attributesChecked root range set = .ok ()) :
    ∀ address, range.contains address = true -> cells root.tree address ≠ none := by
  unfold attributesChecked at passed
  rcases except_bind_eq_ok passed with ⟨final, walked, whole⟩
  have reached : final = range.stop := by
    by_contra short
    rw [if_pos short] at whole
    cases whole
  intro address inside
  have bounds := ReservationRange.contains_iff.mp inside
  exact attributesCheckedFrom_covers tidy walked address bounds.1 (reached ▸ bounds.2)

/-- An attribute edit is refused with the map unchanged, or it recolours a
fully mapped range. -/
def Attributed (range : ReservationRange) (set clear : ReservationNodeFlags) (before : Root)
    (answer : Except Refusal Unit) (after : Root) : Prop :=
  (Untouched before after ∧ ∃ reason, answer = .error reason) ∨
  ∃ middle edited generation, Untouched before middle ∧ middle.pending = none ∧
    Recoloured middle edited ∧ SameIndex middle edited ∧
    (Counted middle -> Counted edited) ∧
    pages edited.tree = attributed range set clear (pages middle.tree) ∧
    answer = .ok () ∧ after = { edited with generation := generation }

theorem setFlags_attributed (tidy : Tidy root.tree) (range : ReservationRange)
    (set clear : ReservationNodeFlags) :
    Ends (Attributed range set clear root) (setFlags range set clear) root := by
  have refused : ∀ reason, Attributed range set clear root (.error reason) root :=
    fun reason => .inl ⟨Untouched.refl root, reason, rfl⟩
  refine Ends.require (refused _) (fun bits => ?_)
  refine hostEditAdmitted_bind_ends (fun _ => refused _) (fun idle generation => ?_)
  refine Ends.observe (Ends.ofExcept refused (fun _ passed => Ends.observe ?_))
  have covered := attributesChecked_covers tidy passed
  have taken := allocateSpares_untouched (root.splitsNeeded range) root
  refine Ends.bind (fun reason middle ran => ?_) (fun spares middle ran => ?_)
  · rw [ran] at taken
    exact .inl ⟨taken, reason, rfl⟩
  rw [ran] at taken
  have tidyMiddle : Tidy middle.tree := taken.tree ▸ tidy
  have enough : middle.splitsNeeded range <= spares.length := by
    rw [allocateSpares_length ran]
    unfold Root.splitsNeeded Root.straddles Root.next
    rw [taken.tree]
  rcases splitBounds_spec range spares tidyMiddle with ⟨cutTree, answer, split, recut, _, done, room⟩
  rcases room enough with ⟨rest, returned⟩
  cases returned
  rcases done rest rfl with ⟨cutStart, cutStop, _⟩
  rcases rewriteFlags_spec range set clear range.pages { middle with tree := cutTree }
    (RewrittenTo.start recut.tidy cutStart cutStop) (Nat.le_of_lt range.ordered)
    range.start_aligned range.le_pages (fun address inside => by
      rw [recut.cells_eq, taken.tree]
      exact covered address inside) with ⟨tree, walked, rewritten⟩
  rw [Bool.and_eq_true, Bool.and_eq_true] at bits
  have colours : ∀ address, cells tree address =
      if range.contains address = true then
        (cells middle.tree address).map (attributesAs set clear).cell
      else cells middle.tree address := by
    intro address
    rw [rewritten.cells_eq, recut.cells_eq]
    exact if_congr ReservationRange.contains_iff.symm rfl rfl
  unfold Ends
  rw [bind_of_ok split, bind_of_ok walked]
  refine .inr ⟨middle, { middle with tree := tree }, generation, taken,
    taken.pending.trans idle, ⟨⟨rfl, rfl, rfl, rfl, rfl, rfl, rfl⟩, rewritten.tidy, rfl, rfl, ?_⟩,
    ⟨rfl, rfl⟩, ?_, ?_, rfl, rfl⟩
  · intro address
    change (cells tree address).map Cell.life = _
    rw [colours]
    split
    · rw [Option.map_map]
      refine congrArg (fun change => Option.map change (cells middle.tree address)) ?_
      funext cell
      exact Prod.ext rfl (attributes_keep_anonymous bits.1.1 bits.1.2 cell.flags)
    · rfl
  · intro counted
    rcases rewritten.sources (counted.recut recut).reaching with ⟨reaching, totals⟩
    refine ⟨counted.index.congr ⟨rfl, rfl⟩, reaching, fun name => ?_⟩
    rw [totals]
    exact (counted.recut recut).counts name
  funext address
  unfold attributed Reservation.rewritten pages
  rw [colours]
  split
  · rw [Option.map_map, Option.map_map]
    rfl
  · rfl

theorem Attributed.edited (sound : Sound root) {clear : ReservationNodeFlags}
    {answer : Except Refusal Unit} (outcome : Attributed range set clear root answer after) :
    Edited (attributed range set clear) root answer after := by
  rcases outcome with ⟨untouched, reason, refused⟩ |
    ⟨middle, edited, generation, taken, idle, recoloured, index, counts, pages, answered, same⟩
  · cases refused
    exact Edited.of_error sound untouched.steady (untouched.keepsSound sound) reason
  cases answered
  cases same
  have counted := taken.steady.counted sound.counted
  have countedAfter : Counted { edited with generation := generation } :=
    (counts counted).congr rfl ⟨rfl, rfl⟩
  refine ⟨⟨⟨recoloured.tidy, countedAfter, fun pending wrong => ?_⟩,
    nofun, fun _ _ => ?_⟩, ?_⟩
  · have wrongly : edited.pending = some pending := wrong
    rw [recoloured.pending, idle] at wrongly
    cases wrongly
  · change Reservation.pages edited.tree = _
    rw [pages, taken.tree]
  · refine taken.steady.settle sound.counted.index ?_
    exact (Released.of_sameIndex countedAfter index).toSettled

end Reservation
end Carrick

import Carrick.Zone.Wakes

namespace Carrick
namespace Zone

open Foundation

/-!
# What a requeue moves

A requeue walks along the queue of its source and appends each live waiter of the
old address to the queue of the new one.  Where both addresses share a bucket the
walk meets what it appended at the end, and passes over it because the entry has
the new address by then.
-/

/-- The queues after `moved` went to the end of `target`. -/
def appended (target : Nat) (moved : List Nat) (queue : Nat -> List Nat) : Nat -> List Nat :=
  fun bucket => without moved queue bucket ++ if bucket = target then moved else []

section Appended

variable {queue : Nat -> List Nat} {bucket target id : Nat} {moved : List Nat}

theorem appended_nil : appended target [] queue = queue := by
  funext bucket
  unfold appended
  rw [without_nil]
  simp

theorem appended_one (nodup : (queue bucket).Nodup)
    (only : ∀ other, id ∈ queue other -> other = bucket) :
    Function.update (Function.update queue bucket ((queue bucket).erase id)) target
        (Function.update queue bucket ((queue bucket).erase id) target ++ [id]) =
      appended target [id] queue := by
  rw [without_one nodup only]
  funext other
  unfold appended
  by_cases same : other = target
  · rw [same, Function.update_self, if_pos rfl]
  · rw [Function.update_of_ne same, if_neg same, List.append_nil]

theorem appended_cons (apart : id ∉ moved) :
    appended target moved (appended target [id] queue) = appended target (id :: moved) queue := by
  funext bucket
  unfold appended
  have kept : without moved (fun bucket => without [id] queue bucket ++
      if bucket = target then [id] else []) bucket =
      without (id :: moved) queue bucket ++ if bucket = target then [id] else [] := by
    rw [<- @without_cons queue id moved]
    unfold without
    rw [List.filter_append]
    congr 1
    split_ifs
    · simp [apart]
    · rfl
  rw [kept]
  split_ifs
  · simp
  · simp

/-- What is left of the source behind the cursor, and what was appended to it. -/
theorem appended_middle {front rest tail : List Nat} (nodup : (queue bucket).Nodup)
    (shape : queue bucket = front ++ id :: (rest ++ tail)) :
    appended target [id] queue bucket =
      front ++ (rest ++ (tail ++ if bucket = target then [id] else [])) := by
  unfold appended
  rw [without_middle nodup shape]
  simp

end Appended

/-- A requeue moved `hits` to the end of its target and did nothing else: no
record changes, and the other entries are as before. -/
structure Moved (zone later : Tables) (queue chain : Nat -> List Nat) (target destination : Nat)
    (hits : List Nat) : Prop where
  formed : Formed later (appended target hits queue) chain
  renamed : ∀ id ∈ hits, (later.entry id).bare =
    { (zone.entry id).bare with uaddr := destination, bucket := target }
  entries : ∀ id, id ∉ hits -> (later.entry id).bare = (zone.entry id).bare
  records : later.record = zone.record

namespace Moved

variable {zone middle later : Tables} {queue chain : Nat -> List Nat}
  {target destination id : Nat} {hits : List Nat}

theorem refl (formed : Formed zone queue chain) : Moved zone zone queue chain target destination []
    where
  formed := by
    rw [appended_nil]
    exact formed
  renamed := by
    intro id wrong
    cases wrong
  entries := fun _ _ => rfl
  records := rfl

theorem cons (first : Moved zone middle queue chain target destination [id])
    (rest : Moved middle later (appended target [id] queue) chain target destination hits)
    (apart : id ∉ hits) : Moved zone later queue chain target destination (id :: hits) where
  formed := by
    have formed := rest.formed
    rw [appended_cons apart] at formed
    exact formed
  renamed := by
    intro node listed
    rcases List.mem_cons.mp listed with same | moved
    · rw [same, rest.entries id apart]
      exact first.renamed id (by simp)
    · have other : node ≠ id := fun wrong => apart (wrong ▸ moved)
      rw [rest.renamed node moved, first.entries node (by simpa using other)]
  entries := by
    intro node absent
    rw [List.mem_cons, not_or] at absent
    rw [rest.entries node absent.2]
    exact first.entries node (by simpa using absent.1)
  records := rest.records.trans first.records

theorem eligible (first : Moved zone later queue chain target destination [id]) {node mm uaddr : Nat}
    {bitset : Nat} (apart : node ≠ id) :
    later.eligible mm uaddr bitset node = zone.eligible mm uaddr bitset node := by
  have kept := first.entries node (by simpa using apart)
  unfold Tables.eligible
  rw [ZoneEntry.bare_reads ZoneEntry.record (fun _ => rfl) kept,
    ZoneEntry.bare_reads ZoneEntry.seq (fun _ => rfl) kept,
    ZoneEntry.bare_reads ZoneEntry.mm (fun _ => rfl) kept,
    ZoneEntry.bare_reads ZoneEntry.uaddr (fun _ => rfl) kept,
    ZoneEntry.bare_reads ZoneEntry.bitset (fun _ => rfl) kept, first.records]

theorem not_eligible (first : Moved zone later queue chain target destination [id])
    {mm origin bitset : Nat} (apart : origin ≠ destination) :
    later.eligible mm origin bitset id = none := by
  have renamed := first.renamed id (by simp)
  have address : (later.entry id).uaddr = destination := by
    rw [ZoneEntry.bare_reads ZoneEntry.uaddr (fun _ => rfl)
      (show (later.entry id).bare = ({ (zone.entry id).bare with
        uaddr := destination, bucket := target } : ZoneEntry).bare from renamed)]
  unfold Tables.eligible
  rw [if_pos (.inr (.inl (fun wrong => apart (wrong.symm.trans address))))]

end Moved

/-! ## The walk -/

section Walk

variable {source target mm origin destination : Nat} {zone : Tables}
  {queue chain : Nat -> List Nat}

theorem requeueVisit_none {id : Nat} (passed : zone.eligible mm origin 4294967295 id = none) :
    Tables.requeueVisit source target mm origin destination zone id = none := by
  rw [Tables.requeueVisit, passed]

theorem requeueVisit_some {id record : Nat} (formed : Formed zone queue chain)
    (inQueue : id ∈ queue source) (hashes : target = bucketOf mm destination)
    (found : zone.eligible mm origin 4294967295 id = some record) :
    ∃ later, Tables.requeueVisit source target mm origin destination zone id = some later ∧
      Moved zone later queue chain target destination [id] := by
  have only : ∀ other, id ∈ queue other -> other = source :=
    fun other inOther => formed.queued.apart other source id inOther inQueue
  have sameMm := (eligible_some.mp found).1
  refine ⟨((zone.unlink source id).setEntry id
    { (zone.unlink source id).entry id with uaddr := destination }).linkTail target id, ?_, ?_⟩
  · rw [Tables.requeueVisit, found]
  constructor
  case formed =>
    rw [<- appended_one (formed.queued.nodup source) only]
    exact formed.move inQueue (hashes.trans (by rw [sameMm]))
  case renamed =>
    intro node listed
    rw [List.mem_singleton.mp listed, linkTail_bare, if_pos rfl, setEntry_entry, if_pos rfl,
      <- unlink_bare zone]
    rfl
  case entries =>
    intro node absent
    have apart : node ≠ id := by simpa using absent
    rw [linkTail_bare, if_neg apart, setEntry_entry, if_neg apart, unlink_bare]
  case records =>
    rw [linkTail_record]
    exact unlink_record zone

theorem requeue_idle {tail front : List Nat} {fuel limit : Nat} (queued : Queued zone queue)
    (shape : queue source = front ++ tail)
    (idle : ∀ id ∈ tail, zone.eligible mm origin 4294967295 id = none) :
    Tables.walk (Tables.requeueVisit source target mm origin destination) fuel
      (tail.head?.getD 0) limit zone = (zone, []) := by
  induction tail generalizing front fuel with
  | nil => exact walk_end zone fuel limit
  | cons id rest ih =>
    cases fuel with
    | zero => rfl
    | succ fuel =>
      cases limit with
      | zero => rfl
      | succ limit =>
        have nonzero : id ≠ 0 := fun wrong =>
          queued.nonzero source (by rw [shape, wrong]; simp)
        rw [List.head?_cons, Option.getD_some,
          walk_pass nonzero (requeueVisit_none (idle id (by simp))), next_eq queued shape]
        refine @ih (front ++ [id]) fuel ?_ ?_
        · rw [shape]
          simp
        · exact fun node listed => idle node (List.mem_cons_of_mem _ listed)

/-- A walk moves the first of the entries that it has not passed; `tail` is what it
has appended itself. -/
theorem requeue_walk (apart : origin ≠ destination) (hashes : target = bucketOf mm destination)
    {rest front tail : List Nat} {zone : Tables} {queue : Nat -> List Nat} {fuel limit cursor : Nat}
    (formed : Formed zone queue chain) (shape : queue source = front ++ (rest ++ tail))
    (idle : ∀ id ∈ tail, zone.eligible mm origin 4294967295 id = none)
    (enough : 2 * rest.length + tail.length < fuel)
    (starts : cursor = (rest ++ tail).head?.getD 0 ∨ (cursor = 0 ∧ rest = [])) :
    Moved zone (Tables.walk (Tables.requeueVisit source target mm origin destination) fuel cursor
        limit zone).1 queue chain target destination
        (Tables.walk (Tables.requeueVisit source target mm origin destination) fuel cursor
          limit zone).2 ∧
      (Tables.walk (Tables.requeueVisit source target mm origin destination) fuel cursor
          limit zone).2 =
        (rest.filter (fun id => (zone.eligible mm origin 4294967295 id).isSome)).take limit := by
  induction rest generalizing front tail zone queue fuel limit cursor with
  | nil =>
    have still : Tables.walk (Tables.requeueVisit source target mm origin destination) fuel cursor
        limit zone = (zone, []) := by
      rcases starts with same | ⟨zero, _⟩
      · rw [same]
        exact requeue_idle formed.queued shape idle
      · rw [zero]
        exact walk_end zone fuel limit
    rw [still]
    exact ⟨Moved.refl formed, by simp⟩
  | cons id rest ih =>
    have here : cursor = id := by
      rcases starts with same | ⟨_, wrong⟩
      · exact same
      · cases wrong
    subst here
    rw [List.cons_append] at shape
    rw [List.length_cons] at enough
    have inQueue : cursor ∈ queue source := by
      rw [shape]
      simp
    have nonzero : cursor ≠ 0 := fun wrong => formed.queued.nonzero source (wrong ▸ inQueue)
    have once : (front ++ cursor :: (rest ++ tail)).Nodup := shape ▸ formed.queued.nodup source
    have absent : cursor ∉ rest ++ tail := (List.nodup_cons.mp (List.nodup_append.mp once).2.1).1
    cases fuel with
    | zero => exact absurd enough (Nat.not_lt_zero _)
    | succ fuel =>
      cases limit with
      | zero => exact ⟨Moved.refl formed, by simp [Tables.walk]⟩
      | succ limit =>
        cases found : zone.eligible mm origin 4294967295 cursor with
        | none =>
          rw [walk_pass nonzero (requeueVisit_none found), next_eq formed.queued shape,
            List.filter_cons_of_neg (by simp [found])]
          refine @ih (front ++ [cursor]) tail zone queue fuel (limit + 1)
            _ formed ?_ idle (by omega) (.inl rfl)
          rw [shape]
          simp
        | some record =>
          rcases requeueVisit_some formed inQueue hashes found with ⟨later, hit, moved⟩
          rw [walk_hit nonzero hit, next_eq formed.queued shape,
            List.filter_cons_of_pos (by simp [found]), List.take_succ_cons]
          have walked := @ih front
            (tail ++ if source = target then [cursor] else []) later
            (appended target [cursor] queue) fuel limit ((rest ++ tail).head?.getD 0)
            moved.formed (appended_middle (formed.queued.nodup source) shape) ?_ ?_ ?_
          · have same : rest.filter
                (fun id => (later.eligible mm origin 4294967295 id).isSome) =
                rest.filter (fun id => (zone.eligible mm origin 4294967295 id).isSome) := by
              refine List.filter_congr ?_
              intro node listed
              rw [moved.eligible
                (fun wrong => absent (List.mem_append_left _ (wrong ▸ listed)))]
            rw [same] at walked
            refine ⟨moved.cons walked.1 ?_, congrArg _ walked.2⟩
            rw [walked.2]
            intro wrong
            exact absent (List.mem_append_left _
              (List.mem_of_mem_filter (List.mem_of_mem_take wrong)))
          · intro node listed
            rcases List.mem_append.mp listed with older | new
            · rw [moved.eligible
                (fun wrong => absent (List.mem_append_right _ (wrong ▸ older)))]
              exact idle node older
            · split_ifs at new with same
              · rw [List.mem_singleton.mp new]
                exact moved.not_eligible apart
              · cases new
          · have one : (if source = target then [cursor] else []).length <= 1 := by
              split_ifs
              · simp
              · simp
            rw [List.length_append]
            omega
          rcases List.eq_nil_or_concat (rest ++ tail) with empty | ⟨earlier, last, concat⟩
          · exact .inr ⟨by rw [empty]; rfl, (List.append_eq_nil_iff.mp empty).1⟩
          refine .inl ?_
          rw [<- List.append_assoc, concat, List.concat_eq_append, List.append_assoc,
            List.head?_append, List.head?_append]
          cases earlier with
          | nil => rfl
          | cons head more => rfl

end Walk

end Zone
end Carrick

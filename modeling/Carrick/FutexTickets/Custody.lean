import Carrick.FutexTickets.Account

namespace Carrick
namespace FutexTickets

open Foundation

/-!
# Every ticket ends once

A departure that locks the queue its ticket is on ends the ticket or finds it
ended.  A departure whose ticket a requeue moved to another queue between the two
does not, and the runs below exclude exactly that.
-/

variable {hash : FutexKey -> Nat}

structure Sound (hash : FutexKey -> Nat) (history : List Event) (table : Table) : Prop where
  placed : Placed hash table
  references : References table
  account : Account history table

/-- If the step is the locked section of a dequeue whose ticket is queued, the
section has locked the queue that the ticket is on. -/
def Current (table later : Table) : Prop :=
  ∀ thread id shard slot, table.thread thread = .dequeueAt id shard ->
    later.thread thread ≠ .dequeueAt id shard -> table.slots id = some slot ->
    slot.state = .queued -> slot.queue = shard

/-- The number of the next ticket does not wrap around when a ticket is reserved. -/
def Unwrapped (table : Table) (event : Event) : Prop :=
  ∀ id key, event = .reserved id key -> table.nextTicket + 1 < wordLimit

/-- The steps that meet the condition. -/
def Careful (hash : FutexKey -> Nat) (before : Table) (event : Event) (after : Table) : Prop :=
  Step hash before event after ∧ Current before after ∧ Unwrapped before event

section Quiet

variable {table : Table} {history : List Event} {thread id : Nat} {slot after : FutexQueueSlot}
  {phase : Phase} {event : Event}

theorem Sound.refer (sound : Sound hash history table) (neutral : event.Neutral)
    (found : table.slots id = some slot) (live : slot.life = .live)
    (same : after.place = slot.place) : Sound hash (event :: history) (table.setSlot id after) := by
  have places := samePlaces_setSlot found same
  refine ⟨sound.placed.congr rfl places, ?_, sound.account.neutral neutral places⟩
  refine sound.references.change rfl ?_ (fun _ => .inl rfl)
  intro ticket
  by_cases self : ticket = id
  · subst self
    exact .inr ⟨slot, after, found, live, setSlot_self table after,
      ((place_congr same).2.2.2).trans live⟩
  · exact .inl (setSlot_other table after self)

theorem References.enter (references : References table) (plain : phase.Plain)
    (holds : ∀ ticket, phase.Holds ticket -> ∀ known, table.slots ticket = some known ->
      known.life = .live) : References (table.setThread thread phase) := by
  refine references.change rfl (fun _ => .inl rfl) ?_
  intro other
  by_cases self : other = thread
  · subst self
    rw [setThread_self]
    exact .inr ⟨plain, holds⟩
  · exact .inl (setThread_other table phase self)

theorem Sound.enter (sound : Sound hash (event :: history) table) (plain : phase.Plain)
    (holds : ∀ ticket, phase.Holds ticket -> ∀ known, table.slots ticket = some known ->
      known.life = .live) : Sound hash (event :: history) (table.setThread thread phase) :=
  ⟨sound.placed.congr rfl (fun _ => rfl), sound.references.enter plain holds,
    ⟨sound.account.woken, sound.account.released, sound.account.placed⟩⟩

theorem holds_live (found : table.slots id = some slot) (live : slot.life = .live)
    (only : ∀ ticket, phase.Holds ticket -> ticket = id) :
    ∀ ticket, phase.Holds ticket -> ∀ known, table.slots ticket = some known ->
      known.life = .live := by
  intro ticket holding known foundKnown
  rw [only ticket holding, found] at foundKnown
  cases foundKnown
  exact live

theorem Sound.call (sound : Sound hash history table) (neutral : event.Neutral)
    (found : table.slots id = some slot) (live : slot.life = .live) (same : after.place = slot.place)
    (plain : phase.Plain) (only : ∀ ticket, phase.Holds ticket -> ticket = id) :
    Sound hash (event :: history) ((table.setSlot id after).setThread thread phase) := by
  have referred : Sound hash (event :: history) (table.setSlot id after) :=
    sound.refer neutral found live same
  refine referred.enter plain (holds_live (setSlot_self table after) ?_ only)
  exact ((place_congr same).2.2.2).trans live

theorem Sound.find (sound : Sound hash history table) (neutral : event.Neutral)
    (found : table.slots id = some slot) (live : slot.life = .live) (plain : phase.Plain)
    (only : ∀ ticket, phase.Holds ticket -> ticket = id) :
    Sound hash (event :: history) (table.setThread thread phase) :=
  ⟨sound.placed.congr rfl (fun _ => rfl),
    sound.references.enter plain (holds_live found live only),
    sound.account.neutral neutral (fun _ => rfl)⟩

theorem Account.release {later : Table} (account : Account history table)
    (found : table.slots id = some slot) (waiting : releasedCount (some slot) = 0)
    (unwoken : slot.state ≠ .woken) (foundAfter : later.slots id = some after)
    (ended : releasedCount (some after) = 1) (stays : after.state ≠ .woken)
    (bucket : after.bucket = slot.bucket)
    (others : ∀ ticket, ticket ≠ id -> later.slots ticket = table.slots ticket) :
    Account (.released id :: history) later := by
  refine ⟨?_, ?_, ?_⟩
  · intro ticket
    show (consumedIn history).count ticket = _
    rw [account.woken]
    by_cases self : ticket = id
    · subst self
      rw [found, foundAfter, wokenCount_some, wokenCount_some, if_neg unwoken, if_neg stays]
    · rw [others ticket self]
  · intro ticket
    show (id :: releasedIn history).count ticket = _
    rw [List.count_cons, account.released]
    by_cases self : ticket = id
    · subst self
      rw [found, foundAfter, waiting, ended]
      simp
    · rw [others ticket self, if_neg (by simpa using fun same => self same.symm), Nat.add_zero]
  intro ticket known foundKnown
  show lastPlace history ticket = _
  by_cases self : ticket = id
  · subst self
    rw [foundAfter] at foundKnown
    cases foundKnown
    rw [bucket]
    exact account.placed ticket slot found
  · rw [others ticket self] at foundKnown
    exact account.placed ticket known foundKnown

theorem Sound.depart {shard : Nat} (sound : Sound hash history table)
    (found : table.slots id = some slot) (live : slot.life = .live) (queued : slot.state = .queued)
    (there : slot.queue = shard) :
    Sound hash (.released id :: history)
      ((table.setQueue shard ((table.queues shard).remove id).1).setSlot id
        { slot with state := .released, tokens := slot.tokens + 1 }) := by
  refine ⟨?_, ?_, ?_⟩
  · refine sound.placed.depart found there rfl rfl ?_
    intro wrong
    cases wrong
  · refine sound.references.change rfl ?_ (fun _ => .inl rfl)
    intro ticket
    by_cases self : ticket = id
    · subst self
      exact .inr ⟨slot, _, found, live, setSlot_self _ _, live⟩
    · exact .inl (setSlot_other _ _ self)
  refine sound.account.release found ?_ ?_ (setSlot_self _ _) ?_ ?_ rfl ?_
  · rw [releasedCount_some, queued, live, if_neg]
    rintro (wrong | ⟨_, wrong⟩)
    · cases wrong
    · cases wrong
  · rw [queued]
    intro wrong
    cases wrong
  · rw [releasedCount_some, if_pos (.inl rfl)]
  · intro wrong
    cases wrong
  · intro ticket self
    exact setSlot_other _ _ self

end Quiet

/-! ## Steps -/

section Steps

variable {table later : Table} {history : List Event} {thread id shard callback : Nat}
  {slot : FutexQueueSlot} {key : FutexKey}

theorem plain_idle : Phase.idle.Plain :=
  ⟨nofun, fun _ wrong => wrong⟩

theorem Sound.idle {event : Event} (sound : Sound hash (event :: history) table) :
    Sound hash (event :: history) (table.setThread thread .idle) :=
  sound.enter plain_idle (fun _ holds => absurd holds (fun no => no))

/-- A step of one thread that changes at most one slot.  What the other threads rely on
stays, so that only the slot and the phase of the thread are left to check. -/
theorem References.turn (references : References table)
    (slots : ∀ ticket, ticket ≠ id -> later.slots ticket = table.slots ticket)
    (threads : ∀ other, other ≠ thread -> later.thread other = table.thread other)
    (nextTicket : table.nextTicket <= later.nextTicket)
    (fresh : later.nextTicket <= id -> later.slots id = none)
    (alone : later.slots id = table.slots id ∨ ∀ other, other ≠ thread ->
      ¬ (table.thread other).Drops id ∧ ∀ addr, table.thread other ≠ .preparing id addr)
    (prepares : ∀ ticket addr, later.thread thread = .preparing ticket addr ->
      ticket < later.nextTicket ∧ later.slots ticket = none ∧
        ∀ other known, other ≠ thread -> table.thread other ≠ .preparing ticket known)
    (held : ∀ after, later.slots id = some after -> 0 < after.tokens ∨ 0 < after.subscriptions ∨
      (∃ other, other ≠ thread ∧ (table.thread other).Holds id) -> after.life = .live)
    (holds : ∀ ticket after, (later.thread thread).Holds ticket ->
      later.slots ticket = some after -> after.life = .live)
    (drops : ∀ ticket, (later.thread thread).Drops ticket ->
      (∃ after, later.slots ticket = some after ∧ after.life = .dropping ∧ after.state = .queued ∧
        ∀ shard, later.thread thread = .dropAt ticket shard -> after.queue = shard) ∧
        ∀ other, other ≠ thread -> ¬ (table.thread other).Drops ticket) :
    References later := by
  have same : ∀ other, other ≠ thread -> ∀ ticket, (table.thread other).Drops ticket ∨
      (∃ addr, table.thread other = .preparing ticket addr) ->
        later.slots ticket = table.slots ticket := by
    intro other apart ticket busy
    by_cases self : ticket = id
    · subst self
      rcases alone with kept | alone
      · exact kept
      · rcases busy with dropping | ⟨addr, preparing⟩
        · exact absurd dropping (alone other apart).1
        · exact absurd preparing ((alone other apart).2 addr)
    · exact slots ticket self
  obtain ⟨earlierFresh, earlierPreparing, preparingOnce, earlierHeld, dropping, droppingAt,
    droppingOnce⟩ := references
  constructor
  case fresh => grind
  case preparing => grind
  case preparingOnce => grind
  case held => grind
  case dropping => grind
  case droppingAt => grind [Phase.Drops]
  case droppingOnce => grind

theorem Sound.reserve (sound : Sound hash history table) (key : FutexKey)
    (unwrapped : table.nextTicket + 1 < wordLimit) :
    Sound hash (.reserved table.nextTicket key :: history)
      ({ table with nextTicket := (table.nextTicket + 1) % wordLimit }.setThread thread
        (.preparing table.nextTicket key)) := by
  rw [Nat.mod_eq_of_lt unwrapped]
  have references := sound.references
  have unknown := references.fresh table.nextTicket le_rfl
  refine ⟨sound.placed.congr rfl (fun _ => rfl), ?_, sound.account.neutral trivial (fun _ => rfl)⟩
  refine references.turn (fun _ _ => rfl) (fun _ apart => setThread_other _ _ apart)
    (Nat.le_succ _) (fun _ => unknown) (.inl rfl) ?_ ?_ ?_ ?_
  · intro ticket addr preparing
    rw [setThread_self] at preparing
    cases preparing
    refine ⟨Nat.lt_succ_self _, unknown, fun other known _ other_preparing => ?_⟩
    exact Nat.lt_irrefl _ (references.preparing other _ known other_preparing).1
  · intro after found
    exact absurd (unknown.symm.trans found) nofun
  · intro ticket after holds
    rw [setThread_self] at holds
    exact absurd holds (fun no => no)
  · intro ticket drops
    rw [setThread_self] at drops
    exact absurd drops (fun no => no)

theorem Sound.prepare (sound : Sound hash history table)
    (preparing : table.thread thread = .preparing id key) :
    Sound hash (.prepared id key :: history)
      (((table.setQueue (shardIndex hash key)
          ((table.queues (shardIndex hash key)).insert id { addr := key, callback := none })).setSlot
        id { state := .queued, queue := shardIndex hash key, bucket := key, tokens := 1,
             subscriptions := 0, life := .live }).setThread thread .idle) := by
  rcases sound.references.preparing thread id key preparing with ⟨below, unknown⟩
  have gone : ∀ shard, (table.queues shard).entries id = none := by
    intro shard
    cases listed : (table.queues shard).entries id with
    | none => rfl
    | some entry =>
      rcases sound.placed.owned shard id entry listed with ⟨slot, found, _⟩
      rw [unknown] at found
      cases found
  have references := sound.references
  refine ⟨?_, ?_, ⟨?_, ?_, ?_⟩⟩
  · have inserted : Placed hash ((table.setQueue (shardIndex hash key)
        ((table.queues (shardIndex hash key)).insert id { addr := key, callback := none })).setSlot id
          { state := .queued, queue := shardIndex hash key, bucket := key, tokens := 1,
            subscriptions := 0, life := .live }) :=
      (sound.placed.but gone).insert rfl rfl nofun rfl rfl
    exact inserted.congr rfl (fun _ => rfl)
  · refine references.turn (fun _ apart => setSlot_other _ _ apart)
      (fun _ apart => setThread_other _ _ apart) le_rfl
      (fun above => absurd below (Nat.not_lt.mpr above)) (.inr ?_) ?_ ?_ ?_ ?_
    · intro other apart
      refine ⟨fun drops => ?_, fun addr still => ?_⟩
      · rcases references.dropping other id drops with ⟨slot, found, _⟩
        rw [unknown] at found
        cases found
      · exact apart (references.preparingOnce other thread id addr key still preparing)
    · intro ticket addr still
      rw [setThread_self] at still
      cases still
    · intro after found _
      change ((table.setQueue _ _).setSlot id _).slots id = some after at found
      rw [setSlot_self] at found
      cases found
      rfl
    · intro ticket after holds
      rw [setThread_self] at holds
      exact absurd holds (fun no => no)
    · intro ticket drops
      rw [setThread_self] at drops
      exact absurd drops (fun no => no)
  · intro ticket
    show (consumedIn history).count ticket = wokenCount (((table.setQueue _ _).setSlot id _).slots ticket)
    rw [sound.account.woken]
    by_cases self : ticket = id
    · subst self
      rw [setSlot_self, unknown]
      rfl
    · rw [setSlot_other _ _ self]
      rfl
  · intro ticket
    show (releasedIn history).count ticket =
      releasedCount (((table.setQueue _ _).setSlot id _).slots ticket)
    rw [sound.account.released]
    by_cases self : ticket = id
    · subst self
      rw [setSlot_self, unknown]
      rfl
    · rw [setSlot_other _ _ self]
      rfl
  intro ticket slot found
  change ((table.setQueue _ _).setSlot id _).slots ticket = some slot at found
  show (if id = ticket then some key else lastPlace history ticket) = _
  by_cases self : ticket = id
  · subst self
    rw [setSlot_self] at found
    cases found
    rw [if_pos rfl]
  · rw [setSlot_other _ _ self] at found
    rw [if_neg (fun same => self same.symm)]
    exact sound.account.placed ticket slot found

/-- A dropped token changes how long a slot lives and not what became of it. -/
theorem Account.retire {after : FutexQueueSlot} (account : Account history table)
    (found : table.slots id = some slot)
    (slots : ∀ ticket, later.slots ticket = if ticket = id then some after
      else table.slots ticket)
    (state : after.state = slot.state) (bucket : after.bucket = slot.bucket)
    (released : releasedCount (some slot) = releasedCount (some after)) :
    Account (.tokenDropped id :: history) later := by
  refine ⟨?_, ?_, ?_⟩
  · intro ticket
    show (consumedIn history).count ticket = _
    rw [account.woken, slots]
    split_ifs with self
    · rw [self, found, wokenCount_some, wokenCount_some, state]
    · rfl
  · intro ticket
    show (releasedIn history).count ticket = _
    rw [account.released, slots]
    split_ifs with self
    · rw [self, found, released]
    · rfl
  intro ticket known foundAfter
  show lastPlace history ticket = _
  rw [slots] at foundAfter
  split_ifs at foundAfter with self
  · cases foundAfter
    rw [self, bucket]
    exact account.placed id slot found
  · exact account.placed ticket known foundAfter

theorem Sound.dropLast (sound : Sound hash history table)
    (found : table.slots id = some slot) (live : slot.life = .live)
    (last : ¬ ∃ other, (table.thread other).Holds id) (queued : slot.state = .queued)
    (unsubscribed : slot.subscriptions = 0) :
    Sound hash (.tokenDropped id :: history)
      ((table.setSlot id { slot with tokens := 0, life := .dropping }).setThread thread
        (.dropping id)) := by
  have references := sound.references
  have undropped : ∀ other, ¬ (table.thread other).Drops id := by
    intro other drops
    rcases references.dropping other id drops with ⟨known, foundKnown, life, _⟩
    rw [found] at foundKnown
    cases foundKnown
    rw [live] at life
    cases life
  have slots : ∀ ticket, ((table.setSlot id
      { slot with tokens := 0, life := .dropping }).setThread thread (.dropping id)).slots ticket =
        if ticket = id then some { slot with tokens := 0, life := .dropping }
        else table.slots ticket := by
    intro ticket
    show (table.setSlot id _).slots ticket = _
    by_cases self : ticket = id
    · rw [self, setSlot_self, if_pos rfl]
    · rw [setSlot_other _ _ self, if_neg self]
  refine ⟨?_, ?_, sound.account.retire found slots rfl rfl (by simp [releasedCount_some, live])⟩
  · have dropped : Placed hash (table.setSlot id { slot with tokens := 0, life := .dropping }) :=
      sound.placed.setLife found rfl rfl rfl nofun
        nofun
    exact dropped.congr rfl (fun _ => rfl)
  refine references.turn (fun _ apart => setSlot_other _ _ apart)
    (fun _ apart => setThread_other _ _ apart) le_rfl ?_ (.inr ?_) ?_ ?_ ?_ ?_
  · intro above
    exact absurd ((references.fresh id above).symm.trans found) nofun
  · intro other _
    refine ⟨undropped other, fun addr preparing => ?_⟩
    exact absurd ((references.preparing other id addr preparing).2.symm.trans found) nofun
  · intro ticket addr preparing
    rw [setThread_self] at preparing
    cases preparing
  · intro after foundAfter referred
    rw [slots, if_pos rfl] at foundAfter
    cases foundAfter
    rcases referred with tokens | subscriptions | ⟨other, _, holds⟩
    · exact absurd tokens (Nat.lt_irrefl 0)
    · exact absurd unsubscribed (Nat.ne_of_gt subscriptions)
    · exact absurd ⟨other, holds⟩ last
  · intro ticket after holds
    rw [setThread_self] at holds
    exact absurd holds (fun no => no)
  intro ticket drops
  rw [setThread_self] at drops
  change id = ticket at drops
  subst drops
  refine ⟨⟨_, (slots id).trans (if_pos rfl), rfl, queued, ?_⟩, fun other _ => undropped other⟩
  intro shard dropping
  rw [setThread_self] at dropping
  cases dropping

/-- Nobody drops or prepares a slot that is freed or was never referred to. -/
theorem References.free {later : Table} {after : FutexQueueSlot} (references : References table)
    (found : table.slots id = some slot)
    (slots : ∀ ticket, later.slots ticket = if ticket = id then some after
      else table.slots ticket)
    (nextTicket : later.nextTicket = table.nextTicket)
    (threads : ∀ other, later.thread other = table.thread other ∨ later.thread other = .idle)
    (undropped : ∀ other, ¬ (later.thread other).Drops id)
    (unheld : ∀ other, ¬ (later.thread other).Holds id) (unowned : after.tokens = 0)
    (unsubscribed : after.subscriptions = 0) : References later := by
  have absent : ∀ ticket, table.slots ticket = none -> later.slots ticket = none := by
    grind
  obtain ⟨fresh, preparing, preparingOnce, held, dropping, droppingAt, droppingOnce⟩ := references
  constructor
  case fresh => grind
  case preparing => grind
  case preparingOnce => grind
  case held => grind [Phase.Holds]
  case dropping => grind [Phase.Drops]
  case droppingAt => grind [Phase.Drops]
  case droppingOnce => grind [Phase.Drops]

theorem Sound.dropEnded (sound : Sound hash history table) (found : table.slots id = some slot)
    (live : slot.life = .live) (last : ¬ ∃ other, (table.thread other).Holds id)
    (ended : slot.state ≠ .queued) (unsubscribed : slot.subscriptions = 0) :
    Sound hash (.tokenDropped id :: history)
      (table.setSlot id { slot with tokens := 0, life := .freed }) := by
  have slots : ∀ ticket,
      (table.setSlot id { slot with tokens := 0, life := .freed }).slots ticket =
        if ticket = id then some { slot with tokens := 0, life := .freed }
        else table.slots ticket := by
    intro ticket
    by_cases self : ticket = id
    · rw [self, setSlot_self, if_pos rfl]
    · rw [setSlot_other _ _ self, if_neg self]
  refine ⟨?_, ?_, sound.account.retire found slots rfl rfl (by simp [releasedCount_some, ended])⟩
  · exact sound.placed.setLife found rfl rfl rfl (fun _ => ended) nofun
  refine sound.references.free found slots rfl (fun _ => .inl rfl) ?_
    (fun other holds => last ⟨other, holds⟩) rfl unsubscribed
  intro other drops
  rcases sound.references.dropping other id drops with ⟨known, foundKnown, life, _⟩
  rw [found] at foundKnown
  cases foundKnown
  rw [live] at life
  cases life

theorem Sound.findForDrop (sound : Sound hash history table)
    (running : table.thread thread = .dropping id) (found : table.slots id = some slot) :
    Sound hash (.found id slot.queue :: history) (table.setThread thread (.dropAt id slot.queue)) := by
  have references := sound.references
  have drops : (table.thread thread).Drops id := by
    rw [running]
    rfl
  refine ⟨sound.placed.congr rfl (fun _ => rfl), ?_, sound.account.neutral trivial (fun _ => rfl)⟩
  refine references.turn (fun _ _ => rfl) (fun _ apart => setThread_other _ _ apart) le_rfl
    (references.fresh id) (.inl rfl) ?_ ?_ ?_ ?_
  · intro ticket addr preparing
    rw [setThread_self] at preparing
    cases preparing
  · intro after foundAfter referred
    exact references.held id after foundAfter
      (referred.imp_right (Or.imp_right (fun ⟨other, _, holds⟩ => ⟨other, holds⟩)))
  · intro ticket after holds
    rw [setThread_self] at holds
    exact absurd holds (fun no => no)
  intro ticket dropping
  rw [setThread_self] at dropping
  change id = ticket at dropping
  subst dropping
  rcases references.dropping thread id drops with ⟨known, foundKnown, life, queued⟩
  refine ⟨⟨known, foundKnown, life, queued, ?_⟩, ?_⟩
  · intro shard dropping
    rw [setThread_self] at dropping
    cases dropping
    rw [found] at foundKnown
    cases foundKnown
    rfl
  · intro other apart dropping
    exact apart (references.droppingOnce other thread id dropping drops)

theorem Sound.dropAt (sound : Sound hash history table)
    (running : table.thread thread = .dropAt id shard) (found : table.slots id = some slot) :
    Sound hash (.released id :: history)
      (((table.setQueue shard ((table.queues shard).remove id).1).setSlot id
        { slot with life := .freed }).setThread thread .idle) := by
  have references := sound.references
  have drops : (table.thread thread).Drops id := by
    rw [running]
    rfl
  rcases references.dropping thread id drops with ⟨known, foundKnown, life, queued⟩
  rw [found] at foundKnown
  cases foundKnown
  have dead : slot.life ≠ .live := by
    rw [life]
    intro wrong
    cases wrong
  have there : slot.queue = shard := references.droppingAt thread id shard slot running found
  have slots : ∀ ticket, (((table.setQueue shard ((table.queues shard).remove id).1).setSlot id
      { slot with life := .freed }).setThread thread .idle).slots ticket =
        if ticket = id then some { slot with life := .freed } else table.slots ticket := by
    intro ticket
    show ((table.setQueue shard _).setSlot id _).slots ticket = _
    by_cases self : ticket = id
    · rw [self, setSlot_self, if_pos rfl]
    · rw [setSlot_other _ _ self, if_neg self]
      rfl
  have threads : ∀ other, (((table.setQueue shard
      ((table.queues shard).remove id).1).setSlot id { slot with life := .freed }).setThread thread
        .idle).thread other = if other = thread then .idle else table.thread other := by
    intro other
    by_cases same : other = thread
    · rw [same, setThread_self, if_pos rfl]
    · rw [setThread_other _ _ same, if_neg same]
      rfl
  refine ⟨?_, ?_, ?_⟩
  · have left : Placed hash ((table.setQueue shard ((table.queues shard).remove id).1).setSlot id
        { slot with life := .freed }) :=
      sound.placed.depart found there rfl rfl nofun
    exact left.congr rfl (fun _ => rfl)
  · refine references.free found slots rfl ?_ ?_ ?_ ?_ ?_
    · intro other
      rw [threads]
      split_ifs
      · exact .inr rfl
      · exact .inl rfl
    · intro other dropping
      rw [threads] at dropping
      split_ifs at dropping with same
      · exact dropping
      · exact same (references.droppingOnce other thread id dropping drops)
    · intro other holds
      rw [threads] at holds
      split_ifs at holds
      · exact holds
      · exact dead (references.held id slot found (.inr (.inr ⟨other, holds⟩)))
    · by_contra owned
      exact dead (references.held id slot found (.inl (Nat.pos_of_ne_zero owned)))
    · by_contra subscribed
      exact dead (references.held id slot found (.inr (.inl (Nat.pos_of_ne_zero subscribed))))
  · have atId := slots id
    rw [if_pos rfl] at atId
    refine sound.account.release found ?_ ?_ atId ?_ ?_ rfl ?_
    · rw [releasedCount_some, queued, life, if_neg]
      rintro (wrong | ⟨_, wrong⟩)
      · cases wrong
      · cases wrong
    · rw [queued]
      intro wrong
      cases wrong
    · rw [releasedCount_some, if_pos (.inr ⟨queued, rfl⟩)]
    · show slot.state ≠ .woken
      rw [queued]
      intro wrong
      cases wrong
    · intro ticket self
      rw [slots, if_neg self]

theorem Account.wake {ids : List Nat} (account : Account history table)
    (consumed : Consumed table later ids) (key : FutexKey) (limit : Nat) :
    Account (.woke key limit ids :: history) later := by
  refine ⟨?_, ?_, ?_⟩
  · intro ticket
    show (ids ++ consumedIn history).count ticket = _
    rw [List.count_append, account.woken, consumed.slots]
    split_ifs with listed
    · rcases consumed.queued ticket listed with ⟨known, found, queued, _⟩
      rw [found, List.count_eq_one_of_mem consumed.distinct listed, Option.map_some, wokenCount_some,
        wokenCount_some, queued]
      rfl
    · rw [List.count_eq_zero_of_not_mem listed, Nat.zero_add]
  · intro ticket
    show (releasedIn history).count ticket = _
    rw [account.released, consumed.slots]
    split_ifs with listed
    · rcases consumed.queued ticket listed with ⟨known, found, queued, live⟩
      rw [found, Option.map_some, releasedCount_some, releasedCount_some, queued, live]
      rfl
    · rfl
  intro ticket known found
  show lastPlace history ticket = _
  rw [consumed.slots] at found
  split_ifs at found with listed
  · rcases Option.map_eq_some_iff.mp found with ⟨before, foundBefore, same⟩
    rw [<- same]
    exact account.placed ticket before foundBefore
  · exact account.placed ticket known found

theorem Sound.wake (sound : Sound hash history table) (key : FutexKey) (limit : Nat) :
    Sound hash (.woke key limit (table.publishGeneration hash key limit).2 :: history)
      (table.publishGeneration hash key limit).1 := by
  have spec : Placed hash (table.publishGeneration hash key limit).1 ∧
      Consumed table (table.publishGeneration hash key limit).1
        (table.publishGeneration hash key limit).2 := consume_spec _ limit sound.placed
  refine ⟨spec.1, ?_, sound.account.wake spec.2 key limit⟩
  refine sound.references.change spec.2.nextTicket ?_ (fun _ => .inl (by rw [spec.2.thread]))
  intro ticket
  have slots := spec.2.slots ticket
  split_ifs at slots with listed
  · rcases spec.2.queued ticket listed with ⟨known, found, _, live⟩
    rw [found] at slots
    exact .inr ⟨known, known.wake, found, live, slots, live⟩
  · exact .inl slots

theorem Account.move {ids : List Nat} {target : FutexKey} (account : Account history table)
    (moved : Moved hash target table later ids) (source : FutexKey) (limit : Nat) :
    Account (.moved source target limit ids :: history) later := by
  refine ⟨?_, ?_, ?_⟩
  · intro ticket
    show (consumedIn history).count ticket = _
    rw [account.woken, moved.slots]
    split_ifs with listed
    · rcases moved.queued ticket listed with ⟨known, found, _⟩
      rw [found]
      rfl
    · rfl
  · intro ticket
    show (releasedIn history).count ticket = _
    rw [account.released, moved.slots]
    split_ifs with listed
    · rcases moved.queued ticket listed with ⟨known, found, _⟩
      rw [found]
      rfl
    · rfl
  intro ticket known found
  show (if ticket ∈ ids then some target else lastPlace history ticket) = _
  rw [moved.slots] at found
  split_ifs at found with listed
  · rw [if_pos listed]
    rcases Option.map_eq_some_iff.mp found with ⟨before, _, same⟩
    rw [<- same]
    rfl
  · rw [if_neg listed]
    exact account.placed ticket known found

theorem Sound.requeue (sound : Sound hash history table) (source target : FutexKey) (limit : Nat) :
    Sound hash (.moved source target limit (table.requeueTickets hash source target limit).2 ::
      history) (table.requeueTickets hash source target limit).1 := by
  have spec : Placed hash (table.requeueTickets hash source target limit).1 ∧
      Moved hash target table (table.requeueTickets hash source target limit).1
        (table.requeueTickets hash source target limit).2 := move_spec _ limit sound.placed
  refine ⟨spec.1, ?_, sound.account.move spec.2 source limit⟩
  refine sound.references.change spec.2.nextTicket ?_ (fun _ => .inl (by rw [spec.2.thread]))
  intro ticket
  have slots := spec.2.slots ticket
  split_ifs at slots with listed
  · rcases spec.2.queued ticket listed with ⟨known, found, _, live⟩
    rw [found] at slots
    exact .inr ⟨known, _, found, live, slots, live⟩
  · exact .inl slots

theorem Sound.holds_live (sound : Sound hash history table) (found : table.slots id = some slot)
    (holds : (table.thread thread).Holds id) : slot.life = .live :=
  sound.references.held id slot found (.inr (.inr ⟨thread, holds⟩))

theorem Sound.running_live {phase : Phase} (sound : Sound hash history table)
    (found : table.slots id = some slot) (running : table.thread thread = phase)
    (holds : phase.Holds id) : slot.life = .live :=
  sound.holds_live found (running ▸ holds)

theorem Sound.subscribeAt {subscribed : Bool} (sound : Sound hash history table)
    (found : table.slots id = some slot) (live : slot.life = .live)
    (sectionRan : table.subscribeSection id callback shard slot = (later, subscribed)) :
    Sound hash ((if subscribed then .subscribed id else .ready id) :: history) later := by
  have stays : Sound hash (.ready id :: history)
      (table.setSlot id { slot with tokens := slot.tokens + 1 }) :=
    sound.refer trivial found live rfl
  unfold Table.subscribeSection at sectionRan
  split at sectionRan
  · rename_i entry queued listed
    cases sectionRan
    have written := sound.placed.callback listed (some callback)
    have places : SamePlaces table ((table.setQueue shard { table.queues shard with
        entries := Function.update (table.queues shard).entries id
          (some { entry with callback := some callback }) }).setSlot id
        { slot with subscriptions := slot.subscriptions + 1 }) :=
      samePlaces_setSlot found rfl
    refine ⟨written.congr rfl places, ?_, sound.account.neutral trivial places⟩
    refine sound.references.change rfl ?_ (fun _ => .inl rfl)
    intro ticket
    by_cases self : ticket = id
    · subst self
      exact .inr ⟨slot, _, found, live, setSlot_self _ _, live⟩
    · exact .inl (setSlot_other _ _ self)
  · cases sectionRan
    exact stays

theorem Sound.dequeueAt {left : Bool} (sound : Sound hash history table)
    (found : table.slots id = some slot) (live : slot.life = .live)
    (current : slot.state = .queued -> slot.queue = shard)
    (sectionRan : table.dequeueSection id shard slot = (later, left)) :
    Sound hash ((if left then .released id else .stayed id) :: history) later := by
  have stays : Sound hash (.stayed id :: history)
      (table.setSlot id { slot with tokens := slot.tokens + 1 }) :=
    sound.refer trivial found live rfl
  unfold Table.dequeueSection at sectionRan
  split at sectionRan
  · cases sectionRan
    exact stays
  · rename_i queued
    cases sectionRan
    exact sound.depart found live queued (current queued)
  · cases sectionRan
    exact stays

theorem Sound.unsubscribeAt {left : Bool} (sound : Sound hash history table)
    (found : table.slots id = some slot) (live : slot.life = .live)
    (sectionRan : table.unsubscribeSection id shard slot = (later, left)) :
    Sound hash ((if left then .released id else .stayed id) :: history) later := by
  have stays : Sound hash (.stayed id :: history)
      (table.setSlot id { slot with tokens := slot.tokens + 1 }) :=
    sound.refer trivial found live rfl
  cases listed : (table.queues shard).entries id with
  | none =>
    have nothing : (table.queues shard).remove id = (table.queues shard, none) := by
      unfold FutexQueue.remove
      rw [listed]
    unfold Table.unsubscribeSection at sectionRan
    rw [nothing] at sectionRan
    cases sectionRan
    exact stays
  | some entry =>
    have something : (table.queues shard).remove id =
        ((table.queues shard).removeEntry id entry, some entry) := by
      unfold FutexQueue.remove
      rw [listed]
    rcases sound.placed.owned shard id entry listed with ⟨known, foundKnown, queued, _, there, _⟩
    rw [found] at foundKnown
    cases foundKnown
    have departed := sound.depart found live queued there
    unfold Table.unsubscribeSection at sectionRan
    rw [something] at sectionRan departed
    cases sectionRan
    exact departed

end Steps

/-! ## Runs -/

theorem Starts.sound {table : Table} (starts : Starts table) : Sound hash [] table := by
  rcases starts with ⟨queues, slots, _, threads⟩
  refine ⟨⟨?_, ?_, ?_, ?_⟩, ⟨fun id _ => slots id, ?_, ?_, ?_, ?_, ?_, ?_⟩, ⟨?_, ?_, ?_⟩⟩
  · intro shard
    rw [queues shard]
    exact indexed_empty
  · intro shard id entry listed
    rw [queues shard] at listed
    cases listed
  · intro id slot found
    rw [slots id] at found
    cases found
  · intro id slot found
    rw [slots id] at found
    cases found
  · intro thread id key preparing
    rw [threads thread] at preparing
    cases preparing
  · intro one two id key other preparing
    rw [threads one] at preparing
    cases preparing
  · intro id slot found
    rw [slots id] at found
    cases found
  · intro thread id drops
    rw [threads thread] at drops
    exact absurd drops (fun no => no)
  · intro thread id shard slot dropping
    rw [threads thread] at dropping
    cases dropping
  · intro one two id drops
    rw [threads one] at drops
    exact absurd drops (fun no => no)
  · intro id
    rw [slots id]
    rfl
  · intro id
    rw [slots id]
    rfl
  · intro id slot found
    rw [slots id] at found
    cases found

theorem Sound.step {table later : Table} {history : List Event} {event : Event}
    (sound : Sound hash history table) (careful : Careful hash table event later) :
    Sound hash (event :: history) later := by
  obtain ⟨taken, current, unwrapped⟩ := careful
  have live : ∀ id slot, table.slots id = some slot -> 0 < slot.tokens ->
      slot.life = .live := fun id slot found tokens =>
    sound.references.held id slot found (.inl tokens)
  have unheld : ∀ {id slot}, ¬ Shared table id slot ->
      ¬ ∃ other, (table.thread other).Holds id := fun last held => last (.inr (.inr held))
  have unsubscribed : ∀ {id slot}, ¬ Shared table id slot -> slot.subscriptions = 0 :=
    fun last => by_contra fun subscribed => last (.inr (.inl (Nat.pos_of_ne_zero subscribed)))
  cases taken with
  | reserve key idle => exact sound.reserve key (unwrapped _ key rfl)
  | prepare preparing => exact sound.prepare preparing
  | clone found holds => exact sound.refer trivial found (live _ _ found holds) rfl
  | subscribe callback idle found holds unwoken =>
    exact sound.call trivial found (live _ _ found holds) rfl
      ⟨nofun, fun _ wrong => wrong⟩ (fun _ same => same.symm)
  | subscribeWoken found holds woken =>
    exact ⟨sound.placed, sound.references, sound.account.neutral trivial (fun _ => rfl)⟩
  | dequeue idle found holds =>
    exact sound.call trivial found (live _ _ found holds) rfl
      ⟨nofun, fun _ wrong => wrong⟩ (fun _ same => same.symm)
  | unsubscribe idle found holds =>
    have subscribed := sound.references.held _ _ found (.inr (.inl holds))
    exact sound.call trivial found subscribed rfl
      ⟨nofun, fun _ wrong => wrong⟩ (fun _ same => same.symm)
  | @findForSubscribe thread id callback slot running found =>
    exact sound.find trivial found (sound.running_live found running rfl)
      ⟨nofun, fun _ wrong => wrong⟩ (fun _ same => same.symm)
  | @findForDequeue thread id slot running found =>
    exact sound.find trivial found (sound.running_live found running rfl)
      ⟨nofun, fun _ wrong => wrong⟩ (fun _ same => same.symm)
  | @findForUnsubscribe thread id slot running found =>
    exact sound.find trivial found (sound.running_live found running rfl)
      ⟨nofun, fun _ wrong => wrong⟩ (fun _ same => same.symm)
  | findForDrop running found => exact sound.findForDrop running found
  | @subscribeAt later thread id callback shard slot subscribed running found sectionRan =>
    exact (sound.subscribeAt found (sound.running_live found running rfl) sectionRan).idle
  | @dequeueAt later thread id shard slot left running found sectionRan =>
    have leaves : (later.setThread thread .idle).thread thread ≠ .dequeueAt id shard := by
      rw [setThread_self]
      intro wrong
      cases wrong
    exact (sound.dequeueAt found (sound.running_live found running rfl)
      (current thread id shard slot running leaves found) sectionRan).idle
  | @unsubscribeAt later thread id shard slot left running found sectionRan =>
    exact (sound.unsubscribeAt found (sound.running_live found running rfl) sectionRan).idle
  | dropToken found holds others => exact sound.refer trivial found (live _ _ found holds) rfl
  | @dropLast thread id slot idle found holds last queued =>
    exact sound.dropLast found (live id slot found holds) (unheld last) queued (unsubscribed last)
  | @dropEnded id slot found holds last ended =>
    exact sound.dropEnded found (live id slot found holds) (unheld last) ended (unsubscribed last)
  | dropAt running found => exact sound.dropAt running found
  | wake key limit => exact sound.wake key limit
  | wakeAbsent key limit notPrivate absent =>
    exact ⟨sound.placed, sound.references, sound.account.wake (Consumed.none table) key limit⟩
  | requeue source target limit => exact sound.requeue source target limit

theorem sound_of_run {history : List Event} {table : Table}
    (run : Run Starts (Careful hash) history table) : Sound hash history table :=
  run.invariant (fun history table => Sound hash history table) (fun _ starts => starts.sound)
    (fun _ _ _ _ _ sound careful => sound.step careful)

section Results

variable {history : List Event} {table : Table}

section Sound

variable (sound : Sound hash history table)

include sound

theorem Sound.counts (id : Nat) :
    (consumedIn history).count id + (releasedIn history).count id <= 1 := by
  rw [sound.account.woken, sound.account.released]
  cases found : table.slots id with
  | none => exact Nat.zero_le 1
  | some slot =>
    rw [wokenCount_some, releasedCount_some]
    cases state : slot.state with
    | queued => split_ifs <;> simp_all
    | woken => simp
    | released => simp

theorem Sound.ended {id : Nat} {slot : FutexQueueSlot} (found : table.slots id = some slot)
    (freed : slot.life = .freed) :
    (consumedIn history).count id + (releasedIn history).count id = 1 := by
  rw [sound.account.woken, sound.account.released, found, wokenCount_some, releasedCount_some]
  cases state : slot.state with
  | queued => simp [freed]
  | woken => simp
  | released => simp

theorem Sound.released_gone {id : Nat} (released : id ∈ releasedIn history) :
    (∀ shard, (table.queues shard).entries id = none) ∧
      ∀ slot, table.slots id = some slot -> slot.state ≠ .woken := by
  have counted := List.count_pos_iff.mpr released
  rw [sound.account.released] at counted
  cases found : table.slots id with
  | none =>
    rw [found] at counted
    exact absurd counted (Nat.lt_irrefl 0)
  | some slot =>
    rw [found, releasedCount_some] at counted
    have ended : slot.state = .released ∨ slot.state = .queued ∧ slot.life = .freed := by
      by_contra waits
      rw [if_neg waits] at counted
      exact Nat.lt_irrefl 0 counted
    constructor
    · intro shard
      cases listed : (table.queues shard).entries id with
      | none => rfl
      | some entry =>
        rcases sound.placed.owned shard id entry listed with ⟨known, foundKnown, queued, unfreed, _⟩
        rw [found] at foundKnown
        cases foundKnown
        rcases ended with wrong | ⟨_, wrong⟩
        · rw [queued] at wrong
          cases wrong
        · exact absurd wrong unfreed
    · intro known same
      cases same
      rcases ended with state | ⟨state, _⟩
      · rw [state]
        intro wrong
        cases wrong
      · rw [state]
        intro wrong
        cases wrong

/-- A queued ticket is listed under the key that it was put on last, and nowhere
else. -/
theorem Sound.listed {id : Nat} {slot : FutexQueueSlot} (found : table.slots id = some slot)
    (queued : slot.state = .queued) (live : slot.life = .live) (shard : Nat) (key : FutexKey) :
    id ∈ (table.queues shard).byAddr key <-> shard = shardIndex hash slot.bucket ∧ key = slot.bucket := by
  rw [(sound.placed.indexed shard).listed]
  constructor
  · rintro ⟨entry, listed, addr⟩
    rcases sound.placed.owned shard id entry listed with ⟨known, foundKnown, _, _, there, bucket⟩
    rw [found] at foundKnown
    cases foundKnown
    refine ⟨there.symm.trans (sound.placed.home id slot found), ?_⟩
    rw [bucket, addr]
  rintro ⟨rfl, rfl⟩
  rcases sound.placed.present id slot found queued live with ⟨entry, listed⟩
  rcases sound.placed.owned slot.queue id entry listed with ⟨known, foundKnown, _, _, _, bucket⟩
  rw [found] at foundKnown
  cases foundKnown
  rw [<- sound.placed.home id slot found]
  exact ⟨entry, listed, bucket.symm⟩

theorem Sound.mem_waiting (key : FutexKey) (id : Nat) :
    id ∈ table.waiting hash key <-> ∃ slot, table.slots id = some slot ∧ slot.state = .queued ∧
      slot.life = .live ∧ lastPlace history id = some key := by
  unfold Table.waiting
  rw [List.mem_filter, (sound.placed.indexed _).listed]
  constructor
  · rintro ⟨⟨entry, listed, addr⟩, upgrades⟩
    rcases sound.placed.slot_of_entry listed with
      ⟨slot, _, found, queued, live, _, bucket⟩ | ⟨slot, dead, _⟩
    · refine ⟨slot, found, queued, live, ?_⟩
      rw [sound.account.placed id slot found, bucket, addr]
    · rw [dead] at upgrades
      cases upgrades
  rintro ⟨slot, found, queued, live, place⟩
  rw [sound.account.placed id slot found] at place
  have here := (sound.listed found queued live (shardIndex hash key) key).mpr
  rw [Option.some.inj place] at here
  refine ⟨((sound.placed.indexed _).listed key id).mp (here ⟨rfl, rfl⟩), ?_⟩
  unfold Table.upgrade
  rw [found]
  simp [live]

theorem Sound.wake_exact {key : FutexKey} {limit : Nat} {consumed : List Nat} {after : Table}
    (taken : Step hash table (.woke key limit consumed) after) :
    consumed = (table.waiting hash key).take limit := by
  generalize named : Event.woke key limit consumed = event at taken
  cases taken with
  | wake other most =>
    cases named
    exact publishGeneration_exact sound.placed key limit
  | wakeAbsent other most notPrivate absent =>
    cases named
    have empty : table.waiting hash key = [] := by
      rw [List.eq_nil_iff_forall_not_mem]
      intro id listed
      rcases (sound.mem_waiting key id).mp listed with ⟨slot, found, _, live, place⟩
      rw [sound.account.placed id slot found] at place
      exact absent id slot found live (Option.some.inj place)
    rw [empty, List.take_nil]
  | subscribeAt running found sectionRan => split_ifs at named
  | dequeueAt running found sectionRan => split_ifs at named
  | unsubscribeAt running found sectionRan => split_ifs at named
  | _ => cases named

end Sound

/-- In every run whose dequeues lock the queue their ticket is on, and whose ticket
numbers do not wrap around, each ticket ends at most once, and has ended once its slot
is gone; released tickets are on no queue and are not woken; a wake consumes exactly the
oldest live tickets of its key; and a queued ticket is where it was put last. -/
theorem tickets_end_once (run : Run Starts (Careful hash) history table) :
    (∀ id, (consumedIn history).count id + (releasedIn history).count id <= 1) ∧
    (∀ id slot, table.slots id = some slot -> slot.life = .freed ->
      (consumedIn history).count id + (releasedIn history).count id = 1) ∧
    (∀ id ∈ releasedIn history,
      (∀ shard, (table.queues shard).entries id = none) ∧
        ∀ slot, table.slots id = some slot -> slot.state ≠ .woken) ∧
    (∀ key limit consumed after, Step hash table (.woke key limit consumed) after ->
      consumed = (table.waiting hash key).take limit) ∧
    (∀ key, (table.waiting hash key).Pairwise (fun first second => first < second) ∧
      ∀ id, id ∈ table.waiting hash key <-> ∃ slot, table.slots id = some slot ∧
        slot.state = .queued ∧ slot.life = .live ∧ lastPlace history id = some key) ∧
    (∀ id slot, table.slots id = some slot -> slot.state = .queued -> slot.life = .live ->
      ∃ key, lastPlace history id = some key ∧ ∀ shard other,
        id ∈ (table.queues shard).byAddr other <-> shard = shardIndex hash key ∧ other = key) := by
  have sound := sound_of_run run
  refine ⟨sound.counts, ?_, ?_, ?_, ?_, ?_⟩
  · intro id slot found freed
    exact sound.ended found freed
  · intro id released
    exact sound.released_gone released
  · intro key limit consumed after taken
    exact sound.wake_exact taken
  · intro key
    refine ⟨?_, sound.mem_waiting key⟩
    exact ((sound.placed.indexed _).sorted key).filter _
  · intro id slot found queued live
    refine ⟨slot.bucket, sound.account.placed id slot found, ?_⟩
    intro shard other
    exact sound.listed found queued live shard other

end Results

/-! ## A departure that a requeue overtakes -/

def emptyTable : Table :=
  { queues := fun _ => FutexQueue.empty, slots := fun _ => none, nextTicket := 0,
    thread := fun _ => .idle }

theorem emptyTable_starts : Starts emptyTable :=
  ⟨fun _ => rfl, fun _ => rfl, rfl, fun _ => rfl⟩

/-- A waiter is queued, and a wake consumes its ticket. -/
theorem tickets_end_once_woken : ∃ history table,
    Run Starts (Careful (fun _ => 0)) history table ∧ consumedIn history = [0] ∧
      (consumedIn history).count 0 + (releasedIn history).count 0 <= 1 := by
  have current : ∀ {table later : Table}, (∀ thread id shard,
      table.thread thread ≠ .dequeueAt id shard) -> Current table later :=
    fun undequeued thread id shard _ running => absurd running (undequeued thread id shard)
  have reserved : Run Starts (Careful (fun _ => 0)) _ _ := Run.next (.initial emptyTable_starts)
    ⟨@Step.reserve (fun _ => 0) emptyTable 0 (.privateWord 0) rfl, current nofun,
      fun _ _ _ => by decide⟩
  have prepared := reserved.next
    ⟨@Step.prepare (fun _ => 0) _ 0 0 (.privateWord 0) rfl, current ?_, nofun⟩
  have woke := prepared.next
    ⟨@Step.wake (fun _ => 0) _ (.privateWord 0) 1, current ?_, nofun⟩
  · exact ⟨_, _, woke, rfl, (tickets_end_once woke).1 0⟩
  all_goals
    intro thread id shard
    by_cases same : thread = 0
    · rw [same, setThread_self]
      nofun
    rw [setThread_other _ _ same]
  · change (Table.setThread _ 0 _).thread thread ≠ _
    rw [setThread_other _ _ same]
    nofun
  · nofun

/-- A dequeue reads its ticket's queue, a requeue moves the ticket to another
shard, the dequeue releases the ticket without finding it, and a wake consumes it. -/
theorem released_ticket_is_woken : ∃ history table, Run Starts (Step (fun _ => 0)) history table ∧
    (releasedIn history).count 0 = 1 ∧ (consumedIn history).count 0 = 1 := by
  have reserved : Run Starts (Step (fun _ => 0)) _ _ :=
    Run.next (.initial emptyTable_starts)
      (@Step.reserve (fun _ => 0) emptyTable 0 (.privateWord 0) rfl)
  have prepared := reserved.next (@Step.prepare (fun _ => 0) _ 0 0 (.privateWord 0) rfl)
  have dequeued := prepared.next (@Step.dequeue (fun _ => 0) _ 0 0 _ rfl rfl (by decide))
  have found := dequeued.next (@Step.findForDequeue (fun _ => 0) _ 0 0 _ rfl rfl)
  have moved := found.next (.requeue (.privateWord 0) (.privateWord 1) 1)
  have left := moved.next (@Step.dequeueAt (fun _ => 0) _ _ 0 0 _ _ true rfl rfl rfl)
  have woke := left.next (.wake (.privateWord 1) 1)
  exact ⟨_, _, woke, rfl, rfl⟩

end FutexTickets
end Carrick

import Carrick.Foundation.Stages

namespace Carrick
namespace SeqLock

open Foundation

/-!
# A byte buffer behind a sequence word

The sequence word is also the lock of the writers: it is odd while one of them has
it.  Words of the buffer are stored and loaded one at a time, and a word is kept here
as its eight bytes.  A step is one access to the sequence or to one word.  The
sequence is a number without a bound, so that its wrap is left out.

`history` is not in the source: it lists the slices that writers have begun to write,
the last one first, to say what the buffer should hold.
-/

/-- The words that a slice reaches, the last one padded with zeros. -/
def wordCount (len : Nat) : Nat :=
  (len + 7) / 8

/-- What a reader does with the words it loads. -/
inductive Goal where
  | readInto (len : Nat)
  | eqSlice (expected : List UInt8)

def Goal.len : Goal -> Nat
  | readInto len => len
  | eqSlice expected => expected.length

inductive Place where
  | idle
  /-- `try_write` has read an even sequence. -/
  | claiming (seen : Nat)
  /-- The guard is held, and the words of the slice below `next` have been stored. -/
  | writing (publish : Nat) (slice : List UInt8) (next : Nat)
  /-- A ticket is held, and these bytes have been loaded. -/
  | reading (ticket : Nat) (goal : Goal) (loaded : List UInt8)

structure Buffer where
  sequence : Nat
  bytes : Nat -> UInt8
  places : Nat -> Place
  history : List (List UInt8)

/-- A comparison has found a byte that differs. -/
def Goal.differs (goal : Goal) (loaded : List UInt8) : Bool :=
  match goal with
  | readInto _ => false
  | eqSlice expected => loaded.take expected.length != expected.take loaded.length

/-- The loop over the words goes on. -/
def Goal.unfinished (goal : Goal) (loaded : List UInt8) : Bool :=
  !goal.differs loaded && decide (loaded.length < goal.len)

/-- What the call gives: the bytes read, or whether they are the expected ones. -/
inductive Seen where
  | bytes (read : List UInt8)
  | equal (same : Bool)
deriving DecidableEq

def Goal.answer (goal : Goal) (loaded : List UInt8) : Seen :=
  match goal with
  | readInto len => .bytes (loaded.take len)
  | eqSlice _ => .equal (!goal.differs loaded)

namespace Buffer

def new (bytes : Nat -> UInt8) : Buffer where
  sequence := 0
  bytes
  places := fun _ => .idle
  history := []

def go (buffer : Buffer) (thread : Nat) (place : Place) : Buffer :=
  { buffer with places := Function.update buffer.places thread place }

def loadWord (buffer : Buffer) (index : Nat) : List UInt8 :=
  (List.range 8).map fun byte => buffer.bytes (8 * index + byte)

def storeWord (buffer : Buffer) (slice : List UInt8) (index : Nat) : Buffer :=
  { buffer with
    bytes := fun byte => if byte / 8 = index then slice.getD byte 0 else buffer.bytes byte }

end Buffer

inductive SeqEvent where
  | tryWrite (thread : Nat)
  | compareExchange (thread : Nat)
  | writeSlice (thread : Nat) (slice : List UInt8)
  | store (thread : Nat)
  | dropGuard (thread : Nat)
  | readBegin (thread : Nat)
  | read (thread : Nat) (goal : Goal)
  | load (thread : Nat)
  /-- The ticket is given up, validated or not. -/
  | endRead (thread : Nat)

/-- A buffer of `words` words. -/
def SeqEvent.run (words : Nat) (buffer : Buffer) : SeqEvent -> Buffer
  | tryWrite thread =>
    match buffer.places thread with
    | .idle =>
      if buffer.sequence % 2 = 0 then buffer.go thread (.claiming buffer.sequence) else buffer
    | _ => buffer
  | compareExchange thread =>
    match buffer.places thread with
    | .claiming seen =>
      if buffer.sequence = seen then
        { buffer with sequence := seen + 1 }.go thread (.writing (seen + 2) [] 0)
      else buffer.go thread .idle
    | _ => buffer
  | writeSlice thread slice =>
    match buffer.places thread with
    | .writing publish last next =>
      if next = wordCount last.length ∧ slice.length <= 8 * words then
        { buffer with history := slice :: buffer.history }.go thread (.writing publish slice 0)
      else buffer
    | _ => buffer
  | store thread =>
    match buffer.places thread with
    | .writing publish slice next =>
      if next < wordCount slice.length then
        (buffer.storeWord slice next).go thread (.writing publish slice (next + 1))
      else buffer
    | _ => buffer
  | dropGuard thread =>
    match buffer.places thread with
    | .writing publish slice next =>
      if next = wordCount slice.length then
        { buffer with sequence := publish }.go thread .idle
      else buffer
    | _ => buffer
  | readBegin thread =>
    match buffer.places thread with
    | .idle =>
      if buffer.sequence % 2 = 0 then
        buffer.go thread (.reading buffer.sequence (.readInto 0) [])
      else buffer
    | _ => buffer
  | read thread goal =>
    match buffer.places thread with
    | .reading ticket _ _ =>
      if goal.len <= 8 * words then buffer.go thread (.reading ticket goal []) else buffer
    | _ => buffer
  | load thread =>
    match buffer.places thread with
    | .reading ticket goal loaded =>
      if goal.unfinished loaded then
        buffer.go thread
          (.reading ticket goal (loaded ++ buffer.loadWord (loaded.length / 8)))
      else buffer
    | _ => buffer
  | endRead thread =>
    match buffer.places thread with
    | .reading _ _ _ => buffer.go thread .idle
    | _ => buffer

/-- The buffer before the event at position `n`. -/
def bufferAt (words : Nat) (initial : Nat -> UInt8) (events : List SeqEvent) (n : Nat) : Buffer :=
  stage (SeqEvent.run words) (.new initial) events n

/-- The answer of a finished read whose ticket validates. -/
def Buffer.validated (buffer : Buffer) (thread ticket : Nat) (goal : Goal) (seen : Seen) : Prop :=
  ∃ loaded, buffer.places thread = .reading ticket goal loaded ∧
    goal.unfinished loaded = false ∧ buffer.sequence = ticket ∧ seen = goal.answer loaded

/-- A byte of the buffer after the slices of a history: that of the last slice that
covers it. -/
def contentAt (initial : Nat -> UInt8) : List (List UInt8) -> Nat -> UInt8
  | [], byte => initial byte
  | slice :: older, byte =>
    if byte / 8 < wordCount slice.length then slice.getD byte 0 else contentAt initial older byte

/-- The answer that a reader of settled bytes gets. -/
def Goal.expected (goal : Goal) (content : Nat -> UInt8) : Seen :=
  match goal with
  | readInto len => .bytes ((List.range len).map content)
  | eqSlice slice => .equal (decide ((List.range slice.length).map content = slice))

/-! ## What a step can do -/

/-- One thread goes from a place to another, and what else the step changes.
Each constructor is one access of the code. -/
inductive Shift (buffer : Buffer) : Place -> Place -> Buffer -> Prop where
  | claim (even : buffer.sequence % 2 = 0) :
      Shift buffer .idle (.claiming buffer.sequence) buffer
  | lose {seen : Nat} : Shift buffer (.claiming seen) .idle buffer
  | win : Shift buffer (.claiming buffer.sequence) (.writing (buffer.sequence + 2) [] 0)
      { buffer with sequence := buffer.sequence + 1 }
  | start {publish : Nat} {last slice : List UInt8} :
      Shift buffer (.writing publish last (wordCount last.length)) (.writing publish slice 0)
        { buffer with history := slice :: buffer.history }
  | store {publish next : Nat} {slice : List UInt8} (inside : next < wordCount slice.length) :
      Shift buffer (.writing publish slice next) (.writing publish slice (next + 1))
        { buffer with
          bytes := fun byte => if byte / 8 = next then slice.getD byte 0 else buffer.bytes byte }
  | publish {publish : Nat} {slice : List UInt8} :
      Shift buffer (.writing publish slice (wordCount slice.length)) .idle
        { buffer with sequence := publish }
  | ticket (even : buffer.sequence % 2 = 0) :
      Shift buffer .idle (.reading buffer.sequence (.readInto 0) []) buffer
  | restart {ticket : Nat} {goal next : Goal} {loaded : List UInt8} :
      Shift buffer (.reading ticket goal loaded) (.reading ticket next []) buffer
  | load {ticket : Nat} {goal : Goal} {loaded : List UInt8} :
      Shift buffer (.reading ticket goal loaded)
        (.reading ticket goal (loaded ++ buffer.loadWord (loaded.length / 8))) buffer
  | finish {ticket : Nat} {goal : Goal} {loaded : List UInt8} :
      Shift buffer (.reading ticket goal loaded) .idle buffer

/-- What one event makes of a buffer. -/
inductive Outcome (buffer : Buffer) : Buffer -> Prop where
  | idle : Outcome buffer buffer
  | shifted {thread : Nat} {before after : Place} {changed : Buffer}
      (here : buffer.places thread = before) (shift : Shift buffer before after changed) :
      Outcome buffer (changed.go thread after)

theorem run_outcome (words : Nat) (buffer : Buffer) (event : SeqEvent) :
    Outcome buffer (event.run words buffer) := by
  cases event with
  | tryWrite thread =>
    rw [SeqEvent.run]
    split
    next here =>
      split_ifs with even
      · exact .shifted here (.claim even)
      · exact .idle
    next => exact .idle
  | compareExchange thread =>
    rw [SeqEvent.run]
    split
    next seen here =>
      split_ifs with same
      · subst same
        exact .shifted here .win
      · exact .shifted here .lose
    next => exact .idle
  | writeSlice thread slice =>
    rw [SeqEvent.run]
    split
    next publish last next here =>
      split_ifs with complete
      · rw [complete.1] at here
        exact .shifted here .start
      · exact .idle
    next => exact .idle
  | store thread =>
    rw [SeqEvent.run]
    split
    next publish slice next here =>
      split_ifs with inside
      · exact .shifted here (.store inside)
      · exact .idle
    next => exact .idle
  | dropGuard thread =>
    rw [SeqEvent.run]
    split
    next publish slice next here =>
      split_ifs with complete
      · rw [complete] at here
        exact .shifted here .publish
      · exact .idle
    next => exact .idle
  | readBegin thread =>
    rw [SeqEvent.run]
    split
    next here =>
      split_ifs with even
      · exact .shifted here (.ticket even)
      · exact .idle
    next => exact .idle
  | read thread goal =>
    rw [SeqEvent.run]
    split
    next here =>
      split_ifs
      · exact .shifted here .restart
      · exact .idle
    next => exact .idle
  | load thread =>
    rw [SeqEvent.run]
    split
    next here =>
      split_ifs
      · exact .shifted here .load
      · exact .idle
    next => exact .idle
  | endRead thread =>
    rw [SeqEvent.run]
    split
    next here => exact .shifted here .finish
    next => exact .idle

/-! ## What every step keeps -/

/-- The bytes while a slice is being written: those of the words not yet stored are
still older. -/
def HalfWritten (initial bytes : Nat -> UInt8) (history : List (List UInt8)) (slice : List UInt8)
    (next : Nat) : Prop :=
  ∀ byte, bytes byte = contentAt initial
    (if byte / 8 < next ∨ wordCount slice.length <= byte / 8 then history else history.tail) byte

structure Sound (initial : Nat -> UInt8) (buffer : Buffer) : Prop where
  claims : ∀ thread seen, buffer.places thread = .claiming seen -> seen % 2 = 0
  single : ∀ thread other publish slice next otherPublish otherSlice otherNext,
    buffer.places thread = .writing publish slice next ->
      buffer.places other = .writing otherPublish otherSlice otherNext -> thread = other
  odd : ∀ thread publish slice next, buffer.places thread = .writing publish slice next ->
    buffer.sequence % 2 = 1 ∧ publish = buffer.sequence + 1
  written : ∀ thread publish slice next, buffer.places thread = .writing publish slice next ->
    next <= wordCount slice.length ∧ (slice = [] ∨ buffer.history.head? = some slice) ∧
      HalfWritten initial buffer.bytes buffer.history slice next
  settled : buffer.sequence % 2 = 0 ->
    ∀ byte, buffer.bytes byte = contentAt initial buffer.history byte
  tickets : ∀ thread ticket goal loaded, buffer.places thread = .reading ticket goal loaded ->
    ticket % 2 = 0 ∧ ticket <= buffer.sequence ∧ loaded.length % 8 = 0
  loads : ∀ thread goal loaded,
    buffer.places thread = .reading buffer.sequence goal loaded ->
      loaded = (List.range loaded.length).map buffer.bytes

theorem go_places (buffer : Buffer) (thread : Nat) (place : Place) (other : Nat) :
    (buffer.go thread place).places other =
      if other = thread then place else buffer.places other :=
  Function.update_apply ..

section HalfWritten

variable {initial bytes : Nat -> UInt8} {history : List (List UInt8)} {slice : List UInt8}

theorem halfWritten_whole : HalfWritten initial bytes history slice (wordCount slice.length) <->
    ∀ byte, bytes byte = contentAt initial history byte := by
  apply forall_congr'
  intro byte
  rw [if_pos (Nat.lt_or_ge _ _)]

theorem halfWritten_nil (whole : ∀ byte, bytes byte = contentAt initial history byte) :
    HalfWritten initial bytes history [] 0 :=
  halfWritten_whole.mpr whole

theorem halfWritten_start (whole : ∀ byte, bytes byte = contentAt initial history byte) :
    HalfWritten initial bytes (slice :: history) slice 0 := by
  intro byte
  by_cases covered : byte / 8 < wordCount slice.length
  · rw [if_neg (by omega), whole byte]
    rfl
  · rw [if_pos (by omega), contentAt, if_neg covered]
    exact whole byte

theorem HalfWritten.store {next : Nat} (half : HalfWritten initial bytes history slice next)
    (first : history.head? = some slice) (inside : next < wordCount slice.length) :
    HalfWritten initial (fun byte => if byte / 8 = next then slice.getD byte 0 else bytes byte)
      history slice (next + 1) := by
  intro byte
  dsimp only
  by_cases here : byte / 8 = next
  · obtain ⟨older, rfl⟩ := List.head?_eq_some_iff.mp first
    rw [if_pos here, if_pos (by omega), contentAt, if_pos (by omega)]
  rw [if_neg here, half byte]
  congr 1
  by_cases known : byte / 8 < next ∨ wordCount slice.length <= byte / 8
  · rw [if_pos known, if_pos (by omega)]
  · rw [if_neg known, if_neg (by omega)]

end HalfWritten

theorem map_loadWord (buffer : Buffer) (index : Nat) :
    (List.range (8 * index)).map buffer.bytes ++ buffer.loadWord index =
      (List.range (8 * index + 8)).map buffer.bytes := by
  rw [List.range_add, List.map_append, List.map_map]
  rfl

theorem Shift.places {buffer changed : Buffer} {before after : Place}
    (shift : Shift buffer before after changed) : changed.places = buffer.places := by
  cases shift <;> rfl

section Shifts

variable {initial : Nat -> UInt8} {buffer changed : Buffer} {thread : Nat} {before after : Place}
  (sound : Sound initial buffer) (here : buffer.places thread = before)
  (shift : Shift buffer before after changed)

include sound here shift

/-- The sequence never goes back, and nothing is begun while it stands still at an
even number. -/
theorem Sound.sequence_shift : buffer.sequence <= changed.sequence ∧
    (changed.sequence % 2 = 0 -> changed.sequence = buffer.sequence ->
      changed.history = buffer.history) := by
  cases shift with
  | win => exact ⟨Nat.le_succ _, fun _ back => absurd back (Nat.succ_ne_self _)⟩
  | start =>
    refine ⟨Nat.le.refl, fun even _ => ?_⟩
    have odd := (sound.odd thread _ _ _ here).1
    dsimp only at even
    omega
  | publish =>
    have odd := (sound.odd thread _ _ _ here).2
    exact ⟨by dsimp only; omega, fun _ _ => rfl⟩
  | claim even | lose | store inside | ticket even | restart | load | finish =>
    exact ⟨Nat.le.refl, fun _ _ => rfl⟩

/-- While a thread writes, the steps of the others change nothing but their place. -/
theorem Sound.still_shift {other publish next : Nat} {slice : List UInt8} (apart : other ≠ thread)
    (writing : buffer.places other = .writing publish slice next) : changed = buffer := by
  cases shift with
  | win =>
    have even := sound.claims thread _ here
    have odd := (sound.odd other _ _ _ writing).1
    omega
  | start | store inside | publish =>
    exact absurd (sound.single other thread _ _ _ _ _ _ writing here) apart
  | claim even | lose | ticket even | restart | load | finish => rfl

theorem Sound.sole_shift {other publish next : Nat} {slice : List UInt8} (apart : other ≠ thread)
    (writing : buffer.places other = .writing publish slice next) {otherPublish otherNext : Nat}
    {otherSlice : List UInt8} : after ≠ .writing otherPublish otherSlice otherNext := by
  intro enters
  cases shift with
  | win =>
    have even := sound.claims thread _ here
    have odd := (sound.odd other _ _ _ writing).1
    omega
  | start | store inside =>
    exact absurd (sound.single other thread _ _ _ _ _ _ writing here) apart
  | claim even | lose | publish | ticket even | restart | load | finish => cases enters

theorem Sound.claims_shift (other seen : Nat)
    (claiming : (changed.go thread after).places other = .claiming seen) : seen % 2 = 0 := by
  rw [go_places] at claiming
  by_cases same : other = thread
  · rw [if_pos same] at claiming
    cases shift with
    | claim even =>
      cases claiming
      exact even
    | _ => cases claiming
  · rw [if_neg same, shift.places] at claiming
    exact sound.claims other seen claiming

theorem Sound.odd_shift (other publish : Nat) (slice : List UInt8) (next : Nat)
    (writing : (changed.go thread after).places other = .writing publish slice next) :
    changed.sequence % 2 = 1 ∧ publish = changed.sequence + 1 := by
  rw [go_places] at writing
  by_cases same : other = thread
  · rw [if_pos same] at writing
    cases shift with
    | win =>
      cases writing
      have even := sound.claims thread _ here
      exact ⟨by dsimp only; omega, rfl⟩
    | start | store inside =>
      cases writing
      exact sound.odd thread _ _ _ here
    | _ => cases writing
  · rw [if_neg same, shift.places] at writing
    rw [sound.still_shift here shift same writing]
    exact sound.odd other _ _ _ writing

theorem Sound.single_shift (one other publish : Nat) (slice : List UInt8)
    (next otherPublish : Nat) (otherSlice : List UInt8) (otherNext : Nat)
    (first : (changed.go thread after).places one = .writing publish slice next)
    (second : (changed.go thread after).places other = .writing otherPublish otherSlice otherNext) :
    one = other := by
  rw [go_places] at first second
  by_cases oneSame : one = thread
  · by_cases otherSame : other = thread
    · exact oneSame.trans otherSame.symm
    rw [if_pos oneSame] at first
    rw [if_neg otherSame, shift.places] at second
    exact absurd first (sound.sole_shift here shift otherSame second)
  rw [if_neg oneSame, shift.places] at first
  by_cases otherSame : other = thread
  · rw [if_pos otherSame] at second
    exact absurd second (sound.sole_shift here shift oneSame first)
  · rw [if_neg otherSame, shift.places] at second
    exact sound.single one other _ _ _ _ _ _ first second

theorem Sound.tickets_shift (other ticket : Nat) (goal : Goal) (loaded : List UInt8)
    (reading : (changed.go thread after).places other = .reading ticket goal loaded) :
    ticket % 2 = 0 ∧ ticket <= changed.sequence ∧ loaded.length % 8 = 0 := by
  have grows := (sound.sequence_shift here shift).1
  rw [go_places] at reading
  by_cases same : other = thread
  · rw [if_pos same] at reading
    cases shift with
    | ticket even =>
      cases reading
      exact ⟨even, Nat.le.refl, rfl⟩
    | restart =>
      cases reading
      obtain ⟨even, below, _⟩ := sound.tickets thread _ _ _ here
      exact ⟨even, below, rfl⟩
    | load =>
      cases reading
      obtain ⟨even, below, whole⟩ := sound.tickets thread _ _ _ here
      refine ⟨even, below, ?_⟩
      rw [List.length_append, Buffer.loadWord, List.length_map, List.length_range]
      omega
    | _ => cases reading
  · rw [if_neg same, shift.places] at reading
    obtain ⟨even, below, whole⟩ := sound.tickets other _ _ _ reading
    exact ⟨even, Nat.le_trans below grows, whole⟩

theorem Sound.loads_shift (other : Nat) (goal : Goal) (loaded : List UInt8)
    (reading : (changed.go thread after).places other = .reading changed.sequence goal loaded) :
    loaded = (List.range loaded.length).map changed.bytes := by
  have grows := (sound.sequence_shift here shift).1
  rw [go_places] at reading
  by_cases same : other = thread
  · rw [if_pos same] at reading
    cases shift with
    | ticket even | restart =>
      cases reading
      rfl
    | @load ticket aim before =>
      cases reading
      have prior := sound.loads thread goal before here
      have whole : 8 * (before.length / 8) = before.length :=
        Nat.mul_div_cancel' (Nat.dvd_of_mod_eq_zero (sound.tickets thread _ _ _ here).2.2)
      have more := map_loadWord buffer (before.length / 8)
      rw [whole, <- prior] at more
      rw [more, List.length_map, List.length_range]
    | _ => cases reading
  · rw [if_neg same, shift.places] at reading
    -- the ticket is even, so the sequence has stood still and nobody stores
    obtain ⟨even, below, _⟩ := sound.tickets other _ _ _ reading
    have stood : changed.sequence = buffer.sequence := Nat.le_antisymm below grows
    have kept : changed.bytes = buffer.bytes := by
      cases shift with
      | store inside =>
        have odd := (sound.odd thread _ _ _ here).1
        dsimp only at even
        omega
      | _ => rfl
    rw [stood] at reading
    rw [kept]
    exact sound.loads other goal loaded reading

theorem Sound.settled_shift (even : changed.sequence % 2 = 0) (byte : Nat) :
    changed.bytes byte = contentAt initial changed.history byte := by
  cases shift with
  | win =>
    have claimed := sound.claims thread _ here
    dsimp only at even
    omega
  | start | store inside =>
    have odd := (sound.odd thread _ _ _ here).1
    dsimp only at even
    omega
  | publish => exact halfWritten_whole.mp (sound.written _ _ _ _ here).2.2 byte
  | claim _ | lose | ticket _ | restart | load | finish => exact sound.settled even byte

theorem Sound.written_shift (other publish : Nat) (slice : List UInt8) (next : Nat)
    (writing : (changed.go thread after).places other = .writing publish slice next) :
    next <= wordCount slice.length ∧ (slice = [] ∨ changed.history.head? = some slice) ∧
      HalfWritten initial changed.bytes changed.history slice next := by
  have written := sound.written
  rw [go_places] at writing
  by_cases same : other = thread
  · rw [if_pos same] at writing
    cases shift with
    | win =>
      cases writing
      have whole := sound.settled (sound.claims thread _ here)
      exact ⟨Nat.zero_le _, .inl rfl, halfWritten_nil whole⟩
    | start =>
      cases writing
      have whole := halfWritten_whole.mp (written _ _ _ _ here).2.2
      exact ⟨Nat.zero_le _, .inr rfl, halfWritten_start whole⟩
    | store inside =>
      cases writing
      obtain ⟨_, first, half⟩ := written _ _ _ _ here
      rcases first with empty | first
      · rw [empty] at inside
        cases inside
      · exact ⟨inside, .inr first, half.store first inside⟩
    | _ => cases writing
  · rw [if_neg same, shift.places] at writing
    rw [sound.still_shift here shift same writing]
    exact written other _ _ _ writing

theorem Sound.shifted : Sound initial (changed.go thread after) where
  claims := sound.claims_shift here shift
  single := sound.single_shift here shift
  odd := sound.odd_shift here shift
  written := sound.written_shift here shift
  settled := by
    have settled := sound.settled_shift here shift
    exact settled
  tickets := sound.tickets_shift here shift
  loads := sound.loads_shift here shift

end Shifts

section Runs

variable {words : Nat} {initial : Nat -> UInt8} {events : List SeqEvent}

theorem new_sound (initial : Nat -> UInt8) : Sound initial (.new initial) := by
  constructor <;> simp [Buffer.new, contentAt]

theorem Outcome.sound {buffer next : Buffer} (outcome : Outcome buffer next)
    (sound : Sound initial buffer) : Sound initial next := by
  cases outcome with
  | idle => exact sound
  | shifted here shift => exact sound.shifted here shift

theorem bufferAt_sound (n : Nat) : Sound initial (bufferAt words initial events n) :=
  stage_invariant (Sound initial) (new_sound initial)
    (fun buffer event _ sound => (run_outcome words buffer event).sound sound) n

theorem Outcome.sequence {buffer next : Buffer} (outcome : Outcome buffer next)
    (sound : Sound initial buffer) : buffer.sequence <= next.sequence ∧
      (next.sequence % 2 = 0 -> next.sequence = buffer.sequence -> next.history = buffer.history) := by
  cases outcome with
  | idle => exact ⟨Nat.le.refl, fun _ _ => rfl⟩
  | shifted here shift =>
    have kept := sound.sequence_shift here shift
    exact kept

/-- While the sequence stands at an even number no slice is begun. -/
theorem history_of_sequence {m n : Nat} (later : m <= n)
    (even : (bufferAt words initial events m).sequence % 2 = 0)
    (same : (bufferAt words initial events n).sequence =
      (bufferAt words initial events m).sequence) :
    (bufferAt words initial events n).history = (bufferAt words initial events m).history := by
  have sound : Sound initial (bufferAt words initial events m) := bufferAt_sound m
  revert even same
  generalize start : bufferAt words initial events m = earlier at sound
  intro even same
  have kept : Sound initial (bufferAt words initial events n) ∧
      earlier.sequence <= (bufferAt words initial events n).sequence ∧
      ((bufferAt words initial events n).sequence = earlier.sequence ->
        (bufferAt words initial events n).history = earlier.history) := by
    refine stage_keeps (fun buffer => Sound initial buffer ∧ earlier.sequence <= buffer.sequence ∧
      (buffer.sequence = earlier.sequence -> buffer.history = earlier.history)) ?_ later ?_
    · intro buffer event _ ⟨sound, above, held⟩
      have outcome := run_outcome words buffer event
      obtain ⟨grows, still⟩ := outcome.sequence sound
      refine ⟨outcome.sound sound, Nat.le_trans above grows, fun back => ?_⟩
      have stood : buffer.sequence = earlier.sequence :=
        Nat.le_antisymm (back ▸ grows) above
      rw [still (by rw [back]; exact even) (back.trans stood.symm)]
      exact held stood
    · have base : stage (SeqEvent.run words) (.new initial) events m = earlier := start
      rw [base]
      exact ⟨sound, Nat.le.refl, fun _ => rfl⟩
  exact kept.2.2 same

/-- A loaded prefix of settled bytes gives the answer that the whole prefix gives. -/
theorem Goal.answer_expected (goal : Goal) {loaded : List UInt8} {content : Nat -> UInt8}
    (prior : loaded = (List.range loaded.length).map content)
    (finished : goal.unfinished loaded = false) : goal.answer loaded = goal.expected content := by
  have firsts : ∀ len, loaded.take len = (List.range (min len loaded.length)).map content := by
    intro len
    rw [prior, <- List.map_take, List.take_range, List.length_map, List.length_range]
  cases goal with
  | readInto len =>
    have enough : len <= loaded.length := by
      apply Nat.le_of_not_lt
      intro short
      simp [Goal.unfinished, Goal.differs, Goal.len, short] at finished
    rw [Goal.answer, Goal.expected, firsts len, Nat.min_eq_left enough]
  | eqSlice slice =>
    rw [Goal.answer, Goal.expected]
    congr 1
    by_cases differs : (Goal.eqSlice slice).differs loaded = true
    · rw [differs]
      symm
      apply decide_eq_false
      intro same
      apply bne_iff_ne.mp differs
      rw [firsts, <- same, <- List.map_take, List.take_range, List.length_map, List.length_range,
        Nat.min_comm]
    have enough : slice.length <= loaded.length := by
      apply Nat.le_of_not_lt
      intro short
      simp [Goal.unfinished, differs, Goal.len, short] at finished
    have equal : loaded.take slice.length = slice.take loaded.length := by
      simpa [Goal.differs] using differs
    rw [firsts, Nat.min_eq_left enough, List.take_of_length_le enough] at equal
    rw [Bool.eq_false_iff.mpr differs, equal]
    simp

/-- Two writers never have the buffer at once, and a read whose ticket validates gives
the prefix that the slices begun before its `read_begin` left. -/
theorem validated_reads_settled (words : Nat) (initial : Nat -> UInt8) (events : List SeqEvent)
    (n : Nat) :
    (∀ thread other publish slice next otherPublish otherSlice otherNext,
      (bufferAt words initial events n).places thread = .writing publish slice next ->
      (bufferAt words initial events n).places other = .writing otherPublish otherSlice otherNext ->
        thread = other) ∧
    (∀ thread ticket goal seen m, m <= n ->
      (bufferAt words initial events m).sequence = ticket ->
      (bufferAt words initial events n).validated thread ticket goal seen ->
        seen = goal.expected (contentAt initial (bufferAt words initial events m).history)) := by
  have sound : Sound initial (bufferAt words initial events n) := bufferAt_sound n
  refine ⟨sound.single, ?_⟩
  rintro thread ticket goal seen m later rfl ⟨loaded, here, finished, same, rfl⟩
  have even := (sound.tickets thread _ goal loaded here).1
  have settled := sound.settled (by rw [same]; exact even)
  rw [<- history_of_sequence later even same]
  apply goal.answer_expected _ finished
  have prior := sound.loads thread goal loaded (by rw [same]; exact here)
  rw [prior]
  simp [settled]

end Runs

end SeqLock
end Carrick

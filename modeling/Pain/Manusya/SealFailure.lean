import Pain.Base.UuidText
import Pain.Manusya.Modes
import Pain.Manusya.Steps

/-!
# Seals that fail half way

`Chunk::query_and_seal` seals the file of the chunk, asks for its size, and only
then makes the chunk `kSealed`. If the size cannot be had, it returns the error
with the file sealed and the chunk open, and the chunk goes on appending through
its descriptor, which the mode of the file does not concern any more.

`Follows` says what any step leaves of a chunk and of its file. The rest is read
off it: that chunks have inodes of their own, that sealed files belong to sealed
chunks, and that such files keep their bytes.
-/

namespace Pain.Manusya

namespace Chunk

variable {σ H : Type} {store : Store σ H} (modes : store.Modes)

theorem DrainTurn.same_state {before after : Chunk H × σ} (turn : DrainTurn store before after) :
    after.1.state = before.1.state := by
  cases turn <;> rfl

/-- A turn of the drain loop writes to the file of the chunk and leaves its mode. -/
theorem DrainTurn.changes {before after : Chunk H × σ} (turn : DrainTurn store before after) :
    Store.Changes modes.file before.1.fh Store.SameMode before.2 after.2 := by
  cases turn with
  | reject => exact .of_eq (fun _ => rfl) (fun _ => rfl)
  | write => exact modes.append _ _ _ _
  | fail => exact modes.append _ _ _ _

theorem changes_of_drainTurns {before after : Chunk H × σ}
    (turns : Relation.ReflTransGen (DrainTurn store) before after) :
    Store.Changes modes.file before.1.fh Store.SameMode before.2 after.2 ∧
      after.1.state = before.1.state := by
  induction turns with
  | refl => exact ⟨.of_eq (fun _ => rfl) (fun _ => rfl), rfl⟩
  | tail earlier turn ih =>
      have changes := turn.changes modes
      rw [(same_file_of_drainTurns earlier).1] at changes
      exact ⟨ih.1.trans (fun left right => Eq.trans right left) changes,
        turn.same_state.trans ih.2⟩

/-- An append writes to the file of its chunk and leaves its mode and the state of the chunk. -/
theorem Appended.changes {buf : Bytes} {offset : ℕ} {chunk : Chunk H} {state : σ}
    {after : Chunk H × σ} (appended : Appended store buf offset chunk state after) :
    Store.Changes modes.file chunk.fh Store.SameMode state after.2 ∧
      after.1.state = chunk.state := by
  cases appended with
  | refused => exact ⟨.of_eq (fun _ => rfl) (fun _ => rfl), rfl⟩
  | queued => exact ⟨.of_eq (fun _ => rfl) (fun _ => rfl), rfl⟩
  | failed => exact ⟨modes.append _ _ _ _, rfl⟩
  | written unsealed reached ok drains drained =>
      rcases changes_of_drainTurns modes drains with ⟨changes, sameState⟩
      exact ⟨(modes.append _ _ _ _).trans (fun left right => Eq.trans right left) changes,
        sameState⟩

/-- A sealed chunk does not write. -/
theorem Appended.store_of_sealed {buf : Bytes} {offset : ℕ} {chunk : Chunk H} {state : σ}
    {after : Chunk H × σ} (appended : Appended store buf offset chunk state after)
    (isSealed : chunk.state = .kSealed) : after.2 = state := by
  cases appended with
  | refused => rfl
  | queued unsealed => exact absurd isSealed unsealed
  | failed unsealed => exact absurd isSealed unsealed
  | written unsealed => exact absurd isSealed unsealed

/-- `query_and_seal` may change the mode of the file, never its bytes. -/
theorem Sealed.changes {chunk : Chunk H} {state : σ} {result : Except Failure ℕ × Chunk H × σ}
    (called : Sealed store chunk state result) :
    Store.Changes modes.file chunk.fh (fun inode changed => changed.data = inode.data) state
      result.2.2 := by
  have both : Store.Changes modes.file chunk.fh (fun inode changed => changed.data = inode.data)
      state (store.size chunk.fh (store.sealFile chunk.fh state).2).2 :=
    (modes.seal_changes chunk.fh state).trans (fun left right => Eq.trans right left)
      (modes.size_changes chunk.fh chunk.fh _)
  cases called with
  | null => exact .of_eq (fun _ => rfl) (fun _ => rfl)
  | sealFailed => exact modes.seal_changes chunk.fh state
  | sizeFailed => exact both
  | done => exact both

end Chunk

namespace World

variable {σ H : Type} {store : Store σ H}

/-- A file stands behind the handle of every chunk, and no two chunks share an inode. -/
structure Filed (modes : store.Modes) (world : World σ H) : Prop where
  waiting : world.Waiting
  files : ∀ {pointer : ℕ} {chunk : Chunk H}, world.chunks[pointer]? = some chunk →
    ∃ number inode, modes.file world.store chunk.fh = some (number, inode)
  apart : ∀ {left right : ℕ} {leftChunk rightChunk : Chunk H} {number leftInode rightInode},
    world.chunks[left]? = some leftChunk → world.chunks[right]? = some rightChunk →
      modes.file world.store leftChunk.fh = some (number, leftInode) →
      modes.file world.store rightChunk.fh = some (number, rightInode) → left = right

/-- The file of a chunk is sealed only if the chunk is. -/
def Marked (modes : store.Modes) (world : World σ H) : Prop :=
  ∀ (pointer : ℕ) (chunk : Chunk H), world.chunks[pointer]? = some chunk →
    modes.isSealed world.store chunk.fh = true → chunk.state = .kSealed

/-- If the step is a `query_and_seal` that returns an error, the chunk and the mode of its file are
as before. -/
def FailsCleanly (modes : store.Modes) (world : World σ H) : Event → Prop
  | .queryAndSeal pointer length =>
      ∀ (chunk : Chunk H) (failure : Failure), world.chunks[pointer]? = some chunk →
        (chunk.queryAndSeal store length world.store).1 = .error failure →
          (chunk.queryAndSeal store length world.store).2.1 = chunk ∧
            modes.isSealed (chunk.queryAndSeal store length world.store).2.2 chunk.fh =
              modes.isSealed world.store chunk.fh
  | _ => True

/-- The step writes no byte to a file that is sealed. -/
def SparesSealed (modes : store.Modes) (text : UUID.Text) (world : World σ H) (event : Event) :
    Prop :=
  ∀ (pointer : ℕ) (chunk : Chunk H) (next : World σ H), world.chunks[pointer]? = some chunk →
    modes.isSealed world.store chunk.fh = true → world.step store text event = some next →
      modes.bytes next.store chunk.fh = modes.bytes world.store chunk.fh

/-- If the step is a `query_and_seal` that seals a file, the size behind it is answered. -/
def SizeAnswers (modes : store.Modes) (world : World σ H) : Event → Prop
  | .queryAndSeal pointer .valid =>
      ∀ chunk : Chunk H, world.chunks[pointer]? = some chunk →
        modes.isSealed world.store chunk.fh = false →
        (store.sealFile chunk.fh world.store).1 = Status.OK →
          ∃ length, (store.size chunk.fh (store.sealFile chunk.fh world.store).2).1 = .ok length
  | _ => True

/-- What a step leaves of a chunk and of its file. -/
structure Follows (modes : store.Modes) (world next : World σ H) (event : Event) (pointer : ℕ)
    (earlier found : Chunk H) : Prop where
  handle : found.fh = earlier.fh
  file : ∀ {number inode}, modes.file world.store earlier.fh = some (number, inode) →
    ∃ changed, modes.file next.store earlier.fh = some (number, changed) ∧
      (earlier.state = .kSealed → changed.data = inode.data) ∧
      ((∀ length, event ≠ .queryAndSeal pointer length) → changed.readOnly = inode.readOnly)
  state : (∀ length, event ≠ .queryAndSeal pointer length) → found.state = earlier.state

section Step

variable {modes : store.Modes} {text : UUID.Text} {world next : World σ H} {event : Event}

theorem follows_of_same {pointer : ℕ} {chunk : Chunk H}
    (same : ∀ number inode, modes.file world.store chunk.fh = some (number, inode) →
      modes.file next.store chunk.fh = some (number, inode)) :
    Follows modes world next event pointer chunk chunk where
  handle := rfl
  file := fun found => ⟨_, same _ _ found, fun _ => rfl, fun _ => rfl⟩
  state := fun _ => rfl

/-- A section of one chunk leaves the others and their files alone. -/
theorem Filed.follows_put (filed : world.Filed modes) {target pointer : ℕ}
    {old chunk earlier : Chunk H} {state : σ} {related : Inode → Inode → Prop}
    (targeted : world.chunks[target]? = some old)
    (changes : Store.Changes modes.file old.fh related world.store state)
    (own : Follows modes world (world.put target chunk state) event target old chunk)
    (present : world.chunks[pointer]? = some earlier) :
    ∃ found, (world.put target chunk state).chunks[pointer]? = some found ∧
      Follows modes world (world.put target chunk state) event pointer earlier found := by
  by_cases here : target = pointer
  · subst here
    rw [targeted, Option.some.injEq] at present
    subst present
    exact ⟨chunk, getElem?_put_self chunk state targeted, own⟩
  · refine ⟨earlier, by simp [getElem?_put targeted, here, present], follows_of_same ?_⟩
    intro number inode found
    rcases filed.files targeted with ⟨targetNumber, targetInode, targetFile⟩
    refine (changes targetNumber targetInode targetFile).2 earlier.fh number inode ?_ found
    rintro rfl
    exact here (filed.apart targeted present targetFile found)

theorem Stepped.follows (stepped : Stepped store text world event next)
    (filed : world.Filed modes) {pointer : ℕ} {earlier : Chunk H}
    (present : world.chunks[pointer]? = some earlier) :
    ∃ found, next.chunks[pointer]? = some found ∧
      Follows modes world next event pointer earlier found := by
  cases stepped with
  | idle => exact ⟨earlier, present, follows_of_same (fun _ _ found => found)⟩
  | notCreated =>
      exact ⟨earlier, present, follows_of_same (fun _ _ found => modes.create_other _ found)⟩
  | created opens =>
      refine ⟨earlier, getElem?_adopt.mpr (.inl present), follows_of_same ?_⟩
      rcases modes.create_ok opens with ⟨number, -, others⟩
      exact fun otherNumber inode found => (others earlier.fh otherNumber inode found).2
  | removed =>
      refine ⟨earlier, present, follows_of_same ?_⟩
      exact fun number inode found => (modes.remove _ _ _).trans found
  | read =>
      exact ⟨earlier, present,
        follows_of_same (fun _ _ found => modes.openAndRead _ _ _ _ _ found)⟩
  | @timedOut target call chunk offset buf targeted pending =>
      have unchanged : Store.Changes modes.file chunk.fh Eq world.store world.store :=
        .of_eq (fun _ => rfl) (fun _ => rfl)
      exact filed.follows_put targeted unchanged
        ⟨rfl, fun found => ⟨_, found, fun _ => rfl, fun _ => rfl⟩, fun _ => rfl⟩ present
  | appended targeted appended =>
      rcases appended.changes modes with ⟨changes, sameState⟩
      refine filed.follows_put targeted changes ⟨appended.same_file.1, ?_, fun _ => sameState⟩
        present
      intro number inode found
      rcases (changes number inode found).1 with ⟨changed, sameMode, foundAfter⟩
      refine ⟨changed, foundAfter, ?_, fun _ => sameMode⟩
      intro isSealed
      have unchanged := appended.store_of_sealed isSealed
      have foundBefore : modes.file world.store _ = some (number, changed) :=
        unchanged ▸ foundAfter
      rw [found, Option.some.injEq, Prod.mk.injEq] at foundBefore
      rw [foundBefore.2]
  | @queriedAndSealed target length chunk result targeted called =>
      have changes := called.changes modes
      refine filed.follows_put targeted changes ⟨called.same_file.1, ?_, ?_⟩ present
      · intro number inode found
        rcases (changes number inode found).1 with ⟨changed, sameData, foundAfter⟩
        exact ⟨changed, foundAfter, fun _ => sameData, fun other => absurd rfl (other length)⟩
      · exact fun other => absurd rfl (other length)

theorem exists_of_put {target pointer : ℕ} {old chunk found : Chunk H} {state : σ}
    (targeted : world.chunks[target]? = some old)
    (foundAt : (world.put target chunk state).chunks[pointer]? = some found) :
    ∃ earlier, world.chunks[pointer]? = some earlier :=
  forall_put (P := fun pointer _ => ∃ earlier, world.chunks[pointer]? = some earlier) targeted
    ⟨old, targeted⟩ (fun _ other _ otherAt => ⟨other, otherAt⟩) pointer found foundAt

variable (modes) in
theorem Stepped.chunk_cases (stepped : Stepped store text world event next) {pointer : ℕ}
    {found : Chunk H} (foundAt : next.chunks[pointer]? = some found) :
    (∃ earlier, world.chunks[pointer]? = some earlier) ∨
      pointer = world.chunks.length ∧
        ∃ number, modes.file next.store found.fh = some (number, ⟨[], false⟩) ∧
          ∀ other otherNumber inode, modes.file world.store other = some (otherNumber, inode) →
            otherNumber ≠ number := by
  cases stepped with
  | created opens =>
      rcases getElem?_adopt.mp foundAt with old | ⟨isLast, rfl⟩
      · exact .inl ⟨found, old⟩
      · rcases modes.create_ok opens with ⟨number, created, others⟩
        exact .inr ⟨isLast, number, created,
          fun other otherNumber inode present => (others other otherNumber inode present).1⟩
  | idle => exact .inl ⟨found, foundAt⟩
  | notCreated => exact .inl ⟨found, foundAt⟩
  | removed => exact .inl ⟨found, foundAt⟩
  | read => exact .inl ⟨found, foundAt⟩
  | timedOut targeted => exact .inl (exists_of_put targeted foundAt)
  | appended targeted => exact .inl (exists_of_put targeted foundAt)
  | queriedAndSealed targeted => exact .inl (exists_of_put targeted foundAt)

theorem Stepped.filed (stepped : Stepped store text world event next)
    (filed : world.Filed modes) : next.Filed modes := by
  have numbered : ∀ {pointer : ℕ} {found : Chunk H}, next.chunks[pointer]? = some found →
      ∃ number inode, modes.file next.store found.fh = some (number, inode) ∧
        ((∃ earlier before, world.chunks[pointer]? = some earlier ∧
            modes.file world.store earlier.fh = some (number, before)) ∨
          pointer = world.chunks.length ∧
            ∀ other otherNumber inode, modes.file world.store other = some (otherNumber, inode) →
              otherNumber ≠ number) := by
    intro pointer found foundAt
    rcases stepped.chunk_cases modes foundAt with
      ⟨earlier, present⟩ | ⟨isLast, number, created, others⟩
    · rcases stepped.follows filed present with ⟨later, laterAt, follows⟩
      rw [foundAt, Option.some.injEq] at laterAt
      subst laterAt
      rcases filed.files present with ⟨number, inode, before⟩
      rcases follows.file before with ⟨changed, after, -⟩
      exact ⟨number, changed, follows.handle ▸ after, .inl ⟨earlier, inode, present, before⟩⟩
    · exact ⟨number, _, created, .inr ⟨isLast, others⟩⟩
  refine ⟨stepped.waiting filed.waiting, ?_, ?_⟩
  · intro pointer found foundAt
    rcases numbered foundAt with ⟨number, inode, after, -⟩
    exact ⟨number, inode, after⟩
  · intro left right leftChunk rightChunk number leftInode rightInode leftAt rightAt leftFile
      rightFile
    rcases numbered leftAt with ⟨leftNumber, _, leftAfter, leftOrigin⟩
    rcases numbered rightAt with ⟨rightNumber, _, rightAfter, rightOrigin⟩
    rw [leftFile, Option.some.injEq, Prod.mk.injEq] at leftAfter
    rw [rightFile, Option.some.injEq, Prod.mk.injEq] at rightAfter
    rcases leftAfter with ⟨rfl, -⟩
    rcases rightAfter with ⟨rfl, -⟩
    rcases leftOrigin with ⟨leftEarlier, _, leftPresent, leftBefore⟩ | ⟨leftLast, leftNew⟩ <;>
      rcases rightOrigin with ⟨rightEarlier, _, rightPresent, rightBefore⟩ | ⟨rightLast, rightNew⟩
    · exact filed.apart leftPresent rightPresent leftBefore rightBefore
    · exact absurd rfl (rightNew _ _ _ leftBefore)
    · exact absurd rfl (leftNew _ _ _ rightBefore)
    · rw [leftLast, rightLast]

theorem Stepped.spares (stepped : Stepped store text world event next)
    (filed : world.Filed modes) (marked : world.Marked modes) {pointer : ℕ} {chunk : Chunk H}
    (present : world.chunks[pointer]? = some chunk)
    (isSealed : modes.isSealed world.store chunk.fh = true) :
    modes.bytes next.store chunk.fh = modes.bytes world.store chunk.fh := by
  rcases stepped.follows filed present with ⟨found, -, follows⟩
  rcases filed.files present with ⟨number, inode, before⟩
  rcases follows.file before with ⟨changed, after, sameData, -⟩
  rw [Store.Modes.bytes_eq after, Store.Modes.bytes_eq before,
    sameData (marked pointer chunk present isSealed)]

/-- A failed `query_and_seal` leaves everything exactly if the size of a file that it has sealed is
answered. -/
theorem failsCleanly_iff_sizeAnswers (filed : world.Filed modes) :
    world.FailsCleanly modes event ↔ world.SizeAnswers modes event := by
  cases event with
  | queryAndSeal pointer length =>
      cases length with
      | null =>
          refine iff_of_true ?_ trivial
          intro chunk failure present failed
          exact ⟨rfl, rfl⟩
      | valid =>
          constructor
          · intro clean chunk present unsealed sealedOk
            rcases chunk.queryAndSeal_cases store world.store with
              ⟨failure, sealFailed, -⟩ | ⟨-, ⟨failure, -, called⟩ | ⟨length, sized, -⟩⟩
            · simp [sealFailed, Status.OK] at sealedOk
            · have kept := (clean chunk failure present (by rw [called])).2
              rcases filed.files present with ⟨number, inode, found⟩
              rw [called, modes.isSealed_congr (modes.size _ _ _),
                modes.isSealed_of_seal_ok found sealedOk, unsealed] at kept
              cases kept
            · exact ⟨length, sized⟩
          · intro answers chunk failure present failed
            rcases chunk.queryAndSeal_cases store world.store with
              ⟨_, sealFailed, called⟩ | ⟨sealedOk, ⟨_, sizeFailed, called⟩ | ⟨_, -, called⟩⟩
            · rw [called]
              exact ⟨rfl, modes.isSealed_congr (modes.seal_error sealFailed _)⟩
            · rw [called]
              refine ⟨rfl, ?_⟩
              rcases filed.files present with ⟨number, inode, found⟩
              rw [modes.isSealed_congr (modes.size _ _ _),
                modes.isSealed_of_seal_ok found sealedOk]
              by_contra unsealed
              rcases answers chunk present (by simpa using Ne.symm unsealed) sealedOk with
                ⟨length, sized⟩
              simp [sizeFailed] at sized
            · rw [called] at failed
              cases failed
  | _ => exact Iff.rfl

/-- If the size is answered, a `query_and_seal` that seals the file seals the chunk. -/
theorem queryAndSeal_marked (filed : world.Filed modes) (marked : world.Marked modes)
    {pointer : ℕ} {length : OutPointer} {chunk : Chunk H}
    (present : world.chunks[pointer]? = some chunk)
    (answers : world.SizeAnswers modes (.queryAndSeal pointer length))
    (isSealed : modes.isSealed (chunk.queryAndSeal store length world.store).2.2 chunk.fh = true) :
    (chunk.queryAndSeal store length world.store).2.1.state = .kSealed := by
  have clean := (failsCleanly_iff_sizeAnswers filed).mpr answers
  have called := chunk.queryAndSeal_spec store length world.store
  cases returned : (chunk.queryAndSeal store length world.store).1 with
  | error failure =>
      rcases clean chunk failure present returned with ⟨sameChunk, sameMode⟩
      rw [sameChunk]
      exact marked pointer chunk present (sameMode ▸ isSealed)
  | ok size =>
      generalize chunk.queryAndSeal store length world.store = result at returned called ⊢
      cases called with
      | done => rfl
      | _ => cases returned

/-- Every step whose size is answered keeps it so that sealed files belong to sealed chunks. -/
theorem step_marked (took : world.step store text event = some next)
    (stepped : Stepped store text world event next) (filed : world.Filed modes)
    (marked : world.Marked modes) (answers : world.SizeAnswers modes event) :
    next.Marked modes := by
  intro pointer found foundAt isSealed
  rcases stepped.chunk_cases modes foundAt with ⟨earlier, present⟩ | ⟨-, number, created, -⟩
  · rcases stepped.follows filed present with ⟨later, laterAt, follows⟩
    rw [foundAt, Option.some.injEq] at laterAt
    subst laterAt
    rcases filed.files present with ⟨number, inode, before⟩
    rcases follows.file before with ⟨changed, after, -, sameMode⟩
    by_cases own : ∃ length, event = .queryAndSeal pointer length
    · rcases own with ⟨length, rfl⟩
      simp only [step, present, Option.some.injEq] at took
      subst took
      rw [getElem?_put_self _ _ present, Option.some.injEq] at foundAt
      subst foundAt
      rw [follows.handle] at isSealed
      exact queryAndSeal_marked filed marked present answers isSealed
    · have other : ∀ length, event ≠ .queryAndSeal pointer length :=
        fun length isQuery => own ⟨length, isQuery⟩
      rw [follows.handle, Store.Modes.isSealed_eq after, sameMode other,
        ← Store.Modes.isSealed_eq before] at isSealed
      rw [follows.state other]
      exact marked pointer earlier present isSealed
  · simp [Store.Modes.isSealed_eq created] at isSealed

end Step

theorem initial_filed (modes : store.Modes) (state : σ) : (initial state).Filed modes where
  waiting := initial_waiting state
  files := by
    intro pointer chunk found
    simp [initial] at found
  apart := by
    intro left right leftChunk rightChunk number leftInode rightInode found
    simp [initial] at found

/-- Over any run, and whatever the calls of the store answer, failed seals are clean, sealed files
are spared and belong to sealed chunks exactly if the size of every file that is sealed is
answered. -/
theorem failsCleanly_run_iff (modes : store.Modes) (text : UUID.Text) (state : σ)
    (events : List Event) :
    (Lib.Guarded (step store text) (FailsCleanly modes) (initial state) events ∧
      Lib.Throughout (step store text) (Marked modes) (initial state) events ∧
      Lib.Guarded (step store text) (SparesSealed modes text) (initial state) events) ↔
    Lib.Guarded (step store text) (SizeAnswers modes) (initial state) events := by
  have kept : ∀ {world : World σ H} {event : Event} {next : World σ H},
      world.Filed modes ∧ world.Marked modes → world.SizeAnswers modes event →
        world.step store text event = some next → next.Filed modes ∧ next.Marked modes := by
    rintro world event next ⟨filed, marked⟩ answers took
    have stepped := stepped_of_step filed.waiting took
    exact ⟨stepped.filed filed, step_marked took stepped filed marked answers⟩
  have start : (initial state).Filed modes ∧ (initial state).Marked modes := by
    refine ⟨initial_filed modes state, ?_⟩
    intro pointer chunk found
    simp [initial] at found
  have agree : Lib.Guarded (step store text)
      (fun world event => world.FailsCleanly modes event ∧ world.SparesSealed modes text event)
        (initial state) events ↔
      Lib.Guarded (step store text) (SizeAnswers modes) (initial state) events := by
    refine Lib.guarded_iff_of_invariant (fun world => world.Filed modes ∧ world.Marked modes)
      ?_ kept start
    rintro world event ⟨filed, marked⟩
    rw [failsCleanly_iff_sizeAnswers filed]
    refine and_iff_left ?_
    intro pointer chunk next present isSealed took
    exact (stepped_of_step filed.waiting took).spares filed marked present isSealed
  constructor
  · rintro ⟨clean, -, spares⟩
    exact agree.mp (Lib.guarded_and_iff.mpr ⟨clean, spares⟩)
  · intro answers
    rcases Lib.guarded_and_iff.mp (agree.mpr answers) with ⟨clean, spares⟩
    exact ⟨clean, (Lib.throughout_of_guarded _ kept start answers).mono And.right, spares⟩

section Local

variable {text : UUID.Text} {world : World (Posix × List (Option Failure)) ℕ} {event : Event}

/-- If the step is a `query_and_seal` of a file that is not sealed, it is not the case that the next
call succeeds, which is the `seal`, and the one behind it fails, which is the `size`. -/
def SealStands (world : World (Posix × List (Option Failure)) ℕ) : Event → Prop
  | .queryAndSeal pointer .valid =>
      ∀ chunk : Chunk ℕ, world.chunks[pointer]? = some chunk →
        LocalStore.modes.unreliable.isSealed world.store chunk.fh = false →
          ∀ failure later, world.store.2 ≠ none :: some failure :: later
  | _ => True

theorem sizeAnswers_iff_sealStands (filed : world.Filed LocalStore.modes.unreliable) :
    world.SizeAnswers LocalStore.modes.unreliable event ↔ world.SealStands event := by
  rcases world with ⟨⟨posix, pattern⟩, chunks, bank⟩
  cases event with
  | queryAndSeal pointer length =>
      cases length with
      | null => exact Iff.rfl
      | valid =>
          constructor
          · intro answers chunk present unsealed failure later outcomes
            rcases filed.files present with ⟨number, inode, found⟩
            simp only at outcomes
            subst outcomes
            rcases answers chunk present unsealed (LocalStore.sealFile_ok found) with ⟨size, sized⟩
            cases sized
          · intro stands chunk present unsealed sealedOk
            rcases filed.files present with ⟨number, inode, found⟩
            have answered := LocalStore.size_sealFile_ok found
            rcases pattern with _ | ⟨_ | failure, pattern⟩
            · exact answered
            · rcases pattern with _ | ⟨_ | failure, pattern⟩
              · exact answered
              · exact answered
              · exact absurd rfl (stands chunk present unsealed failure pattern)
            · cases sealedOk
  | _ => exact Iff.rfl

/-- Seals that fail. Let a chunk server run on a directory, with calls of `seal` and `size` that
fail in any pattern and have no effect then. A `query_and_seal` that returns an error leaves the
state of the chunk and the mode of its file, the file of a chunk is sealed only if the chunk is, and
no byte is written to a sealed file, in all steps and states of the run, if and only if no `size`
fails behind a `seal` that has sealed the file. -/
theorem seal_failure_iff (text : UUID.Text) (posix : Posix) (outcomes : List (Option Failure))
    (events : List Event) :
    (Lib.Guarded (step LocalStore.store.unreliable text)
        (FailsCleanly LocalStore.modes.unreliable) (initial (posix, outcomes)) events ∧
      Lib.Throughout (step LocalStore.store.unreliable text)
        (Marked LocalStore.modes.unreliable) (initial (posix, outcomes)) events ∧
      Lib.Guarded (step LocalStore.store.unreliable text)
        (SparesSealed LocalStore.modes.unreliable text) (initial (posix, outcomes)) events) ↔
    Lib.Guarded (step LocalStore.store.unreliable text) SealStands
      (initial (posix, outcomes)) events := by
  rw [failsCleanly_run_iff]
  refine Lib.guarded_iff_of_invariant (fun world => world.Filed LocalStore.modes.unreliable)
    sizeAnswers_iff_sealStands ?_ (initial_filed _ _)
  intro world event next filed _ took
  exact (stepped_of_step filed.waiting took).filed filed

/-- A byte is written to a chunk and the chunk is sealed; `fstat` fails behind the `fchmod`. The
chunk stays open, and it writes a second byte to the file that is sealed. -/
theorem seal_fails_half_way :
    ∃ world sealedWorld final,
      (initial (Posix.empty, [none, some ⟨.other 5, "failed to fstat"⟩])).run
        LocalStore.store.unreliable .canonical
        [.createChunk .valid ⟨0, 1⟩, .append 0 [7] 0] = some world ∧
      ¬ world.FailsCleanly LocalStore.modes.unreliable (.queryAndSeal 0 .valid) ∧
      world.step LocalStore.store.unreliable .canonical (.queryAndSeal 0 .valid) =
        some sealedWorld ∧
      ¬ sealedWorld.Marked LocalStore.modes.unreliable ∧
      sealedWorld.step LocalStore.store.unreliable .canonical (.append 0 [8] 1) = some final ∧
      LocalStore.modes.unreliable.isSealed sealedWorld.store 0 = true ∧
      LocalStore.modes.unreliable.bytes sealedWorld.store 0 = some [7] ∧
      LocalStore.modes.unreliable.bytes final.store 0 = some [7, 8] := by
  refine ⟨_, _, _, rfl, ?_, rfl, ?_, rfl, rfl, rfl, rfl⟩
  · intro clean
    have kept := (clean _ _ rfl rfl).2
    exact absurd kept (by decide)
  · intro marked
    have state := marked 0 _ rfl rfl
    exact absurd state (by decide)

end Local

end World

end Pain.Manusya

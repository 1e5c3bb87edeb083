import Mathlib.Data.List.Perm.Lattice
import ReplicatedStore.Proofs.Session.Attending

/-!
# Background writes that are counted

A session keeps a list of the background writes that it has launched, and counts those on it that are
under way. What it finds finished it strikes off when it launches the next one, and who waits takes the
whole list. So a background write that is under way is on the list or in the hands of somebody who
waits for it, and never both. The count leaves out what is in such hands, and so does the next one who
waits.

Main results:

* `Session.books_of_move?` — what each move does to the list and to those who wait.
* `Session.booked_of_reachable` — the list has background writes alone, and nobody waits for those on it.
* `Session.accounts_of_reachable` — what is counted, and what is finished when somebody has waited.
-/

namespace ReplicatedStore

/-- Whether an order that does this has taken over a background write. -/
def Activity.hasTaken : Activity → Nat → Bool
  | draining fans, fan => fans.contains fan
  | walking .., _ | joining _, _ => false

/-- Whether an order that does this waits for no background write, and for no fan-out that was there. -/
def Activity.IsApart (count : Nat) : Activity → Prop
  | walking .. => True
  | joining fan => count ≤ fan
  | draining _ => False

namespace Session

/-- For each fan-out, whether it was left to the background. -/
def kinds (s : Session) : List Bool := s.fans.map (·.detached)

/-- Whether the fan-out with a number is a background write. -/
def IsBackground (s : Session) (fan : Nat) : Prop := s.kinds[fan]? = some true

instance (s : Session) (fan : Nat) : Decidable (s.IsBackground fan) :=
  inferInstanceAs (Decidable (_ = _))

/-- The background writes launched so far that are not finished. -/
def underWay (s : Session) : List Nat :=
  (List.range s.fans.length).filter fun fan => s.IsBackground fan && !s.isFinished fan

/-- Whether somebody who waits has taken over a background write. -/
def isTaken (s : Session) (fan : Nat) : Bool := s.running.any (·.activity.hasTaken fan)

variable {s t u : Session} {ticket fan : Nat} {o : Order} {m : Move} {moves : List Move} {e : Ended}

theorem length_kinds (s : Session) : s.kinds.length = s.fans.length := List.length_map _

theorem kinds_eq (h : t.fans = s.fans) : t.kinds = s.kinds := by
  rw [kinds, kinds, h]

theorem IsBackground.lt (h : s.IsBackground fan) : fan < s.fans.length := by
  rw [← length_kinds]
  exact (List.getElem?_eq_some_iff.mp h).1

theorem mem_underWay : fan ∈ s.underWay ↔ s.IsBackground fan ∧ s.isFinished fan = false := by
  rw [underWay, List.mem_filter, List.mem_range, Bool.and_eq_true, decide_eq_true_iff,
    Bool.not_eq_true']
  exact ⟨fun h => h.2, fun h => ⟨h.1.lt, h⟩⟩

theorem isTaken_iff : s.isTaken fan = true ↔
    ∃ p ∈ s.running, ∃ fans, p.activity = .draining fans ∧ fan ∈ fans := by
  rw [isTaken, List.any_eq_true]
  constructor
  · rintro ⟨p, hp, hTaken⟩
    refine ⟨p, hp, ?_⟩
    cases hActivity : p.activity with
    | draining fans =>
      rw [hActivity] at hTaken
      exact ⟨fans, rfl, List.contains_iff_mem.mp hTaken⟩
    | walking walk due held =>
      rw [hActivity] at hTaken
      contradiction
    | joining other =>
      rw [hActivity] at hTaken
      contradiction
  · rintro ⟨p, hp, fans, hActivity, hFan⟩
    refine ⟨p, hp, ?_⟩
    rw [hActivity]
    exact List.contains_iff_mem.mpr hFan

/-! ## What moves do to the books -/

/-- What can be done to the list of background writes, and to those who wait for them. -/
inductive Books (s t : Session) : Prop
  /-- nothing is launched or taken over -/
  | keeps {more : List Bool} (hKinds : t.kinds = s.kinds ++ more) (hMore : true ∉ more)
      (hLaunched : t.launched = s.launched)
      (hRunning : ∀ p ∈ t.running, p ∈ s.running ∨ p.activity.IsApart s.fans.length) : Books s t
  /-- a background write is launched, and what is finished is struck off -/
  | launches (hKinds : t.kinds = s.kinds ++ [true])
      (hLaunched : t.launched = s.launched.filter (fun fan => !s.isFinished fan) ++ [s.fans.length])
      (hRunning : ∀ p ∈ t.running, p ∈ s.running) : Books s t
  /-- the whole list is taken over -/
  | takes (hKinds : t.kinds = s.kinds) (hLaunched : t.launched = [])
      (hRunning : ∀ p ∈ t.running, p ∈ s.running ∨ p.activity = .draining s.launched) : Books s t

theorem books_keeps (hKinds : t.kinds = s.kinds) (hLaunched : t.launched = s.launched)
    (hRunning : ∀ p ∈ t.running, p ∈ s.running ∨ p.activity.IsApart s.fans.length) : Books s t :=
  @Books.keeps s t [] (by rw [hKinds, List.append_nil]) List.not_mem_nil hLaunched hRunning

theorem books_refl (s : Session) : Books s s := books_keeps rfl rfl fun _ hp => .inl hp

/-- Nothing was done to the books before. -/
theorem Books.of_same (h : Books t u) (hFans : t.fans = s.fans) (hLaunched : t.launched = s.launched)
    (hRunning : t.running = s.running) : Books s u := by
  have hKinds := kinds_eq hFans
  have hFinished : t.isFinished = s.isFinished := funext fun fan => isFinished_eq_of_fans hFans fan
  cases h with
  | keeps hKinds' hMore hLaunched' hRunning' =>
    rw [hKinds] at hKinds'
    rw [hRunning, hFans] at hRunning'
    exact .keeps hKinds' hMore (hLaunched'.trans hLaunched) hRunning'
  | launches hKinds' hLaunched' hRunning' =>
    rw [hKinds] at hKinds'
    rw [hLaunched, hFinished, hFans] at hLaunched'
    rw [hRunning] at hRunning'
    exact .launches hKinds' hLaunched' hRunning'
  | takes hKinds' hLaunched' hRunning' =>
    rw [hKinds] at hKinds'
    rw [hRunning, hLaunched] at hRunning'
    exact .takes hKinds' hLaunched' hRunning'

/-- Afterwards orders have ended at most. -/
theorem Books.of_fewer (h : Books s t) (hFans : u.fans = t.fans) (hLaunched : u.launched = t.launched)
    (hRunning : ∀ p ∈ u.running, p ∈ t.running) : Books s u := by
  have hKinds := kinds_eq hFans
  cases h with
  | keeps hKinds' hMore hLaunched' hRunning' =>
    exact .keeps (hKinds.trans hKinds') hMore (hLaunched.trans hLaunched')
      fun p hp => hRunning' p (hRunning p hp)
  | launches hKinds' hLaunched' hRunning' =>
    exact .launches (hKinds.trans hKinds') (hLaunched.trans hLaunched')
      fun p hp => hRunning' p (hRunning p hp)
  | takes hKinds' hLaunched' hRunning' =>
    exact .takes (hKinds.trans hKinds') (hLaunched.trans hLaunched')
      fun p hp => hRunning' p (hRunning p hp)

theorem Books.finish (h : Books s t) (ticket : Nat) (e : Ended) : Books s (t.finish ticket e) :=
  h.of_fewer rfl rfl fun _ hp => (List.mem_filter.mp hp).1

theorem Books.settle (h : Books s t) (a : Address) (result : Except StoreError Answer) :
    Books s (t.settle a result) := by
  have hStill := still_settle (.request (.get a)) t a result
  exact h.of_fewer hStill.fans hStill.launched fun p hp => hStill.running ▸ hp

theorem books_suspend {p : Running} (h : p.activity.IsApart s.fans.length) :
    Books s (s.suspend p) := by
  refine books_keeps rfl rfl fun q hq => ?_
  rcases List.mem_append.mp hq with hOld | hNew
  · exact .inl (List.mem_filter.mp hOld).1
  · rw [List.mem_singleton.mp hNew]
    exact .inr h

theorem books_replicate (s : Session) (r : Request) (backends : List Nat) :
    Books s (s.replicate r backends) := by
  unfold replicate
  split
  · exact books_refl s
  · exact .launches List.map_append rfl fun _ hp => hp

theorem books_endWalk (s : Session) (ticket : Nat) (r : Request) (e : WalkEnd) :
    Books s (s.endWalk ticket r e) := by
  unfold endWalk
  split
  · exact (books_refl s).finish ..
  · cases r with
    | put a data => exact ((books_refl s).settle a _).finish ..
    | get a => exact (books_refl s).finish ..
    | remove a => exact (books_refl s).finish ..
    | holds a => exact (books_refl s).finish ..
  · split
    · exact (books_refl s).of_fewer rfl rfl fun _ hp => (List.mem_filter.mp hp).1
    · exact ((books_replicate ..).settle ..).finish ..
    · exact (books_refl s).finish ..

theorem books_followWalk (s : Session) (ticket : Nat) (r : Request) (deadline : Option Duration)
    (state : World × WalkState) : Books s (s.followWalk ticket r deadline state) := by
  rcases state with ⟨world, e | ⟨walk, delay, held⟩⟩
  · exact (books_endWalk { s with world } ticket r e).of_same rfl rfl rfl
  · have hWaits : (Activity.walking walk (s.now + delay) held).IsApart s.fans.length := trivial
    exact (@books_suspend { s with world } ⟨ticket, .request r, deadline, _⟩ hWaits).of_same rfl rfl rfl

theorem books_startFan (s : Session) (ticket : Nat) (r : Request) : Books s (s.startFan ticket r) := by
  refine @Books.keeps _ _ [false] List.map_append (by decide) rfl fun p hp => ?_
  rcases List.mem_append.mp hp with hOld | hNew
  · exact .inl (List.mem_filter.mp hOld).1
  · rw [List.mem_singleton.mp hNew]
    exact .inr (Nat.le_refl _)

theorem books_startRequest (s : Session) (ticket : Nat) (r : Request) :
    Books s (s.startRequest ticket r) := by
  have hLooked (a : Address) : Books s (s.lookup a).2 := (books_refl s).of_fewer rfl rfl fun _ hp => hp
  cases r with
  | get a =>
    have hFirst := hLooked a
    unfold startRequest
    simp only
    split
    · rename_i hFound
      rw [hFound] at hFirst
      exact hFirst.finish ..
    · rename_i v hFound
      rw [hFound] at hFirst
      have hSame : v = (s.lookup a).2 := by rw [hFound]
      split
      · exact hFirst.finish ..
      · subst hSame
        exact (books_followWalk _ ticket ..).of_same rfl rfl rfl
  | holds a =>
    have hFirst := hLooked a
    unfold startRequest
    simp only
    split
    · rename_i hFound
      rw [hFound] at hFirst
      exact hFirst.finish ..
    · rename_i v hFound
      rw [hFound] at hFirst
      have hSame : v = (s.lookup a).2 := by rw [hFound]
      split
      · exact hFirst.finish ..
      · subst hSame
        exact (books_followWalk _ ticket ..).of_same rfl rfl rfl
  | put a data =>
    unfold startRequest
    simp only
    split
    · exact (books_refl s).finish ..
    · split
      · exact books_startFan ..
      · exact books_followWalk ..
  | remove a =>
    unfold startRequest
    simp only
    split
    · exact (books_refl s).finish ..
    · exact books_startFan ..

theorem books_endDrain (s : Session) (ticket : Nat) (order : Order) :
    Books s (s.endDrain ticket order) := by
  unfold endDrain
  refine Books.finish ?_ ..
  cases order <;> exact (books_refl s).of_fewer rfl rfl fun _ hp => hp

theorem books_startDrain (s : Session) (ticket : Nat) (order : Order) :
    Books s (s.startDrain ticket order) := by
  unfold startDrain
  simp only
  split
  · unfold endDrain
    refine .takes ?_ ?_ fun p hp => .inl ?_
    · cases order <;> rfl
    · cases order <;> rfl
    · cases order <;> exact (List.mem_filter.mp hp).1
  · refine .takes rfl rfl fun p hp => ?_
    rcases List.mem_append.mp hp with hOld | hNew
    · exact .inl (List.mem_filter.mp hOld).1
    · rw [List.mem_singleton.mp hNew]
      exact .inr rfl

theorem books_submit (s : Session) (order : Order) : Books s (s.submit order) := by
  cases order with
  | request r => exact (books_startRequest _ s.tickets r).of_same rfl rfl rfl
  | wait => exact (books_startDrain _ s.tickets .wait).of_same rfl rfl rfl
  | shutdown => exact (books_startDrain _ s.tickets .shutdown).of_same rfl rfl rfl

/-- A fan-out that changes is still what it was, in the background or not. -/
theorem books_modifyFan (s : Session) (world : World) (fan : Nat) {change : FanOut → FanOut}
    (hSame : ∀ f, (change f).detached = f.detached) :
    Books s ({ s with world }.modifyFan fan change) := by
  refine books_keeps ?_ rfl fun _ hp => .inl hp
  show (s.fans.modify fan change).map (·.detached) = s.fans.map (·.detached)
  refine List.ext_getElem? fun k => ?_
  rw [List.getElem?_map, List.getElem?_map, List.getElem?_modify]
  split
  · cases s.fans[k]? <;> simp [hSame]
  · simp

theorem books_of_move? (hMove : s.move? m = some t) : Books s t := by
  cases m with
  | submit order =>
    cases hMove
    exact books_submit s order
  | submitStream a input failure =>
    cases hMove
    have hRefused (e : Ended) : Books s ({ s with tickets := s.tickets + 1 }.finish s.tickets e) :=
      (books_refl s).of_fewer rfl rfl fun _ hp => (List.mem_filter.mp hp).1
    unfold submitStream
    simp only
    split
    · exact hRefused _
    · split
      · exact hRefused _
      · exact books_submit ..
  | tick time =>
    cases hMove
    obtain ⟨watched, now, hEq, -⟩ := tick_eq s time
    rw [hEq]
    exact books_keeps rfl rfl fun _ hp => .inl hp
  | cache order =>
    cases hMove
    exact books_keeps rfl rfl fun _ hp => .inl hp
  | fill key data =>
    cases hMove
    exact books_keeps rfl rfl fun _ hp => .inl hp
  | event e =>
    cases e with
    | resume ticket =>
      obtain ⟨p, request, walk, due, held, -, -, -, -, rfl⟩ := resume?_eq_some hMove
      exact books_followWalk ..
    | expire ticket =>
      obtain ⟨p, deadline, request, after, -, -, -, -, rfl⟩ := expire?_eq_some hMove
      refine Books.finish ?_ ..
      cases p.activity with
      | joining fan => exact books_modifyFan s s.world fan fun _ => rfl
      | walking walk due held => exact books_refl s
      | draining fans => exact books_refl s
    | start fan branch =>
      obtain ⟨f, b, -, -, -, ⟨world, delay, held, -, rfl⟩ | ⟨world, o, -, rfl⟩⟩ :=
        start?_eq_some hMove
      · exact books_modifyFan s world fan fun _ => rfl
      · exact books_modifyFan s world fan fun _ => rfl
    | complete fan branch =>
      obtain ⟨f, b, due, held, -, -, -, -, rfl⟩ := complete?_eq_some hMove
      exact books_modifyFan s _ fan fun _ => rfl
    | join ticket =>
      obtain ⟨p, -, ⟨request, other, f, -, -, -, -, rfl⟩ | ⟨fans, -, -, rfl⟩⟩ :=
        join?_eq_some hMove
      · exact ((books_refl s).settle ..).finish ..
      · exact books_endDrain ..

/-! ## The list and those who wait -/

/-- Whether the list has background writes alone, each of them once, and nobody waits for those on it. -/
structure Booked (s : Session) : Prop where
  distinct : s.launched.Nodup
  launched : ∀ fan ∈ s.launched, s.IsBackground fan
  /-- nobody joins a background write -/
  joined : ∀ p ∈ s.running, ∀ fan, p.activity = .joining fan → ¬ s.IsBackground fan
  taken : ∀ p ∈ s.running, ∀ fans, p.activity = .draining fans → ∀ fan ∈ fans,
    s.IsBackground fan ∧ fan ∉ s.launched

/-- What was there before is in the background if it was. -/
theorem isBackground_append {more : List Bool} (hKinds : t.kinds = s.kinds ++ more)
    (hFan : fan < s.fans.length) : t.IsBackground fan ↔ s.IsBackground fan := by
  rw [IsBackground, IsBackground, hKinds, List.getElem?_append_left (by rwa [length_kinds])]

theorem not_isBackground_append {more : List Bool} (hKinds : t.kinds = s.kinds ++ more)
    (hMore : true ∉ more) (hFan : s.fans.length ≤ fan) : ¬ t.IsBackground fan := by
  intro hBackground
  rw [IsBackground, hKinds, List.getElem?_append_right (by rwa [length_kinds])] at hBackground
  exact hMore (List.mem_of_getElem? hBackground)

theorem booked_of_books (h : s.Booked) (hs : s.Sound) (hBooks : Books s t) : t.Booked := by
  cases hBooks with
  | @keeps more hKinds hMore hLaunched hRunning =>
    have hSame {fan : Nat} (hFan : fan < s.fans.length) := isBackground_append hKinds hFan
    constructor
    · rw [hLaunched]
      exact h.distinct
    · intro fan hFan
      rw [hLaunched] at hFan
      have hThere := h.launched fan hFan
      exact (hSame hThere.lt).mpr hThere
    · intro p hp fan hJoins
      rcases hRunning p hp with hOld | hApart
      · rw [hSame (hs.fans p hOld fan hJoins)]
        exact h.joined p hOld fan hJoins
      · rw [hJoins] at hApart
        exact not_isBackground_append hKinds hMore hApart
    · intro p hp fans hDrains fan hFan
      rcases hRunning p hp with hOld | hApart
      · obtain ⟨hThere, hNot⟩ := h.taken p hOld fans hDrains fan hFan
        rw [hLaunched]
        exact ⟨(hSame hThere.lt).mpr hThere, hNot⟩
      · rw [hDrains] at hApart
        exact hApart.elim
  | launches hKinds hLaunched hRunning =>
    have hSame {fan : Nat} (hFan : fan < s.fans.length) := isBackground_append hKinds hFan
    have hNew : t.IsBackground s.fans.length := by
      rw [IsBackground, hKinds, ← length_kinds, List.getElem?_concat_length]
    constructor
    · rw [hLaunched]
      refine FanOut.nodup_concat (h.distinct.filter _) fun hMem => ?_
      exact absurd (h.launched _ (List.mem_filter.mp hMem).1).lt (Nat.lt_irrefl _)
    · intro fan hFan
      rw [hLaunched, List.mem_append, List.mem_singleton] at hFan
      rcases hFan with hOld | rfl
      · have hThere := h.launched fan (List.mem_filter.mp hOld).1
        exact (hSame hThere.lt).mpr hThere
      · exact hNew
    · intro p hp fan hJoins
      rw [hSame (hs.fans p (hRunning p hp) fan hJoins)]
      exact h.joined p (hRunning p hp) fan hJoins
    · intro p hp fans hDrains fan hFan
      obtain ⟨hThere, hNot⟩ := h.taken p (hRunning p hp) fans hDrains fan hFan
      refine ⟨(hSame hThere.lt).mpr hThere, fun hMem => ?_⟩
      rw [hLaunched, List.mem_append, List.mem_singleton] at hMem
      rcases hMem with hOld | rfl
      · exact hNot (List.mem_filter.mp hOld).1
      · exact absurd hThere.lt (Nat.lt_irrefl _)
  | takes hKinds hLaunched hRunning =>
    have hSame (fan : Nat) : t.IsBackground fan ↔ s.IsBackground fan := by
      rw [IsBackground, IsBackground, hKinds]
    constructor
    · rw [hLaunched]
      exact List.nodup_nil
    · intro fan hFan
      rw [hLaunched] at hFan
      exact absurd hFan List.not_mem_nil
    · intro p hp fan hJoins
      rcases hRunning p hp with hOld | hDrains
      · rw [hSame]
        exact h.joined p hOld fan hJoins
      · rw [hDrains] at hJoins
        contradiction
    · intro p hp fans hDrains fan hFan
      rw [hSame, hLaunched]
      refine ⟨?_, List.not_mem_nil⟩
      rcases hRunning p hp with hOld | hTakes
      · exact (h.taken p hOld fans hDrains fan hFan).1
      · rw [hTakes] at hDrains
        cases hDrains
        exact h.launched fan hFan

theorem booked_of_reachable (h : s.Reachable) : s.Booked := by
  obtain ⟨world, replication, strategy, timeout, picks, moves, hRun⟩ := h
  have hSound : { ofWorld world replication strategy with timeout, picks }.Sound :=
    sound_of_reachable ⟨world, replication, strategy, timeout, picks, [], rfl⟩
  have hStart : { ofWorld world replication strategy with timeout, picks }.Booked := by
    refine ⟨List.nodup_nil, ?_, ?_, ?_⟩
    · exact fun fan hFan => absurd hFan List.not_mem_nil
    · exact fun p hp => absurd hp List.not_mem_nil
    · exact fun p hp => absurd hp List.not_mem_nil
  have hBoth : s.Sound ∧ s.Booked := by
    refine run?_induction (P := fun s => s.Sound ∧ s.Booked) hRun ⟨hSound, hStart⟩ ?_
    rintro a b m ⟨hSound, hBooked⟩ hMove
    exact ⟨sound_of_move? hSound hMove, booked_of_books hBooked hSound (books_of_move? hMove)⟩
  exact hBoth.2

/-- What is under way is on the list, unless somebody has taken it over. -/
theorem mem_launched_iff (hAttended : s.Attended) (hBooked : s.Booked)
    (hOpen : s.isFinished fan = false) :
    fan ∈ s.launched ↔ s.IsBackground fan ∧ s.isTaken fan = false := by
  constructor
  · intro hLaunched
    refine ⟨hBooked.launched fan hLaunched, Bool.eq_false_iff.mpr fun hTaken => ?_⟩
    obtain ⟨p, hp, fans, hDrains, hFan⟩ := isTaken_iff.mp hTaken
    exact (hBooked.taken p hp fans hDrains fan hFan).2 hLaunched
  · rintro ⟨hBackground, hFree⟩
    rcases hAttended.attends fan hOpen with hLaunched | ⟨p, hp, hAwaits⟩
    · exact hLaunched
    · -- who awaits a background write has taken it over
      cases hActivity : p.activity with
      | walking walk due held =>
        rw [hActivity] at hAwaits
        exact hAwaits.elim
      | joining other =>
        rw [hActivity] at hAwaits
        exact absurd hBackground (hBooked.joined p hp fan (hActivity.trans (congrArg _ hAwaits)))
      | draining fans =>
        rw [hActivity] at hAwaits
        rw [isTaken_iff.mpr ⟨p, hp, fans, hActivity, hAwaits⟩] at hFree
        contradiction

/-- The count tells what is under way and in nobody's hands. -/
theorem pendingReplications_eq (hAttended : s.Attended) (hBooked : s.Booked) :
    s.pendingReplications = (s.underWay.filter fun fan => !s.isTaken fan).length := by
  rw [pendingReplications, List.countP_eq_length_filter]
  refine ((List.perm_ext_iff_of_nodup (hBooked.distinct.filter _) ?_).mpr fun fan => ?_).length_eq
  · exact (List.nodup_range.filter _).filter _
  · rw [List.mem_filter, List.mem_filter, mem_underWay, Bool.not_eq_true', Bool.not_eq_true']
    constructor
    · rintro ⟨hLaunched, hOpen⟩
      obtain ⟨hBackground, hFree⟩ := (mem_launched_iff hAttended hBooked hOpen).mp hLaunched
      exact ⟨⟨hBackground, hOpen⟩, hFree⟩
    · rintro ⟨⟨hBackground, hOpen⟩, hFree⟩
      exact ⟨(mem_launched_iff hAttended hBooked hOpen).mpr ⟨hBackground, hFree⟩, hOpen⟩

/-! ## Waiting -/

/-- An order that has taken over background writes waits for them, and cannot be given up. -/
structure Waits (fans : List Nat) (ticket : Nat) (order : Order) (s : Session) : Prop where
  sound : s.Sound
  unended : s.ended? ticket = none
  order : s.running? ticket = some { ticket, order, activity := .draining fans }

variable {fans : List Nat} {order : Order}

theorem ended?_endDrain (s : Session) (ticket : Nat) (order : Order) :
    (s.endDrain ticket order).ended? ticket = some (.returned (.ok .done)) :=
  ended?_finish_self ..

theorem fans_endDrain (s : Session) (ticket : Nat) (order : Order) :
    (s.endDrain ticket order).fans = s.fans := by
  cases order <;> rfl

/-- An order waits until all are finished that it has taken over. -/
theorem waits_of_move? (h : Waits fans ticket order s) (hMove : s.move? m = some t) :
    Waits fans ticket order t ∨ t.ended? ticket ≠ none ∧ ∀ fan ∈ fans, t.isFinished fan = true := by
  obtain ⟨hMem, -⟩ := mem_of_running? h.order
  have hGiven : ticket < s.tickets := h.sound.running _ hMem
  by_cases hOwn : ConcernsOrder ticket m
  · cases hOwn with
    | resume =>
      obtain ⟨p, request, walk, due, held, hp, -, hActivity, -⟩ := resume?_eq_some hMove
      rw [h.order] at hp
      cases hp
      contradiction
    | expire =>
      obtain ⟨p, deadline, request, after, hp, hDeadline, -⟩ := expire?_eq_some hMove
      rw [h.order] at hp
      cases hp
      contradiction
    | join =>
      obtain ⟨p, hp, ⟨request, other, f, -, hActivity, -⟩ | ⟨fans', hActivity, hFinished, rfl⟩⟩ :=
        join?_eq_some hMove
      · rw [h.order] at hp
        cases hp
        contradiction
      · rw [h.order] at hp
        cases hp
        cases hActivity
        refine .inr ⟨?_, fun fan hFan => ?_⟩
        · rw [ended?_endDrain]
          exact Option.some_ne_none _
        · rw [isFinished_eq_of_fans (fans_endDrain ..)]
          exact List.all_eq_true.mp hFinished fan hFan
  · have hLeaves := leavesOrder_of_move? hGiven hOwn hMove
    exact .inl ⟨sound_of_move? h.sound hMove, hLeaves.ended.trans h.unended,
      hLeaves.running.trans h.order⟩

/-- Who has waited has waited for all that was on the list. -/
theorem finished_of_returns (hs : s.Sound) (hOrder : order = .wait ∨ order = .shutdown)
    (hReturns : s.Returns s.tickets (.submit order :: moves) t e) :
    ∀ fan ∈ s.launched, t.isFinished fan = true := by
  obtain ⟨u, hMove, hRest⟩ := hReturns.of_cons
  have hSound := sound_of_move? hs hMove
  cases hMove
  have hStarts : s.submit order =
      { s with tickets := s.tickets + 1 }.startDrain s.tickets order := by
    rcases hOrder with rfl | rfl <;> rfl
  rw [hStarts, startDrain] at hRest hSound
  simp only at hRest hSound
  split at hRest
  · rename_i hAll
    -- all are finished already, and the order has ended at once
    intro fan hFan
    rw [← hRest.eq_of_ended? (ended?_endDrain ..), isFinished_eq_of_fans (fans_endDrain ..)]
    exact List.all_eq_true.mp hAll fan hFan
  · rename_i hSome
    rw [if_neg hSome] at hSound
    have hWaits : Waits s.launched s.tickets order _ :=
      ⟨hSound, ended?_of_sound hs (Nat.le_refl _), running?_suspend_self ..⟩
    exact (returns_induction (C := fun _ => True) hRest (fun _ _ => trivial) (.inl hWaits) Waits.unended
      (fun h => h.1) fun h _ hMove => waits_of_move? h hMove).2

/-- What a session's books are good for. -/
structure Accounts (s : Session) : Prop where
  /-- what is counted is under way, and nobody waits for it -/
  count : s.pendingReplications = (s.underWay.filter fun fan => !s.isTaken fan).length
  /-- so all that is under way is counted exactly if nobody waits for any of it -/
  exact_iff : s.pendingReplications = s.underWay.length ↔ ∀ fan ∈ s.underWay, s.isTaken fan = false
  /-- who has waited has waited for all that was launched before, but for what others were waiting for -/
  waited : ∀ order moves t e, order = .wait ∨ order = .shutdown →
    s.Returns s.tickets (.submit order :: moves) t e → ∀ fan, s.IsBackground fan →
    t.isFinished fan = true ∨ fan ∈ s.underWay ∧ s.isTaken fan = true

theorem accounts_of_reachable (h : s.Reachable) : s.Accounts := by
  have hSound := sound_of_reachable h
  have hAttended := attended_of_reachable h
  have hBooked := booked_of_reachable h
  have hCount := pendingReplications_eq hAttended hBooked
  refine ⟨hCount, ?_, fun order moves t e hOrder hReturns fan hBackground => ?_⟩
  · rw [hCount, List.length_filter_eq_length_iff]
    exact forall₂_congr fun fan _ => by rw [Bool.not_eq_true']
  · cases hOpen : s.isFinished fan with
    | true => exact .inl (isFinished_of_run? hReturns.run hBackground.lt hOpen)
    | false =>
      cases hTaken : s.isTaken fan with
      | true => exact .inr ⟨mem_underWay.mpr ⟨hBackground, hOpen⟩, rfl⟩
      | false =>
        left
        refine finished_of_returns hSound hOrder hReturns fan ?_
        exact (mem_launched_iff hAttended hBooked hOpen).mpr ⟨hBackground, hTaken⟩

/-- Two mains of which the second takes longer for its first write than for the next. -/
def trailing : World :=
  { backends := [
      ⟨"alpha", { isMain := true }, .scripted {}⟩,
      ⟨"beta", { isMain := true }, .scripted {
        behaviour := fun operation number =>
          if operation = .put ∧ number = 0 then { delay := .ofMillis 300 }
          else if operation = .put ∧ number = 1 then { delay := .ofMillis 100 }
          else {} }⟩] }

/-- An object is put, somebody waits for it to be everywhere, and meanwhile another object is put. -/
def putAndWait : List Move :=
  [.submit (.request (.put ⟨"c", "x"⟩ [1])), .event (.start 0 0), .submit .wait,
    .submit (.request (.put ⟨"c", "y"⟩ [2])), .event (.start 1 0)]

def trailed : Session :=
  ((ofWorld trailing .async .classic).run? putAndWait).getD (ofWorld trailing .async .classic)

/-- The second write is over. -/
def catchUp : List Move := [.tick (.ofMillis 100), .event (.complete 1 0), .event (.join 3)]

def caughtUp : Session := (trailed.run? (.submit .wait :: catchUp)).getD trailed

/-- Two writes are under way and one is counted. Who waits now returns before the other is finished. -/
theorem accounts_of_reachable_trailed :
    trailed.Reachable ∧ trailed.Accounts ∧ trailed.underWay = [0, 1] ∧
    trailed.pendingReplications = 1 ∧
    trailed.Returns 3 (.submit .wait :: catchUp) caughtUp (.returned (.ok .done)) ∧
    caughtUp.isFinished 0 = false ∧ caughtUp.isFinished 1 = true := by
  have hReachable : trailed.Reachable := ⟨trailing, .async, .classic, none, .first, putAndWait, rfl⟩
  have hReturns : trailed.Returns 3 (.submit .wait :: catchUp) caughtUp (.returned (.ok .done)) :=
    returns_of_forall_take rfl rfl (by decide)
  have hAccounts := accounts_of_reachable hReachable
  refine ⟨hReachable, hAccounts, by decide, by decide, hReturns, by decide, ?_⟩
  rcases hAccounts.waited .wait catchUp caughtUp _ (.inl rfl) hReturns 1 (by decide) with hDone | hTaken
  · exact hDone
  · -- the first to wait had not taken the second write
    have hFree : trailed.isTaken 1 = false := by decide
    rw [hFree] at hTaken
    exact absurd hTaken.2 (by decide)

end Session

end ReplicatedStore

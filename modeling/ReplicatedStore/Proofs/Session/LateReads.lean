import ReplicatedStore.Proofs.Backend.Copying
import ReplicatedStore.Proofs.Session.Convergence
import ReplicatedStore.Proofs.Session.Filling

/-!
# Fetches that outlast a put

When a put has succeeded at all mains, and nobody else writes its object, every backend gives what was
put, and the cache has forgotten what it had of the object. So a fetch that starts from then on gives
what was put. Only a fetch that was under way when the put returned may hold a copy of what was there
before: it puts that into the cache when it has decoded it, since nothing orders what fetches cache with
what puts take out of the cache, and later fetches are served from there.

Main results:

* `Session.LastPut.hasTaken` — mains hold what was put last.
* `Session.current_of_move?`, `Session.LastPut.current` — what is in the cache was put last, or a late
  fetch has found it.
* `Session.LastPut.fetched_or_late` — so what a fetch gives was put last, or a late fetch has given it.
-/

namespace ReplicatedStore

/-- Whether a move leaves an object to those who fetch it: nobody writes it, nobody fetches another
object under its key, and nobody caches something under its key himself. -/
structure Move.Spares (a : Address) (m : Move) : Prop where
  writes : ∀ q, m.Asks (.request q) → q.isWrite = true → q.address ≠ a
  keys : ∀ c, m.Asks (.request (.get c)) → c.key = a.key → c = a
  fills : ∀ data, m ≠ .fill a.key data

namespace Session

variable {s t u x : Session} {a c : Address} {b ticket : Nat} {data : Bytes} {m : Move}
  {first rest : List Move} {r : Request} {deadline : Option Duration} {state : World × WalkState}
  {start : Walk} {e : Ended}

/-! ## Where fetches turn to -/

/-- Whether all backends that a fetch turns to are in memory and hold a payload. -/
structure Holds (s : Session) (a : Address) (data : Bytes) : Prop where
  claim : s.readOrder.claim.1 = s.world.mains
  mains : s.world.mains ≠ []
  memory : ∀ b ∈ s.world.mains, s.world.InMemory b
  taken : ∀ b ∈ s.world.mains, s.world.HasTaken b (.put a data)

theorem yields_of_holds (h : s.Holds a data) (hWalk : s.walk? (.get a) = some start) :
    Walk.Yields data (start.go s.world) := by
  obtain ⟨b, rest, hMains⟩ := List.exists_cons_of_ne_nil h.mains
  have hMem : b ∈ s.world.mains := by simp [hMains]
  have hStart := walk?_get hWalk
  rw [h.claim, hMains] at hStart
  rw [hStart]
  exact Walk.yields_go rfl rfl (h.memory b hMem) (h.taken b hMem)

theorem ended_of_yields (hYields : Walk.Yields data state) (hOpen : x.ended? ticket = none)
    (h : (x.followWalk ticket r deadline state).ended? ticket = some e) :
    e = .returned (.ok (.content data)) := by
  rcases state with ⟨v, w | ⟨walk, delay, held⟩⟩
  · obtain ⟨passed, rfl⟩ := hYields
    have hEnds : (x.followWalk ticket r deadline (v, .over (.found passed (.content data)))).ended? ticket
        = some (WalkEnd.found passed (.content data)).ended := ended?_endWalk ..
    rw [hEnds, Option.some.injEq] at h
    exact h.symm
  · have hStill : (x.followWalk ticket r deadline (v, .suspended walk delay held)).ended? ticket = none :=
      hOpen
    rw [hStill] at h
    contradiction

/-! ## What fetches leave in the cache -/

/-- Whether the order with a ticket is a fetch of a key, and under way. -/
def Late (t : Session) (key : String) (ticket : Nat) : Prop :=
  ∃ p ∈ t.running, p.ticket = ticket ∧ ∃ c, p.order = .request (.get c) ∧ c.key = key

/-- Whether what is cached of an object, and what those find who fetch it, is a payload, or what a fetch
finds that was under way in a session before. -/
structure Current (t : Session) (a : Address) (data : Bytes) (s : Session) : Prop where
  sound : s.Sound
  entries : ∀ e ∈ s.watched.cache.entries, e.key = a.key → e.data = data ∨
    ∃ ticket, t.Late a.key ticket ∧ s.Over ticket (.returned (.ok (.content e.data)))
  running : ∀ p ∈ s.running, ∀ c, p.order = .request (.get c) → c.key = a.key →
    t.Late a.key p.ticket ∨
      ∃ walk due held, p.activity = .walking walk due held ∧ walk.Promises s.world held data

/-- What is in the cache already stays as it is. -/
theorem Current.entries_of_move? (h : Current t a data s) (hMove : s.move? m = some u) {e : CacheEntry}
    (he : e ∈ s.watched.cache.entries) (hKey : e.key = a.key) : e.data = data ∨
      ∃ ticket, t.Late a.key ticket ∧ u.Over ticket (.returned (.ok (.content e.data))) := by
  rcases h.entries e he hKey with hData | ⟨ticket, hLate, hOver⟩
  · exact .inl hData
  · exact .inr ⟨ticket, hLate, hOver.move? hMove⟩

/-- Who is under way already waits for what he has waited for. -/
theorem Current.running_of_move? (h : Current t a data s) (hMove : s.move? m = some u) {p : Running}
    (hp : p ∈ s.running) (hOrder : p.order = .request (.get c)) (hKey : c.key = a.key) :
    t.Late a.key p.ticket ∨
      ∃ walk due held, p.activity = .walking walk due held ∧ walk.Promises u.world held data := by
  rcases h.running p hp c hOrder hKey with hLate | ⟨walk, due, held, hActivity, hPromises⟩
  · exact .inl hLate
  · exact .inr ⟨walk, due, held, hActivity, hPromises.of_frame_eq (goesOn_of_move? hMove).frame⟩

/-- A walk was set going: if it is for the object, the payload comes of it, or its order is late. -/
theorem current_followWalk (h : Current t a data s) (hEntries : x.watched.cache.entries ⊆
      s.watched.cache.entries) (hRunning : x.running ⊆ s.running) (hTicket : ticket < x.tickets)
    (hFrame : state.1.frame = x.world.frame)
    (hState : ∀ c, r = .get c → c.key = a.key → t.Late a.key ticket ∨ Walk.Yields data state)
    (hMove : s.move? m = some (x.followWalk ticket r deadline state)) :
    Current t a data (x.followWalk ticket r deadline state) := by
  have hSound := sound_of_move? h.sound hMove
  have hGiven : ticket < (x.followWalk ticket r deadline state).tickets := by
    rw [(advances_followWalk x ticket r deadline hFrame).tickets]
    exact hTicket
  refine ⟨hSound, ?_, ?_⟩
  · intro e he hKey
    rcases mem_entries_followWalk he with hOld | ⟨c, passed, hGet, hSame, hFound⟩
    · exact h.entries_of_move? hMove (hEntries hOld) hKey
    · rcases state with ⟨v, w | _⟩
      · cases hFound
        rcases hState c hGet (hSame.symm.trans hKey) with hLate | ⟨passed', hYields⟩
        · -- the order is late and has ended with what it puts into the cache
          exact .inr ⟨ticket, hLate, hSound, hGiven, running?_endWalk .., ended?_endWalk ..⟩
        · cases hYields
          exact .inl rfl
      · contradiction
  · intro p hp c hOrder hKey
    rcases mem_running_followWalk hp with ⟨hOld, -⟩ | ⟨v, walk, delay, held, rfl, rfl⟩
    · exact h.running_of_move? hMove (hRunning hOld) hOrder hKey
    · cases hOrder
      rcases hState c rfl hKey with hLate | hYields
      · exact .inl hLate
      · exact .inr ⟨walk, _, held, rfl, hYields⟩

theorem current_of_move? (h : Current t a data s) (hHolds : s.Holds a data) (hSpares : m.Spares a)
    (hMove : s.move? m = some u) : Current t a data u := by
  cases fetchStep_of_move? hMove with
  | @starts r start readOrder hWalk hEq =>
    -- a fetch that starts now turns to a main, which holds the payload
    subst hEq
    refine current_followWalk (x := { s.looked r.address with readOrder }) h
      (Cache.entries_lookup_subset ..) (fun _ hp => hp) (Nat.lt_succ_self _) (frame_goFrom ..) ?_ hMove
    intro c hGet hKey
    subst hGet
    rw [hSpares.keys c (.submit _) hKey] at hWalk
    exact .inr (yields_of_holds hHolds hWalk)
  | @resumes ticket p r walk due held hp hOrder hActivity hEq =>
    -- a fetch that goes on is late, or what it has waited for is the payload
    subst hEq
    obtain ⟨hMem, hTicket⟩ := mem_of_running? hp
    refine current_followWalk h (fun _ he => he) (fun _ hp => hp) (hTicket ▸ h.sound.running p hMem)
      (frame_resume ..) ?_ hMove
    intro c hGet hKey
    subst hGet
    rcases h.running p hMem c hOrder hKey with hLate | ⟨walk', due', held', hSame, hPromises⟩
    · exact .inl (hTicket ▸ hLate)
    · rw [hActivity] at hSame
      cases hSame
      exact .inr (Walk.yields_resume hPromises)
  | quiet hRunning hEntries =>
    -- no fetch starts or goes on, and nobody fills the cache under the key
    refine ⟨sound_of_move? h.sound hMove, ?_, ?_⟩
    · intro e he hKey
      rcases hEntries e he with hOld | hFills
      · exact h.entries_of_move? hMove hOld hKey
      · rw [hKey] at hFills
        exact absurd hFills (hSpares.fills e.data)
    · intro p hp c hOrder hKey
      rcases hRunning p hp with hOld | hNot
      · exact h.running_of_move? hMove hOld hOrder hKey
      · exact absurd hOrder (hNot c)

/-! ## After the last put -/

/-- In a client that writes to all backends at once, keeps them in memory and sets no deadlines, a put
succeeds, and nobody else writes its object meanwhile. -/
structure LastPut (s : Session) (a : Address) (data : Bytes) (first : List Move) (t : Session) : Prop where
  replication : s.replication = .sync
  timeout : s.timeout = none
  replicas : s.world.replicas = []
  memory : ∀ b ∈ s.world.mains, s.world.InMemory b
  alone : ∀ p ∈ s.running, ∀ q, p.order = .request q → q.isWrite = true → q.address ≠ a
  /-- no fan-out has still to bring an earlier write of the object to a backend -/
  settled : ∀ b x, s.Owes b x → x.request.address ≠ a
  written : s.Returns s.tickets (.submit (.request (.put a data)) :: first) t (.returned (.ok .done))
  others : ∀ m ∈ first, ∀ q, m.Asks (.request q) → q.isWrite = true → q.address ≠ a

namespace LastPut

theorem run (h : LastPut s a data first t) (hRun : t.run? rest = some u) :
    s.run? ((.submit (.request (.put a data)) :: first) ++ rest) = some u :=
  (run?_append h.written.run rest).trans hRun

/-- As long as nobody else writes the object, mains hold what was put. -/
theorem hasTaken (h : LastPut s a data first t) (hs : s.Reachable) (hRun : t.run? rest = some u)
    (hOthers : ∀ m ∈ rest, ∀ q, m.Asks (.request q) → q.isWrite = true → q.address ≠ a)
    (hMain : b ∈ s.world.mains) : u.world.HasTaken b (.put a data) := by
  have hMindful := mindful_of_reachable hs
  have hFans : s.fansOut (.put a data) = true := by simp [fansOut, h.replication]
  have hAsks : ∀ m ∈ (.submit (.request (.put a data)) :: first) ++ rest, ∀ q,
      m.Asks (.request q) → q.isWrite = true → q.address = a → q = .put a data := by
    intro m hm q hAsks hWrite hAddress
    rcases List.mem_append.mp hm with hm | hm
    · rcases List.mem_cons.mp hm with rfl | hm
      · cases hAsks
        rfl
      · exact absurd hAddress (h.others m hm q hAsks hWrite)
    · exact absurd hAddress (hOthers m hm q hAsks hWrite)
  -- the put has arrived, and what has arrived last is the put
  have hSome : arrivalsAt b a s ((.submit (.request (.put a data)) :: first) ++ rest) ≠ [] := by
    obtain ⟨x, hx⟩ := arrives_of_fansOut (sound_of_reachable hs) hFans h.written hMain
    rw [arrivalsAt_append h.written.run]
    exact List.ne_nil_of_mem (List.mem_append_left _ hx)
  have hLast := List.getLast?_eq_some_getLast hSome
  have hMem := List.mem_of_getLast? hLast
  have hTaken := (object_of_run? hMindful ((h.memory b hMain).isKept.apart a) (h.run hRun)).1 _ hLast
  rcases request_eq_or_owes_of_alone (r := .put a data) hMindful h.alone hAsks (h.run hRun) hMem with
    hIs | hOwes
  · exact hIs ▸ hTaken
  · obtain ⟨_, _, -, hAt⟩ := exists_of_mem_arrivalsAt hMem
    exact absurd hAt.2 (h.settled b _ hOwes)

theorem holds (h : LastPut s a data first t) (hs : s.Reachable) (hRun : t.run? rest = some u)
    (hSpares : ∀ m ∈ rest, m.Spares a) : u.Holds a data := by
  have hFrame := (goesOn_of_run? (h.run hRun)).frame
  have hMains := World.mains_of_frame_eq hFrame
  refine ⟨?_, ?_, ?_, ?_⟩
  · -- without replicas, fetches go to the mains in their order, whoever's turn it is
    refine ReadOrder.claim_of_groups ?_
    rw [groups_of_reachable (hs.run? (h.run hRun)), World.readGroups, World.replicas_of_frame_eq hFrame,
      h.replicas]
  · rw [hMains]
    exact mains_ne_nil_of_written rfl h.written
  · intro b hb
    exact (h.memory b (hMains ▸ hb)).of_frame_eq hFrame
  · intro b hb
    exact h.hasTaken hs hRun (fun m hm => (hSpares m hm).writes) (hMains ▸ hb)

/-- When the put returns, the cache is without its object, and fetches that are under way are late. -/
theorem current_start (h : LastPut s a data first t) (hs : s.Reachable) : Current t a data t := by
  have hSound := sound_of_reachable hs
  have hForgotten := find?_of_written hSound (mindful_of_reachable hs) rfl h.written
  refine ⟨sound_of_run? hSound h.written.run, ?_, ?_⟩
  · intro e he hKey
    have hNot := List.find?_eq_none.mp hForgotten e he
    exact absurd (beq_iff_eq.mpr hKey) hNot
  · intro p hp c hOrder hKey
    exact .inl ⟨p, hp, rfl, c, hOrder, hKey⟩

theorem current (h : LastPut s a data first t) (hs : s.Reachable) (hRun : t.run? rest = some u)
    (hSpares : ∀ m ∈ rest, m.Spares a) : Current t a data u := by
  -- from the end, since what mains hold before a move is told by the run up to there
  induction rest using List.reverseRecOn generalizing u with
  | nil =>
    rw [run?, Option.some.injEq] at hRun
    exact hRun ▸ h.current_start hs
  | append_singleton before last ih =>
    obtain ⟨v, hBefore, hLast⟩ := exists_of_run?_append hRun
    obtain ⟨w, hMove, hEnd⟩ := run?_cons_eq_some.mp hLast
    rw [run?, Option.some.injEq] at hEnd
    subst hEnd
    have hSparesBefore : ∀ m ∈ before, m.Spares a := fun m hm => hSpares m (List.mem_append_left _ hm)
    exact current_of_move? (ih hBefore hSparesBefore) (h.holds hs hBefore hSparesBefore)
      (hSpares last (by simp)) hMove

end LastPut

/-- What fetches of an object give after a put of it that has returned in a session. -/
structure GivesLast (t : Session) (a : Address) (data : Bytes) (u : Session) : Prop where
  /-- all mains hold what was put -/
  holds : ∀ b ∈ u.world.mains, u.world.HasTaken b (.put a data)
  /-- a fetch that starts now and returns gives it, or what a fetch has given that was under way when the
  put returned -/
  gives : ∀ moves v e, (∀ m ∈ moves, m.Spares a) →
    u.Returns u.tickets (.submit (.request (.get a)) :: moves) v e →
    ∃ found, e = .returned (.ok (.content found)) ∧ (found = data ∨
      ∃ ticket, t.Late a.key ticket ∧ u.ended? ticket = some (.returned (.ok (.content found))))
  /-- and it can be brought to its end -/
  returns : ∀ moves v, u.Pending u.tickets (.submit (.request (.get a)) :: moves) v →
    ∃ more w e, (∀ m ∈ more, ConcernsOrder u.tickets m ∨ ∃ time, m = .tick time) ∧
      v.Returns u.tickets more w e

/-- A fetch that is served from the cache gives what was put, or what a late fetch has given. -/
theorem gives_of_served {moves : List Move} {v : Session} (h : Current t a data u)
    (hMains : u.world.mains ≠ []) (hWalk : u.walk? (.get a) = none)
    (hReturns : u.Returns u.tickets (.submit (.request (.get a)) :: moves) v e) :
    ∃ found, e = .returned (.ok (.content found)) ∧ (found = data ∨
      ∃ ticket, t.Late a.key ticket ∧ u.ended? ticket = some (.returned (.ok (.content found)))) := by
  rcases submit_of_served rfl hWalk with ⟨entry, hEntry, hKey, hEq⟩ | ⟨hNone, -⟩
  · refine ⟨entry.data, eq_of_served hEq hReturns, ?_⟩
    rcases h.entries entry hEntry hKey with hData | ⟨ticket, hLate, hOver⟩
    · exact .inl hData
    · exact .inr ⟨ticket, hLate, hOver.ended⟩
  · refine absurd ?_ hMains
    simp [World.mains, hNone]

namespace LastPut

/-- A fetch that turns to backends gives what was put. -/
theorem gives_of_walk? {moves : List Move} {v : Session} (h : LastPut s a data first t)
    (hs : s.Reachable) (hRun : t.run? rest = some u) (hSpares : ∀ m ∈ rest, m.Spares a)
    (hSparesMoves : ∀ m ∈ moves, m.Spares a) (hWalk : u.walk? (.get a) = some start)
    (hReturns : u.Returns u.tickets (.submit (.request (.get a)) :: moves) v e) :
    e = .returned (.ok (.content data)) := by
  have hThere : u.Reachable := hs.run? (h.run hRun)
  have hSound := sound_of_reachable hThere
  have hEnded := hReturns.ended
  cases ends_of_returns hSound (mindful_of_reachable hThere) hWalk hReturns with
  | atOnce readOrder hMoves hEq =>
    -- the first main has given at once what it holds
    rw [hEq] at hEnded
    exact ended_of_yields (x := { u.looked a with readOrder })
      (yields_of_holds (h.holds hs hRun hSpares) hWalk) (ended?_of_sound hSound (Nat.le_refl _)) hEnded
  | @resumes before w walk due held hMoves hPending hMinds hOrder hEq =>
    -- the fetch has waited for a copy, and what it has copied was put last
    subst hMoves
    rw [hEq] at hEnded
    obtain ⟨hMem, -⟩ := mem_of_running? hOrder
    have hGet : (Move.submit (.request (.get a))).Spares a := by
      refine ⟨fun q hAsks hWrite => ?_, fun c hAsks _ => ?_, nofun⟩
      · cases hAsks
        contradiction
      · cases hAsks
        rfl
    have hSparesAll : ∀ m ∈ rest ++ .submit (.request (.get a)) :: before, m.Spares a := by
      intro m hm
      rcases List.mem_append.mp hm with hm | hm
      · exact hSpares m hm
      · rcases List.mem_cons.mp hm with rfl | hm
        · exact hGet
        · exact hSparesMoves m (List.mem_append_left _ hm)
    have hCurrent := h.current hs ((run?_append hRun _).trans hPending.run) hSparesAll
    rcases hCurrent.running _ hMem a rfl rfl with ⟨p, hp, hTicket, -⟩ | ⟨walk', due', held', hSame, hPromises⟩
    · -- who starts now was not under way when the put returned
      have hLate := (sound_of_reachable (hs.run? h.written.run)).running p hp
      have hGrows := (goesOn_of_run? hRun).tickets
      have hTicket : p.ticket = u.tickets := hTicket
      omega
    · cases hSame
      exact ended_of_yields (Walk.yields_resume hPromises) hPending.unended_after hEnded
  | timedOut hDeadline after hEq =>
    -- there are no deadlines
    refine absurd (deadline_eq_none ?_) hDeadline
    rw [(goesOn_of_run? (h.run hRun)).timeout, h.timeout]

/-- **A late fetch may undo what a put has done to the cache, and nothing else can.** After a put that
has succeeded, and without another write of its object, all mains hold what was put. A fetch that starts
then gives it, or what a fetch has given that was under way when the put returned. -/
theorem fetched_or_late (h : LastPut s a data first t) (hs : s.Reachable) (hRun : t.run? rest = some u)
    (hSpares : ∀ m ∈ rest, m.Spares a) : GivesLast t a data u := by
  have hThere : u.Reachable := hs.run? (h.run hRun)
  have hSound := sound_of_reachable hThere
  have hHolds := h.holds hs hRun hSpares
  refine ⟨hHolds.taken, ?_, ?_⟩
  · intro moves v e hSparesMoves hReturns
    cases hWalk : u.walk? (.get a) with
    | none => exact gives_of_served (h.current hs hRun hSpares) hHolds.mains hWalk hReturns
    | some start =>
      exact ⟨data, h.gives_of_walk? hs hRun hSpares hSparesMoves hWalk hReturns, .inl rfl⟩
  · intro moves v hPending
    obtain ⟨start, hWalk⟩ := exists_walk_of_pending rfl hPending
    exact exists_returns_of_consulting
      (consulting_of_submitted hSound (mindful_of_reachable hThere) hWalk hPending)

end LastPut

/-! ## A late fetch -/

/-- What an order has been answered, if it has. -/
def answer? (s : Session) (ticket : Nat) : Option Answer :=
  match s.ended? ticket with
  | some (.returned (.ok x)) => some x
  | _ => none

theorem ended?_of_answer? {y : Answer} (h : s.answer? ticket = some y) :
    s.ended? ticket = some (.returned (.ok y)) := by
  unfold answer? at h
  split at h
  · rename_i hEnded
    cases h
    exact hEnded
  · contradiction

theorem run?_eq_getD {moves : List Move} (h : (s.run? moves).isSome = true) :
    s.run? moves = some ((s.run? moves).getD s) := by
  obtain ⟨t, hRun⟩ := Option.isSome_iff_exists.mp h
  rw [hRun, Option.getD_some]

/-- A client of one main in memory that compresses what it keeps. -/
def compressing : Session :=
  ofWorld { backends := [⟨"alpha", { isMain := true, compression := .gzip },
    .memory ⟨⟨[.compress Gzip.defaultLevel]⟩, ⟨[.decompress]⟩⟩ (.ofContainers ["c"])⟩] } .sync .classic

/-- An object is put, and a fetch of it copies what is stored. -/
def copyFirst : List Move :=
  [.cache (.configure { enabled := true }), .submit (.request (.put ⟨"c", "x"⟩ [1])),
    .event (.start 0 0), .event (.complete 0 0), .event (.join 0), .submit (.request (.get ⟨"c", "x"⟩))]

def copied : Session := (compressing.run? copyFirst).getD compressing

/-- The object is put again while the copy waits to be decoded. -/
def replace : List Move := [.event (.start 1 0), .event (.complete 1 0), .event (.join 2)]

def replaced : Session :=
  (copied.run? (.submit (.request (.put ⟨"c", "x"⟩ [2])) :: replace)).getD copied

/-- The copy is decoded after that put has returned. -/
def decodedLate : Session := (replaced.run? [.event (.resume 1)]).getD replaced

/-- The next fetch is served the first payload, though the put of the second has succeeded and the main
holds it: the fetch that was under way has cached the first one again. -/
theorem fetched_or_late_undone :
    LastPut copied ⟨"c", "x"⟩ [2] replace replaced ∧
    replaced.run? [.event (.resume 1)] = some decodedLate ∧
    decodedLate.world.HasTaken 0 (.put ⟨"c", "x"⟩ [2]) ∧
    ∃ v, decodedLate.Returns 3 [.submit (.request (.get ⟨"c", "x"⟩))] v (.returned (.ok (.content [1]))) ∧
      ∃ ticket, replaced.Late (Address.key ⟨"c", "x"⟩) ticket ∧
        decodedLate.ended? ticket = some (.returned (.ok (.content [1]))) := by
  have hCopied : compressing.run? copyFirst = some copied := run?_eq_getD rfl
  have hReachable : copied.Reachable :=
    ⟨compressing.world, .sync, .classic, none, .first, copyFirst, hCopied⟩
  have hMains : copied.world.mains = [0] := by decide +kernel
  have hFans : copied.fans.all (·.isFinished) = true := rfl
  have hRunning : ∃ p, copied.running = [p] ∧ p.order = .request (.get ⟨"c", "x"⟩) := ⟨_, rfl, rfl⟩
  have hRun : replaced.run? [.event (.resume 1)] = some decodedLate := run?_eq_getD rfl
  -- what is compressed and decompressed is evaluated once
  obtain ⟨hOpen, hTickets, hAnswer⟩ : (∀ n < 4, (copied.run?
        ((.submit (.request (.put ⟨"c", "x"⟩ [2])) :: replace).take n)).bind (·.ended? 2) = none) ∧
      decodedLate.tickets = 3 ∧
      (decodedLate.submit (.request (.get ⟨"c", "x"⟩))).answer? 3 = some (.content [1]) := by
    decide +kernel
  have hPut : LastPut copied ⟨"c", "x"⟩ [2] replace replaced := by
    refine ⟨rfl, rfl, by decide +kernel, ?_, ?_, ?_, ?_, ?_⟩
    · intro b hb
      rw [hMains] at hb
      rw [List.mem_singleton.mp hb]
      exact ⟨_, _, _, rfl, rfl, Codec.lossless_of_ofProperties (p := { compression := .gzip }) rfl⟩
    · intro p hp q hOrder hWrite
      obtain ⟨p', hOne, hGet⟩ := hRunning
      rw [hOne] at hp
      rw [List.mem_singleton.mp hp, hGet] at hOrder
      cases hOrder
      contradiction
    · rintro b x ⟨fan, f, hf, hOpen, -⟩
      have hFinished := List.all_eq_true.mp hFans f (List.mem_of_getElem? hf)
      rw [hOpen] at hFinished
      contradiction
    · exact returns_of_forall_take (run?_eq_getD rfl) rfl hOpen
    · intro m hm q hAsks
      rcases List.mem_cons.mp hm with rfl | hm
      · cases hAsks
      · rcases List.mem_pair.mp hm with rfl | rfl
        · cases hAsks
        · cases hAsks
  have hSpares : ∀ m ∈ [Move.event (.resume 1)], m.Spares ⟨"c", "x"⟩ := by
    intro m hm
    rw [List.mem_singleton.mp hm]
    exact ⟨nofun, nofun, nofun⟩
  have hGives := LastPut.fetched_or_late hPut hReachable hRun hSpares
  have hThere : decodedLate.Reachable := hReachable.run? (hPut.run hRun)
  have hReturns : decodedLate.Returns 3 [.submit (.request (.get ⟨"c", "x"⟩))]
      (decodedLate.submit (.request (.get ⟨"c", "x"⟩))) (.returned (.ok (.content [1]))) := by
    refine returns_singleton ?_ rfl (ended?_of_answer? hAnswer)
    exact ended?_of_sound (sound_of_reachable hThere) (Nat.le_of_eq hTickets)
  refine ⟨hPut, hRun, hGives.holds 0 ?_, _, hReturns, ?_⟩
  · rw [World.mains_of_frame_eq (goesOn_of_run? (hPut.run hRun)).frame, hMains]
    exact List.mem_singleton_self 0
  · -- what was put last is something else, so a late fetch has given it
    rw [← hTickets] at hReturns
    obtain ⟨found, hFound, hLast | hLate⟩ := hGives.gives [] _ _ (by simp) hReturns
    · cases hFound
      contradiction
    · cases hFound
      exact hLate

end Session

end ReplicatedStore

import ReplicatedStore.Proofs.Session.Filling
import ReplicatedStore.Proofs.Session.Superseding

/-!
# Where answers come from

What a read gives was told by a backend: by one that the read itself has consulted, or, if the cache
served the read, by one that an earlier fetch has. That fetch was of the same key. So it was of the same
object, unless the container of one of the two addresses has a slash: then two objects share a key, and
whoever reads the one may be served the other.

Main results:

* `Session.mem_entries_cases` — what a move puts into the cache was told by a backend in the same move.
* `Session.heard_of_mem_entries` — so was everything that is in the cache after a run.
* `Session.source_of_returns` — where the answer of a read comes from.
-/

namespace ReplicatedStore

namespace Walk

variable {names : Nat → String} {start walk : Walk} {trail : Trail} {v w : World} {passed : Nat}
  {x : Answer}

/-- What a walk has found was told by a backend that it has called, unless it tells of an absence. -/
theorem exists_answered_of_went (h : Went names start trail (.over (.found passed x)))
    (hx : x ≠ .presence false) : ∃ b, (b, .answered x) ∈ trail.outcomes := by
  generalize hState : WalkState.over (.found passed x) = state at h
  cases h with
  | waits => contradiction
  | @decided walk behind b rest o e hOrder hCalled hOutcomes hAfter hWeigh =>
    cases hState
    -- only an answer is found, and it is what was told
    have hAnswered : o = .answered x := by
      unfold weigh at hWeigh
      split at hWeigh
      · cases hWeigh
      · contradiction
      · contradiction
      · cases hWeigh
        rfl
    rw [hOutcomes, hAnswered]
    exact ⟨b, List.mem_append_right _ (List.mem_singleton_self _)⟩
  | @exhausted walk hOrder hCalled hAfter =>
    -- where nobody is left only an absence can be found
    simp only [WalkState.over.injEq, Walk.exhausted] at hState
    split at hState
    · contradiction
    · split at hState
      · cases hState
        contradiction
      · split at hState
        · contradiction
        · cases hState
          contradiction
    · split at hState <;> contradiction

theorem exists_answered_of_go (h : (start.go v).2 = .over (.found passed x))
    (hx : x ≠ .presence false) : ∃ b, (b, .answered x) ∈ (start.trailFrom v start.todo).outcomes := by
  have hWent := went_go start v
  rw [h] at hWent
  exact exists_answered_of_went hWent hx

theorem exists_answered_of_resume {r : Request} {held : Held} (hMinds : walk.Minds w r held)
    (h : (walk.resume w held).2 = .over (.found passed x)) (hx : x ≠ .presence false) :
    ∃ b, (b, .answered x) ∈ (walk.trailAfter w held).outcomes := by
  obtain ⟨-, b, rest, hTodo, -⟩ := hMinds
  -- seen from here the walk has only called its first backend
  have hWaits : Went w.nameOf walk ⟨[b], []⟩ (.suspended { walk with todo := b :: rest } .zero held) :=
    .waits .zero held hTodo rfl rfl
  have hSame : { walk with todo := b :: rest } = walk := by rw [← hTodo]
  rw [hSame] at hWaits
  have hWent := went_resume hWaits rfl
  rw [h] at hWent
  obtain ⟨c, hAnswered⟩ := exists_answered_of_went hWent hx
  exact ⟨c, hAnswered⟩

end Walk

namespace Session

/-- Whether a backend has answered a request of the order with a ticket in a run. -/
def Heard (s : Session) (moves : List Move) (ticket : Nat) (r : Request) (b : Nat) (x : Answer) : Prop :=
  ∃ g ∈ s.noted calls? moves, g.ticket = ticket ∧ g.request = r ∧ (b, .answered x) ∈ g.trail.outcomes

variable {s t u : Session} {ticket : Nat} {m : Move} {moves before rest : List Move} {r : Request}
  {a : Address} {b : Nat} {x : Answer} {e : CacheEntry} {start : Walk} {g : Going}

theorem heard_append (hRun : s.run? before = some t) :
    s.Heard (before ++ rest) ticket r b x ↔ s.Heard before ticket r b x ∨ t.Heard rest ticket r b x := by
  simp only [Heard, noted_append _ hRun, List.mem_append, or_and_right, exists_or]

theorem heard_singleton : s.Heard [m] ticket r b x ↔
    ∃ g, s.calls? m = some g ∧ g.ticket = ticket ∧ g.request = r ∧ (b, .answered x) ∈ g.trail.outcomes := by
  simp only [Heard, noted_singleton, Option.mem_toList]

theorem heard_cons (hMove : s.move? m = some t) :
    s.Heard (m :: rest) ticket r b x ↔ s.Heard [m] ticket r b x ∨ t.Heard rest ticket r b x :=
  heard_append (run?_singleton hMove)

theorem heard_submit (hWalk : s.walk? r = some start)
    (h : (b, .answered x) ∈ (start.trailFrom s.world start.todo).outcomes) :
    s.Heard [.submit (.request r)] s.tickets r b x := by
  refine heard_singleton.mpr ⟨⟨s.tickets, r, start.trailFrom s.world start.todo⟩, ?_, rfl, rfl, h⟩
  rw [calls?, hWalk, Option.map_some]

theorem heard_resume {p : Running} {walk : Walk} {due : Duration} {held : Held}
    (hp : s.running? ticket = some p) (hActivity : p.activity = .walking walk due held)
    (hRequest : walk.request = r) (h : (b, .answered x) ∈ (walk.trailAfter s.world held).outcomes) :
    s.Heard [.event (.resume ticket)] ticket r b x := by
  refine heard_singleton.mpr
    ⟨⟨ticket, walk.request, walk.trailAfter s.world held⟩, ?_, rfl, hRequest, h⟩
  simp [calls?, going?, hp, hActivity]

/-! ## What is asked of backends -/

/-- What a walk calls for was asked by the move, or by an order that was under way. -/
theorem asks_or_running_of_calls? (hMindful : s.Mindful) (hMove : s.move? m = some t)
    (hg : s.calls? m = some g) :
    m.Asks (.request g.request) ∨ ∃ p ∈ s.running, p.order = .request g.request := by
  unfold calls? at hg
  split at hg
  · obtain ⟨start, -, rfl⟩ := Option.map_eq_some_iff.mp hg
    exact .inl (.submit _)
  · exact asks_or_running_of_going? hMindful hMove hg
  · contradiction

/-- What a backend has answered was asked for in the run, or by an order that was under way. -/
theorem asks_or_running_of_heard (hMindful : s.Mindful) (hRun : s.run? moves = some t)
    (h : s.Heard moves ticket r b x) :
    (∃ m ∈ moves, m.Asks (.request r)) ∨ ∃ p ∈ s.running, p.order = .request r := by
  induction moves generalizing s with
  | nil =>
    obtain ⟨g, hg, -⟩ := h
    exact absurd hg List.not_mem_nil
  | cons m rest ih =>
    obtain ⟨u, hMove, hRest⟩ := run?_cons_eq_some.mp hRun
    rcases (heard_cons hMove).mp h with hNow | hLater
    · obtain ⟨g, hg, -, rfl, -⟩ := heard_singleton.mp hNow
      rcases asks_or_running_of_calls? hMindful hMove hg with hAsks | hRunning
      · exact .inl ⟨m, List.mem_cons_self, hAsks⟩
      · exact .inr hRunning
    · rcases ih (mindful_of_move? hMindful hMove) hRest hLater with
        ⟨m', hm', hAsks⟩ | ⟨p, hp, hOrder⟩
      · exact .inl ⟨m', List.mem_cons_of_mem _ hm', hAsks⟩
      · rcases mem_running_of_move? hMove hp with ⟨q, hq, hSame⟩ | hAsks
        · exact .inr ⟨q, hq, hSame.trans hOrder⟩
        · exact .inl ⟨m, List.mem_cons_self, hOrder ▸ hAsks⟩

/-! ## What is in the cache -/

/-- An entry of the cache after a move was there before, or who makes the move has put it there, or a
backend has told it to a fetch of its key. -/
theorem mem_entries_cases (hMindful : s.Mindful) (hMove : s.move? m = some t)
    (he : e ∈ t.watched.cache.entries) :
    e ∈ s.watched.cache.entries ∨ m = .fill e.key e.data ∨
      ∃ ticket a b, e.key = Address.key a ∧ s.Heard [m] ticket (.get a) b (.content e.data) := by
  cases fetchStep_of_move? hMove with
  | @starts r start readOrder hWalk hEq =>
    subst hEq
    rcases mem_entries_followWalk he with hOld | ⟨a, passed, rfl, hKey, hFound⟩
    · exact .inl (Cache.entries_lookup_subset _ _ _ hOld)
    · obtain ⟨b, hAnswered⟩ := Walk.exists_answered_of_go hFound (by simp)
      exact .inr (.inr ⟨s.tickets, a, b, hKey, heard_submit hWalk hAnswered⟩)
  | @resumes ticket p r walk due held hp hOrder hActivity hEq =>
    subst hEq
    have hMinds := hMindful.running p (mem_of_running? hp).1 r walk due held hOrder hActivity
    rcases mem_entries_followWalk he with hOld | ⟨a, passed, rfl, hKey, hFound⟩
    · exact .inl hOld
    · obtain ⟨b, hAnswered⟩ := Walk.exists_answered_of_resume hMinds hFound (by simp)
      exact .inr (.inr ⟨ticket, a, b, hKey, heard_resume hp hActivity hMinds.1 hAnswered⟩)
  | quiet hRunning hEntries =>
    rcases hEntries e he with hOld | hFills
    · exact .inl hOld
    · exact .inr (.inl hFills)

/-- What is in the cache after a run was there before, or a backend has told it to a fetch of its key. -/
theorem heard_of_mem_entries (hMindful : s.Mindful) (hRun : s.run? moves = some t)
    (hFill : ∀ key data, .fill key data ∉ moves) (he : e ∈ t.watched.cache.entries) :
    e ∈ s.watched.cache.entries ∨
      ∃ ticket a b, e.key = Address.key a ∧ s.Heard moves ticket (.get a) b (.content e.data) := by
  induction moves generalizing s with
  | nil =>
    rw [run?, Option.some.injEq] at hRun
    rw [hRun]
    exact .inl he
  | cons m rest ih =>
    obtain ⟨u, hMove, hRest⟩ := run?_cons_eq_some.mp hRun
    have hFillRest : ∀ key data, .fill key data ∉ rest :=
      fun key data hMem => hFill key data (List.mem_cons_of_mem _ hMem)
    rcases ih (mindful_of_move? hMindful hMove) hRest hFillRest with
      hNow | ⟨ticket, a, b, hKey, hHeard⟩
    · rcases mem_entries_cases hMindful hMove hNow with hOld | rfl | ⟨ticket, a, b, hKey, hHeard⟩
      · exact .inl hOld
      · exact absurd List.mem_cons_self (hFill e.key e.data)
      · exact .inr ⟨ticket, a, b, hKey, (heard_cons hMove).mpr (.inl hHeard)⟩
    · exact .inr ⟨ticket, a, b, hKey, (heard_cons hMove).mpr (.inr hHeard)⟩

/-! ## What reads give -/

/-- What a read gives that has turned to backends, one of them has answered to it. -/
theorem heard_of_returns (hs : s.Sound) (hMindful : s.Mindful) (hWalk : s.walk? r = some start)
    (hReturns : s.Returns s.tickets (.submit (.request r) :: moves) t (.returned (.ok x)))
    (hx : x ≠ .presence false) : ∃ b, s.Heard (.submit (.request r) :: moves) s.tickets r b x := by
  have hEnded := hReturns.ended
  cases ends_of_returns hs hMindful hWalk hReturns with
  | atOnce readOrder hMoves hEq =>
    -- the walk has found it as it started, and so a backend has answered as the read was submitted
    subst hMoves
    rw [hEq] at hEnded
    obtain ⟨passed, hFound⟩ := found_of_ended? (s := { s.looked r.address with readOrder })
      (ended?_of_sound hs (Nat.le_refl _)) hEnded
    obtain ⟨b, hAnswered⟩ := Walk.exists_answered_of_go hFound hx
    exact ⟨b, heard_submit hWalk hAnswered⟩
  | resumes hMoves hPending hMinds hOrder hEq =>
    -- the walk has found it as it went on, with the last move
    subst hMoves
    rw [hEq] at hEnded
    obtain ⟨passed, hFound⟩ := found_of_ended? hPending.unended_after hEnded
    obtain ⟨b, hAnswered⟩ := Walk.exists_answered_of_resume hMinds hFound hx
    exact ⟨b, (heard_append hPending.run).mpr (.inr (heard_resume hOrder rfl hMinds.1 hAnswered))⟩
  | timedOut hDeadline after h => cases h

/-- Where the answer of a read comes from that a client was asked for after a run. -/
inductive Source (client s : Session) (before moves : List Move) (r : Request) (x : Answer) : Prop
  /-- a backend has answered it to the read -/
  | backend (b : Nat) (hHeard : s.Heard moves s.tickets r b x)
  /-- a backend has answered an earlier fetch of the same object -/
  | cache (ticket b : Nat) (data : Bytes) (hGives : x = r.gives data)
      (hHeard : client.Heard before ticket (.get r.address) b (.content data))
  /-- a backend has answered an earlier fetch of another object that has the same key -/
  | neighbour (a : Address) (ticket b : Nat) (data : Bytes) (hGives : x = r.gives data)
      (hNe : a ≠ r.address) (hKey : a.key = r.address.key) (hSlash : a.IsSimple → ¬ r.address.IsSimple)
      (hAsked : ∃ m ∈ before, m.Asks (.request (.get a)))
      (hHeard : client.Heard before ticket (.get a) b (.content data))

/-- Whatever a read of a client finds was told by a backend, to the read itself or to an earlier fetch of
its key. -/
theorem source_of_returns {world : World} {replication : Replication} {strategy : Balancing}
    {timeout : Option Duration} {picks : Picks} {s t : Session} {before moves : List Move}
    {r : Request} {x : Answer}
    (hBefore : { ofWorld world replication strategy with timeout, picks }.run? before = some s)
    (hFill : ∀ key data, .fill key data ∉ before) (hRead : r.isWrite = false)
    (hReturns : s.Returns s.tickets (.submit (.request r) :: moves) t (.returned (.ok x)))
    (hx : x ≠ .presence false) :
    Source { ofWorld world replication strategy with timeout, picks } s before
      (.submit (.request r) :: moves) r x := by
  have hReachable : s.Reachable := ⟨world, replication, strategy, timeout, picks, before, hBefore⟩
  have hs := sound_of_reachable hReachable
  have hMindful := mindful_of_reachable hReachable
  have hFresh : { ofWorld world replication strategy with timeout, picks }.Mindful :=
    mindful_of_reachable ⟨world, replication, strategy, timeout, picks, [], rfl⟩
  cases hWalk : s.walk? r with
  | some start =>
    obtain ⟨b, hHeard⟩ := heard_of_returns hs hMindful hWalk hReturns hx
    exact .backend b hHeard
  | none =>
    rcases submit_of_served hRead hWalk with ⟨e, he, hKey, hEq⟩ | ⟨-, hEq⟩
    · have hGives : x = r.gives e.data := by
        have hEnded := eq_of_served hEq hReturns
        cases hEnded
        rfl
      rcases heard_of_mem_entries hFresh hBefore hFill he with hOld | ⟨ticket, a, b, hTold, hHeard⟩
      · simp [ofWorld] at hOld
      · by_cases hSame : a = r.address
        · exact .cache ticket b e.data hGives (hSame ▸ hHeard)
        · refine .neighbour a ticket b e.data hGives hSame (hTold.symm.trans hKey) ?_ ?_ hHeard
          · exact fun ha hr => hSame (Address.eq_of_key_eq ha hr (hTold.symm.trans hKey))
          · rcases asks_or_running_of_heard hFresh hBefore hHeard with hAsked | ⟨p, hp, -⟩
            · exact hAsked
            · simp [ofWorld] at hp
    · have hEnded := eq_of_served hEq hReturns
      cases hEnded

/-- A client of one main. -/
def lone : Session := ofWorld { backends := [⟨"alpha", { isMain := true }, .scripted {}⟩] } .sync .classic

/-- Two objects are put that share a key, and the first one is read. -/
def neighbours : List Move :=
  [.cache (.configure { enabled := true }),
    .submit (.request (.put ⟨"a/b", "c"⟩ [1])), .event (.start 0 0), .event (.join 0),
    .submit (.request (.put ⟨"a", "b/c"⟩ [2])), .event (.start 1 0), .event (.join 1),
    .submit (.request (.get ⟨"a/b", "c"⟩))]

def readNeighbour : Session := (lone.run? neighbours).getD lone

/-- The next read of the second object is served the first one, though the main tells them apart. -/
theorem source_of_returns_neighbour : ∃ t : Session,
    readNeighbour.Returns 3 [.submit (.request (.get ⟨"a", "b/c"⟩))] t (.returned (.ok (.content [1]))) ∧
    Source lone readNeighbour neighbours [.submit (.request (.get ⟨"a", "b/c"⟩))] (.get ⟨"a", "b/c"⟩)
      (.content [1]) ∧
    (∀ ticket b x, ¬ lone.Heard (neighbours ++ [.submit (.request (.get ⟨"a", "b/c"⟩))]) ticket
      (.get ⟨"a", "b/c"⟩) b x) ∧
    t.world.objectAt? 0 ⟨"a/b", "c"⟩ = some [1] ∧ t.world.objectAt? 0 ⟨"a", "b/c"⟩ = some [2] := by
  have hRun : lone.run? neighbours = some readNeighbour := rfl
  have hReturns : readNeighbour.Returns readNeighbour.tickets
      [.submit (.request (.get ⟨"a", "b/c"⟩))] (readNeighbour.submit (.request (.get ⟨"a", "b/c"⟩)))
      (.returned (.ok (.content [1]))) := returns_of_forall_take rfl rfl (by decide)
  have hSource := source_of_returns hRun (by simp [neighbours]) rfl hReturns (by decide)
  refine ⟨_, hReturns, hSource, ?_, rfl, rfl⟩
  rintro ticket b x ⟨g, hg, -, hRequest, -⟩
  have hOne : (lone.noted calls? (neighbours ++ [.submit (.request (.get ⟨"a", "b/c"⟩))])).map
      (·.request) = [.get ⟨"a/b", "c"⟩] := rfl
  have hMem := List.mem_map_of_mem (f := Going.request) hg
  rw [hOne, hRequest] at hMem
  simp at hMem

end Session

end ReplicatedStore

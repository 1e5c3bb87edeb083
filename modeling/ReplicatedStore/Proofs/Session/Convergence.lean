import ReplicatedStore.Proofs.Session.Fetching
import ReplicatedStore.Proofs.Session.Superseding

/-!
# Convergence

After the last write of an object has succeeded and the background writes have been waited for, each main
holds what it has left, unless a background write that was under way when it was asked for has arrived
there later: nothing orders writes in the background. If all mains hold it, fetches tell of it, unless the
cache still holds what somebody has fetched before all of them did.

Main results:

* `Session.absent_of_run?` — who does not ask for an object does not find it in the cache.
* `Session.WritesAndWaits.ready` — a caller that has waited finds the session ready for a fetch.
* `Session.WritesAndWaits.converges` — what mains hold and what fetches tell once all is drained.
-/

namespace ReplicatedStore

/-- Whether a move asks for the content of a key to be cached. -/
inductive Move.Caches (key : String) : Move → Prop
  | get {m : Move} {a : Address} (hAsks : m.Asks (.request (.get a))) (hKey : a.key = key) : Caches key m
  | fill (data : Bytes) : Caches key (.fill key data)

/-- Where there are mains alone, a read asks them in their order, whoever's turn it is. -/
theorem ReadOrder.claim_of_groups {o : ReadOrder} {mains : List Nat} (h : o.groups = [[], mains]) :
    o.claim.1 = mains := by
  unfold claim
  rw [h]
  cases o.strategy with
  | classic => simp
  | roundRobin => simp

namespace Session

variable {s t u v w : Session} {r : Request} {a : Address} {b : Nat} {m : Move} {moves : List Move}
  {key : String}

/-! ## What is not asked for -/

/-- Whether a key is not cached, and nobody is about to cache it. -/
structure Absent (key : String) (s : Session) : Prop where
  entries : ∀ e ∈ s.watched.cache.entries, e.key ≠ key
  running : ∀ p ∈ s.running, ∀ a, p.order = .request (.get a) → a.key ≠ key

theorem absent_of_move? (h : s.Absent key) (hNot : ¬ m.Caches key) (hMove : s.move? m = some t) :
    t.Absent key := by
  constructor
  · intro e he hKey
    rcases mem_entries_of_move? hMove he with hOld | hFills | ⟨a, hSame, ⟨p, hp, hOrder⟩ | hAsks⟩
    · exact h.entries e hOld hKey
    · rw [hKey] at hFills
      exact hNot (hFills ▸ .fill e.data)
    · exact h.running p hp a hOrder (hSame.symm.trans hKey)
    · exact hNot (.get hAsks (hSame.symm.trans hKey))
  · intro p hp a hOrder hKey
    rcases mem_running_of_move? hMove hp with ⟨q, hq, hSame⟩ | hAsks
    · exact h.running q hq a (hSame.trans hOrder) hKey
    · exact hNot (.get (hOrder ▸ hAsks) hKey)

theorem absent_of_run? (h : s.Absent key) (hNot : ∀ m ∈ moves, ¬ m.Caches key)
    (hRun : s.run? moves = some t) : t.Absent key :=
  run?_induction_of (P := Absent key) hRun hNot h fun hAbsent hNone hMove =>
    absent_of_move? hAbsent hNone hMove

theorem absent_of_idle (hIdle : s.running = []) (h : s.watched.cache.find? key = none) :
    s.Absent key := by
  constructor
  · intro e he hKey
    have hNot := List.find?_eq_none.mp h e he
    simp [hKey] at hNot
  · intro p hp
    rw [hIdle] at hp
    contradiction

theorem not_caches_of_isFree (hFree : m.isFree = true) : ¬ m.Caches key := by
  rintro (⟨hAsks, -⟩ | data)
  · exact not_asks_of_isFree hFree hAsks
  · contradiction

/-- Backends are read in the groups that a client was set up with. -/
theorem groups_of_reachable (h : s.Reachable) : s.readOrder.groups = s.world.readGroups := by
  obtain ⟨world, replication, strategy, timeout, picks, moves, hRun⟩ := h
  refine run?_induction (P := fun s => s.readOrder.groups = s.world.readGroups) hRun rfl ?_
  intro a b m hSame hMove
  rw [groups_of_move? hMove, hSame, World.readGroups_of_frame_eq (goesOn_of_move? hMove).frame]

/-- While nobody waits for anything, what is owed was left to the background. -/
theorem exists_launched_of_owes {x : Arrival} (hs : s.Reachable) (hIdle : s.running = [])
    (h : s.Owes b x) : ∃ fan ∈ s.launched, ∃ f, s.fans[fan]? = some f ∧ f.isFinished = false ∧
      x = ⟨.fan fan, b, f.request⟩ := by
  obtain ⟨fan, f, hf, hOpen, hEq⟩ := h
  have hUnfinished : s.isFinished fan = false := by rw [isFinished, hf, Option.all_some, hOpen]
  exact ⟨fan, mem_launched_of_idle (attended_of_reachable hs) hIdle hUnfinished, f, hf, hOpen, hEq⟩

/-- While nobody waits for anything and no background write is under way, nothing is owed. -/
theorem not_owes_of_quiet {x : Arrival} (hs : s.Reachable) (hIdle : s.running = [])
    (hQuiet : s.pendingReplications = 0) : ¬ s.Owes b x := by
  intro hOwes
  obtain ⟨fan, hLaunched, f, hf, hOpen, -⟩ := exists_launched_of_owes hs hIdle hOwes
  have hNone := List.countP_eq_zero.mp hQuiet fan hLaunched
  rw [isFinished, hf, Option.all_some, hOpen] at hNone
  contradiction

/-- Whether all mains have taken a write, and the cache has nothing else of its object. -/
structure Consistent (s : Session) (r : Request) : Prop where
  taken : ∀ b ∈ s.world.mains, s.world.HasTaken b r
  entries : ∀ e ∈ s.watched.cache.entries, e.key = r.address.key → r = .put r.address e.data

/-! ## When all is drained -/

namespace WritesAndWaits

variable {first between last : List Move}

/-- A caller that has waited is alone. -/
theorem running_eq_nil (h : WritesAndWaits s r first t between u last v) (hs : s.Reachable) :
    v.running = [] := by
  have hThere : u.Reachable := (hs.run? h.written.run).run? h.goes
  exact running_eq_nil_of_returns (sound_of_reachable hThere) (attended_of_reachable hThere) h.rests
    h.patient h.waited

/-- Nobody starts a fan-out while the caller waits, so all there are have been waited for. -/
theorem all_finished (h : WritesAndWaits s r first t between u last v) (hs : s.Reachable) :
    ∀ f ∈ v.fans, f.isFinished = true := by
  -- no request is asked for while the caller waits, and so none is served by a new fan-out
  have hFor : v.AllFor (fun _ => False) u.fans.length := by
    refine run?_induction_of (P := AllFor (fun _ => False) u.fans.length) (C := fun m => ∀ q,
      ¬ m.Asks (.request q)) h.waited.run ?_ ⟨?_, ?_⟩ fun hNone hNot hMove =>
        allFor_of_move? hNone hNot hMove
    · intro m hm q hAsks
      rcases List.mem_cons.mp hm with rfl | hm
      · cases hAsks
      · exact not_asks_of_isFree (h.patient m hm) hAsks
    · intro p hp
      rw [h.rests] at hp
      contradiction
    · intro k f hk hf
      rw [List.getElem?_eq_none hk] at hf
      contradiction
  intro f hf
  obtain ⟨fan, hFan⟩ := List.getElem?_of_mem hf
  have hLt : fan < u.fans.length := by
    by_contra hNot
    exact hFor.fans fan f (Nat.le_of_not_lt hNot) hFan
  have hFinished := h.finished hs fan hLt
  rwa [isFinished, hFan, Option.all_some] at hFinished

/-- What nobody has asked to cache since the write is not cached. -/
theorem absent (h : WritesAndWaits s r first t between u last v) (hs : s.Reachable)
    (hWrite : r.isWrite = true) (hNot : ∀ m ∈ between, ¬ m.Caches r.address.key) :
    v.Absent r.address.key := by
  have hSound := sound_of_reachable hs
  have hForgotten := find?_of_written hSound (mindful_of_reachable hs) hWrite h.written
  have hAlone := running_eq_nil_of_returns hSound (attended_of_reachable hs) h.idle h.alone h.written
  -- the write has taken the entry away, and a fetch that could bring it back is not under way
  refine absent_of_run? (absent_of_idle hAlone hForgotten) (fun m hm => ?_) h.goesOn
  rcases List.mem_append.mp hm with hm | hm
  · exact hNot m hm
  · rcases List.mem_cons.mp hm with rfl | hm
    · rintro (⟨hAsks, -⟩ | -)
      cases hAsks
    · exact not_caches_of_isFree (h.patient m hm)

theorem mains_eq (h : WritesAndWaits s r first t between u last v) : v.world.mains = s.world.mains :=
  World.mains_of_frame_eq (goesOn_of_run? h.run).frame

/-- A caller that has waited finds the session ready for a fetch. -/
theorem ready (h : WritesAndWaits s r first t between u last v) (hs : s.Reachable)
    (hReplicas : s.world.replicas = []) (hWrite : r.isWrite = true)
    (hTells : ∀ b ∈ s.world.mains, v.world.TellsAt b) (hConsistent : v.Consistent r) : v.Ready r := by
  have hThere : v.Reachable := hs.run? h.run
  have hFrame := (goesOn_of_run? h.run).frame
  have hMains := h.mains_eq
  refine ⟨sound_of_reachable hThere, h.running_eq_nil hs, h.all_finished hs, ?_, hWrite, ?_,
    fun b hb => ⟨hConsistent.taken b hb, hTells b (hMains ▸ hb)⟩, hConsistent.entries⟩
  · -- reads go to the mains alone, since there are no replicas
    refine ReadOrder.claim_of_groups ?_
    rw [groups_of_reachable hThere, World.readGroups, World.replicas_of_frame_eq hFrame, hReplicas]
  · rw [hMains]
    exact mains_ne_nil_of_written hWrite h.written

end WritesAndWaits

/-! ## The result -/

/-- Whether a write that was left to the background before is the last to arrive at a backend. -/
def Overtakes (s : Session) (b : Nat) (a : Address) (moves : List Move) (q : Request) : Prop :=
  ∃ fan ∈ s.launched, ∃ f, s.fans[fan]? = some f ∧ f.isFinished = false ∧ f.request = q ∧
    (arrivalsAt b a s moves).getLast? = some ⟨.fan fan, b, q⟩

/-- What can be told of the mains, of the cache and of fetches after moves that a write starts. -/
structure Converges (s : Session) (r : Request) (moves between : List Move) (v : Session) : Prop where
  /-- each main holds what the write has left, or what has overtaken it there -/
  holds : ∀ b ∈ v.world.mains, v.world.HasTaken b r ∨
    ∃ q, s.Overtakes b r.address moves q ∧ v.world.HasTaken b q
  /-- if nothing was left to the background before, nothing overtakes the write -/
  quiet : s.pendingReplications = 0 → ∀ b ∈ v.world.mains, v.world.HasTaken b r
  /-- the cache is without the object if nobody has asked for it since -/
  fresh : (∀ m ∈ between, ¬ m.Caches r.address.key) →
    ∀ e ∈ v.watched.cache.entries, e.key ≠ r.address.key
  /-- if mains and cache are consistent, fetches tell of the write -/
  tells : v.Consistent r → ∀ moves w e, (∀ m ∈ moves, m.isFree = true) →
    v.Returns v.tickets (.submit (.request (.get r.address)) :: moves) w e → v.Tells r e
  /-- and they can be brought to their end -/
  returns : v.Consistent r → ∀ moves w, (∀ m ∈ moves, m.isFree = true) →
    (v.submit (.request (.get r.address))).Pending v.tickets moves w →
    ∃ rest x e, (∀ m ∈ rest, m.isFree = true) ∧ w.Returns v.tickets rest x e

/-- Asynchronous replication converges, as far as the background writes from before the last write do
not overtake it, and as far as the cache is not filled before all mains have it. -/
theorem WritesAndWaits.converges {first between last : List Move}
    (h : WritesAndWaits s r first t between u last v) (hs : s.Reachable)
    (hAsync : s.replication = .async) (hReplicas : s.world.replicas = []) (hWrite : r.isWrite = true)
    (hApart : ∀ b ∈ s.world.mains, s.world.Apart b r.address)
    (hTells : ∀ b ∈ s.world.mains, v.world.TellsAt b) :
    Converges s r ((.submit (.request r) :: first) ++ (between ++ .submit .wait :: last)) between v := by
  constructor
  · intro b hb
    rw [h.mains_eq] at hb
    rcases h.hasTaken_or_owed hs hAsync hWrite hb (hApart b hb) with hTaken | ⟨x, hLast, hOwes, hTaken⟩
    · exact .inl hTaken
    · obtain ⟨fan, hLaunched, f, hf, hOpen, rfl⟩ := exists_launched_of_owes hs h.idle hOwes
      exact .inr ⟨f.request, ⟨fan, hLaunched, f, hf, hOpen, rfl, hLast⟩, hTaken⟩
  · intro hQuiet b hb
    rw [h.mains_eq] at hb
    rcases h.hasTaken_or_owed hs hAsync hWrite hb (hApart b hb) with hTaken | ⟨x, -, hOwes, -⟩
    · exact hTaken
    · exact absurd hOwes (not_owes_of_quiet hs h.idle hQuiet)
  · intro hNot
    exact (h.absent hs hWrite hNot).entries
  · intro hConsistent moves w e hFree hReturns
    exact tells_of_returns (h.ready hs hReplicas hWrite hTells hConsistent) hFree hReturns
  · intro hConsistent moves w hFree hPending
    exact exists_returns_of_pending_fetch (h.ready hs hReplicas hWrite hTells hConsistent) hFree hPending

/-- Two mains of which one fails its second write and takes its time with the third. The other takes its
time with the first. -/
def wavering : World :=
  { backends := [
      ⟨"alpha", { isMain := true }, .scripted {
        behaviour := fun operation number =>
          if operation = .put ∧ number = 1 then { failure := some (.said "down") }
          else if operation = .put ∧ number = 2 then { delay := .ofMillis 100 }
          else {} }⟩,
      ⟨"beta", { isMain := true }, .scripted {
        behaviour := fun operation number =>
          if operation = .put ∧ number = 0 then { delay := .ofMillis 300 } else {} }⟩] }

def waverer : Session := ofWorld wavering .async .classic

/-- The client puts an object. One main takes it at once, and the background brings it to the other. -/
def putOnce : List Move :=
  [.cache (.configure { enabled := true }), .submit (.request (.put ⟨"c", "x"⟩ [1])), .event (.start 0 0)]

def arriveOnce : List Move := [.tick (.ofMillis 300), .event (.complete 0 0)]

/-- The session in which both mains hold the object, and nothing is under way. -/
def settledOnce : Session := (waverer.run? (putOnce ++ arriveOnce)).getD waverer

/-- The object is put again, and the main that fails at first gets it in the background. -/
def placedAgain : Session := settledOnce.submit (.request (.put ⟨"c", "x"⟩ [2]))

def retry : List Move := [.event (.start 1 0)]

def retried : Session := (placedAgain.run? retry).getD placedAgain

def drain : List Move := [.tick (.ofMillis 400), .event (.complete 1 0), .event (.join 2)]

def settledTwice : Session := (retried.run? (.submit .wait :: drain)).getD retried

/-- Nothing was left to the background before, so in the end both mains hold the second payload, and the
next fetch gives it. -/
theorem converges_drained :
    settledOnce.pendingReplications = 0 ∧
    WritesAndWaits settledOnce (.put ⟨"c", "x"⟩ [2]) [] placedAgain retry retried drain settledTwice ∧
    settledTwice.world.HasTaken 0 (.put ⟨"c", "x"⟩ [2]) ∧
    settledTwice.world.HasTaken 1 (.put ⟨"c", "x"⟩ [2]) ∧
    ∃ w e, settledTwice.Returns 3 [.submit (.request (.get ⟨"c", "x"⟩))] w e ∧
      settledTwice.Tells (.put ⟨"c", "x"⟩ [2]) e ∧ e = .returned (.ok (.content [2])) := by
  have hReachable : settledOnce.Reachable :=
    ⟨wavering, .async, .classic, none, .first, putOnce ++ arriveOnce, rfl⟩
  have hMains : settledOnce.world.mains = [0, 1] := by decide
  have hGoes : placedAgain.run? (retry ++ .submit .wait :: drain) = some settledTwice := rfl
  have hWaits : WritesAndWaits settledOnce (.put ⟨"c", "x"⟩ [2]) [] placedAgain retry retried drain
      settledTwice := by
    refine ⟨rfl, returns_singleton rfl rfl rfl, nofun, rfl, ?_, rfl, ?_, by decide, ?_⟩
    · rintro m hm q hAsks
      rw [List.mem_singleton.mp hm] at hAsks
      cases hAsks
    · exact returns_of_forall_take rfl rfl (by decide)
    · intro fan hFirst p hp
      have hLt : fan < 2 := lt_of_mem_outcomes hGoes hp
      have hFirst : 1 ≤ fan := hFirst
      obtain rfl : fan = 1 := by omega
      have hOutcomes : outcomes 1 placedAgain (retry ++ .submit .wait :: drain) =
          [(0, .answered .done)] := rfl
      rw [hOutcomes] at hp
      rw [List.mem_singleton.mp hp]
      rfl
  have hApart : ∀ b ∈ settledOnce.world.mains, settledOnce.world.Apart b ⟨"c", "x"⟩ := by
    intro b hb
    rw [hMains] at hb
    rcases List.mem_pair.mp hb with rfl | rfl
    · exact World.IsKept.apart ⟨_, rfl, rfl⟩ _
    · exact World.IsKept.apart ⟨_, rfl, rfl⟩ _
  have hTells : ∀ b ∈ settledOnce.world.mains, settledTwice.world.TellsAt b := by
    intro b hb
    rw [hMains] at hb
    rcases List.mem_pair.mp hb with rfl | rfl
    · exact ⟨_, rfl, .scripted fun number => rfl⟩
    · exact ⟨_, rfl, .scripted fun number => rfl⟩
  have hConverges := WritesAndWaits.converges hWaits hReachable rfl (by decide) rfl hApart hTells
  have hTaken : ∀ b ∈ settledTwice.world.mains,
      settledTwice.world.HasTaken b (.put ⟨"c", "x"⟩ [2]) := hConverges.quiet rfl
  have hReturns : settledTwice.Returns settledTwice.tickets [.submit (.request (.get ⟨"c", "x"⟩))]
      (settledTwice.submit (.request (.get ⟨"c", "x"⟩))) (.returned (.ok (.content [2]))) :=
    returns_singleton rfl rfl rfl
  have hNobody : ∀ m ∈ retry, ¬ m.Caches (Address.key ⟨"c", "x"⟩) := by
    intro m hm hCaches
    rw [List.mem_singleton.mp hm] at hCaches
    rcases hCaches with ⟨hAsks, -⟩
    cases hAsks
  have hFresh := hConverges.fresh hNobody
  refine ⟨rfl, hWaits, ?_, ?_, _, _, hReturns, ?_, rfl⟩
  · exact hTaken 0 (by decide)
  · exact hTaken 1 (by decide)
  · have hConsistent : settledTwice.Consistent (.put ⟨"c", "x"⟩ [2]) :=
      ⟨hTaken, fun e he hKey => absurd hKey (hFresh e he)⟩
    exact hConverges.tells hConsistent [] _ _ (fun m hm => absurd hm List.not_mem_nil) hReturns

/-- The session in which the first payload is still on its way to the second main. -/
def placedOnce : Session := (waverer.run? putOnce).getD waverer

def placedTwice : Session := placedOnce.submit (.request (.put ⟨"c", "x"⟩ [2]))

/-- The object is fetched before the first main has got the second payload. -/
def getBetween : List Move := [.event (.start 1 0), .submit (.request (.get ⟨"c", "x"⟩))]

def gotBetween : Session := (placedTwice.run? getBetween).getD placedTwice

def drainBoth : List Move :=
  [.tick (.ofMillis 100), .event (.complete 1 0), .tick (.ofMillis 300), .event (.complete 0 0),
    .event (.join 3)]

def drainedBoth : Session := (gotBetween.run? (.submit .wait :: drainBoth)).getD gotBetween

/-- The first payload arrives last at the second main, and the cache has kept it too, though every write
in the background has succeeded. -/
theorem not_converges_overtaken :
    placedOnce.Reachable ∧ placedOnce.replication = .async ∧ placedOnce.world.mains = [0, 1] ∧
    placedOnce.world.replicas = [] ∧
    WritesAndWaits placedOnce (.put ⟨"c", "x"⟩ [2]) [] placedTwice getBetween gotBetween drainBoth
      drainedBoth ∧
    (∀ fan, ∀ p ∈ outcomes fan placedTwice (getBetween ++ .submit .wait :: drainBoth),
      p.2.isAnswered = true) ∧
    ¬ drainedBoth.world.HasTaken 1 (.put ⟨"c", "x"⟩ [2]) ∧
    (drainedBoth.submit (.request (.get ⟨"c", "x"⟩))).ended? drainedBoth.tickets =
      some (.returned (.ok (.content [1]))) := by
  have hReachable : placedOnce.Reachable :=
    ⟨wavering, .async, .classic, none, .first, putOnce, rfl⟩
  have hGoes : placedTwice.run? (getBetween ++ .submit .wait :: drainBoth) = some drainedBoth := rfl
  have hAnswered : ∀ fan, ∀ p ∈ outcomes fan placedTwice (getBetween ++ .submit .wait :: drainBoth),
      p.2.isAnswered = true := by
    intro fan p hp
    have hLt : fan < 2 := lt_of_mem_outcomes hGoes hp
    have hOutcomes : ∀ fan < 2, outcomes fan placedTwice (getBetween ++ .submit .wait :: drainBoth) =
        [(0, .answered .done)] := by
      intro fan hFan
      match fan, hFan with
      | 0, _ => rfl
      | 1, _ => rfl
    rw [hOutcomes fan hLt] at hp
    rw [List.mem_singleton.mp hp]
    rfl
  refine ⟨hReachable, rfl, by decide, by decide, ?_, hAnswered, ?_, rfl⟩
  · refine ⟨rfl, returns_singleton rfl rfl rfl, nofun, rfl, ?_, rfl, ?_, by decide,
      fun fan _ => hAnswered fan⟩
    · intro m hm q hAsks hWrite
      rcases List.mem_cons.mp hm with rfl | hm
      · cases hAsks
      · rw [List.mem_singleton.mp hm] at hAsks
        cases hAsks
        contradiction
    · exact returns_of_forall_take rfl rfl (by decide)
  · rintro ⟨b, content, hb, hEncodes, hObject⟩
    have hBeta : ∃ script, drainedBoth.world.backends[1]? =
        some ⟨"beta", { isMain := true }, .scripted script⟩ := ⟨_, rfl⟩
    obtain ⟨script, hBeta⟩ := hBeta
    rw [hBeta, Option.some.injEq] at hb
    subst hb
    obtain rfl : content = [2] := hEncodes
    have hHolds : drainedBoth.world.objectAt? 1 ⟨"c", "x"⟩ = some [1] := rfl
    rw [hHolds] at hObject
    contradiction

end Session

end ReplicatedStore

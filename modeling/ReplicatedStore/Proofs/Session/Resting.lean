import ReplicatedStore.Proofs.Cache.Entries
import ReplicatedStore.Proofs.Session.FanReport
import ReplicatedStore.Proofs.Session.Seeking

/-!
# Sessions at rest

A caller that asks one thing after the other finds the session at rest each time: nothing is under way,
and every entry of the cache is what a fetch would find now. Between two requests time may pass, and
the caller may turn to the cache; both only take entries away.

Main results:

* `Session.AtRest.cache`, `Session.AtRest.tick` — turning to the cache, and waiting.
* `Session.atRest_client` — a client that has just been set up.
-/

namespace ReplicatedStore

/-- Whether a move is up to nobody: something that is under way goes on, or time passes. -/
def Move.isFree : Move → Bool
  | event _ | tick _ => true
  | submit _ | submitStream .. | cache _ | fill .. => false

namespace Session

/-- Whether every entry of the cache is what a fetch would find. -/
def Truthful (s : Session) : Prop :=
  ∀ e ∈ s.watched.cache.entries, ∀ a : Address, a.IsSimple → a.key = e.key →
    s.world.fetch? a = some e.data

/-- A session of synchronous replication without deadlines in which nothing is under way, that reads
its steady backends in their order and whose cache is truthful. -/
structure AtRest (s : Session) : Prop where
  sound : s.Sound
  running : s.running = []
  finished : ∀ f ∈ s.fans, f.isFinished = true
  timeout : s.timeout = none
  replication : s.replication = .sync
  order : s.readOrder.claim = (s.world.readGroups.flatten, s.readOrder)
  steady : s.world.Steady
  truthful : s.Truthful

/-- What a session has as long as a request is under way. -/
structure Lasts (s t : Session) : Prop where
  sound : t.Sound
  tickets : s.tickets < t.tickets
  timeout : t.timeout = s.timeout
  replication : t.replication = s.replication
  readOrder : t.readOrder = s.readOrder
  frame : t.world.frame = s.world.frame
  entries : t.watched.cache.entries ⊆ s.watched.cache.entries

variable {s t u : Session} {r : Request} {m : Move}

theorem AtRest.fetch?_eq (h : s.AtRest) {a : Address} (ha : a.IsSimple) {data : Bytes}
    (hFound : (s.watched.cache.lookup s.now a.key).1 = some data) : s.world.fetch? a = some data := by
  obtain ⟨e, he, hKey, rfl⟩ := Cache.mem_of_lookup hFound
  exact h.truthful e he a ha hKey.symm

/-- A session with fewer entries is at rest if the session is. -/
theorem AtRest.of_subset (h : s.AtRest) {watched : WatchedCache} (now : Duration)
    (hEntries : watched.cache.entries ⊆ s.watched.cache.entries) :
    { s with watched, now }.AtRest :=
  ⟨⟨h.sound.running, h.sound.ended, h.sound.fans⟩, h.running, h.finished, h.timeout, h.replication,
    h.order, h.steady, fun e he => h.truthful e (hEntries he)⟩

/-- What a caller asks of the cache takes entries away at most. -/
theorem entries_apply_subset (order : CacheOrder) (w : WatchedCache) (now : Duration) :
    (order.apply w now).cache.entries ⊆ w.cache.entries := by
  intro e he
  -- new options start from nothing; a pass drops entries, and nothing adds any
  cases order with
  | configure options =>
    rw [CacheOrder.apply, WatchedCache.configure, WatchedCache.entries_start] at he
    contradiction
  | setEnabled enabled =>
    rw [CacheOrder.apply, WatchedCache.setEnabled] at he
    split at he
    · rwa [WatchedCache.entries_start] at he
    · exact he
  | setPolicy policy => rwa [CacheOrder.apply, WatchedCache.setPolicy, WatchedCache.entries_start] at he
  | clear => contradiction
  | startValidation => rwa [CacheOrder.apply, WatchedCache.entries_start] at he
  | stopValidation => exact he
  | pass picker percent => exact Cache.entries_validate_subset _ _ _ _ he

theorem AtRest.cache (h : s.AtRest) (order : CacheOrder) :
    { s with watched := order.apply s.watched s.now }.AtRest :=
  h.of_subset s.now (entries_apply_subset order s.watched s.now)

/-- What lets a walk go on is up to nobody. -/
theorem IsWalkOn.isFree {ticket : Nat} (h : IsWalkOn ticket m) : m.isFree = true := by
  cases h <;> rfl

theorem AtRest.tick (h : s.AtRest) (time : Duration) : (s.tick time).AtRest := by
  obtain ⟨watched, now, hEq, hEntries⟩ := tick_eq s time
  rw [hEq]
  exact h.of_subset now hEntries

theorem Lasts.tick (h : s.Lasts t) (time : Duration) : s.Lasts (t.tick time) := by
  have hSound : (t.tick time).Sound := sound_of_move? (m := .tick time) h.sound rfl
  obtain ⟨watched, now, hEq, hEntries⟩ := tick_eq t time
  rw [hEq] at hSound ⊢
  exact ⟨hSound, h.tickets, h.timeout, h.replication, h.readOrder, h.frame,
    fun e he => h.entries (hEntries he)⟩

/-- A client of synchronous replication without deadlines that has just been set up. -/
def client (w : World) (strategy : Balancing) (options : CacheOptions) (picks : Picks) : Session :=
  let s := ofWorld w .sync strategy
  { s with watched := s.watched.configure s.now options, picks }

theorem atRest_client {w : World} (hw : w.Steady) {strategy : Balancing}
    (hOrder : strategy = .classic ∨ w.replicas = []) (options : CacheOptions) (picks : Picks) :
    (client w strategy options picks).AtRest := by
  have hEmpty : (client w strategy options picks).watched.cache.entries = [] := by
    show (WatchedCache.configure {} .zero options).cache.entries = []
    rw [WatchedCache.configure, WatchedCache.entries_start]
  refine ⟨⟨?_, ?_, ?_⟩, rfl, ?_, rfl, rfl, ?_, hw, ?_⟩
  · exact fun r hr => nomatch hr
  · exact fun e he => nomatch he
  · exact fun r hr => nomatch hr
  · exact fun f hf => nomatch hf
  · rcases hOrder with rfl | hNone
    · rfl
    · cases strategy with
      | classic => rfl
      | roundRobin =>
        -- taking turns concerns the replicas alone, and there are none
        have hGroups : w.readGroups = [[], w.mains] := by rw [World.readGroups, hNone]
        show ReadOrder.claim { strategy := .roundRobin, groups := w.readGroups } =
          (w.readGroups.flatten, ({ strategy := .roundRobin, groups := w.readGroups } : ReadOrder))
        rw [hGroups]
        rfl
  · intro e he
    rw [hEmpty] at he
    contradiction

end Session

end ReplicatedStore

import ReplicatedStore.Proofs.Backend.Telling
import ReplicatedStore.Proofs.Session.ReadServing
import ReplicatedStore.Proofs.Session.Trying
import ReplicatedStore.Proofs.Session.Turns

/-!
# Fetching what all mains hold

A fetch that is alone under way asks one main after the other. If all of them have taken the same write,
whoever gives something gives what was written, so the fetch comes to the payload of a put; it comes to
nothing only if every main has failed, as after a removal all of them do. It can always be brought to its
end, by then or by its deadline. The cache does not matter if it holds nothing else.

Main results:

* `World.fetches_goFrom`, `World.fetches_resume` — what a walk comes to.
* `Session.tells_of_returns`, `Session.exists_returns_of_pending_fetch` — what fetches come to, and that
  they do.
-/

namespace ReplicatedStore

namespace World

variable {u v w : World} {i : Nat} {r : Request} {o : Outcome}

/-! ## Whole reads -/

theorem frame_call (w : World) (i : Nat) (r : Request) : (w.call i r).1.frame = w.frame := by
  have hBegin := frame_begin w i r
  unfold call
  split
  · rename_i hCall
    rwa [hCall] at hBegin
  · rename_i v delay held hCall
    rw [hCall] at hBegin
    exact (frame_finish v i held).trans hBegin

theorem Manner.call (w : World) (i : Nat) (r : Request) : Manner (w.call i r).1 w := by
  have hBegin := Manner.begin w i r
  unfold World.call
  split
  · rename_i hCall
    rwa [hCall] at hBegin
  · rename_i v delay held hCall
    rw [hCall] at hBegin
    exact hBegin.trans (Manner.finish v i held)

/-- A read leaves all objects alone. -/
theorem objectAt?_call (w : World) (i : Nat) (hRead : r.isWrite = false) :
    (w.call i r).1.objectAt? = w.objectAt? := by
  unfold call
  split
  · rename_i hCall
    exact (follows_begin hCall).quiet (.read hRead)
  · rename_i v delay held hCall
    have hPauses := pauses_begin hCall
    exact ((follows_finish hPauses.keeps).quiet (.read hRead)).trans hPauses.quiet

/-! ## Walks -/

/-- Whether a walk that fetches ends as it does when all backends of an order have taken a write. -/
def FetchEnds (w : World) (order : List Nat) (r : Request) (e : WalkEnd) : Prop :=
  (∃ passed a data, r = .put a data ∧ e = .found passed (.content data)) ∨
    (∃ errors, e = .lost (.allReadsFailed errors)) ∧
      ∀ i ∈ order, w.HeedsAt i → ∀ a data, r ≠ .put a data

/-- A walk that fetches, with the backends behind it that have failed. -/
structure Fetching (w : World) (order : List Nat) (r : Request) (v : World) (walk : Walk)
    (ahead : List Nat) : Prop where
  frame : v.frame = w.frame
  objects : v.objectAt? = w.objectAt?
  manner : v.Manner w
  request : walk.request = .get r.address
  behind : ∃ behind, order = behind ++ ahead ∧
    ∀ i ∈ behind, w.HeedsAt i → ∀ a data, r ≠ .put a data
  noted : walk.errors = [] → ahead = order

/-- What a fetch comes to when it has been set going: it ends, or it waits for the next backend. -/
def Fetches (w : World) (order : List Nat) (r : Request) : World × WalkState → Prop
  | (_, .over e) => w.FetchEnds order r e
  | (v, .suspended walk delay held) => ∃ b rest u, walk.todo = b :: rest ∧
      w.Fetching order r u walk (b :: rest) ∧ u.begin b (.get r.address) = (v, .waiting delay held)

/-- Whether all backends of an order have taken a write and tell of it. -/
def AllTell (w : World) (order : List Nat) (r : Request) : Prop :=
  ∀ i ∈ order, w.HasTaken i r ∧ w.TellsAt i

variable {order : List Nat} {walk : Walk} {b : Nat} {rest ahead : List Nat}

/-- A backend gives what was written, or the walk passes it. -/
theorem Fetching.weigh (h : w.Fetching order r v walk (b :: rest)) (hAll : w.AllTell order r)
    (hWrite : r.isWrite = true) (hCall : v.call b (.get r.address) = (u, o)) :
    (∃ e, walk.weigh (u.nameOf b) o = .inl e ∧ w.FetchEnds order r e) ∨
      ∃ walk', walk.weigh (u.nameOf b) o = .inr walk' ∧ w.Fetching order r u walk' rest := by
  obtain ⟨behind, hOrder, hBehind⟩ := h.behind
  have hMem : b ∈ order := by
    rw [hOrder]
    exact List.mem_append_right _ List.mem_cons_self
  obtain ⟨hTaken, hTells⟩ := hAll b hMem
  have hOutcome := tells_call (hTaken.of_objectAt?_eq h.frame (by rw [h.objects])) hWrite
    (h.manner.tellsAt hTells)
  have hFrame := frame_call v b (.get r.address)
  have hObjects := objectAt?_call v b (r := .get r.address) rfl
  have hManner := Manner.call v b (.get r.address)
  rw [hCall] at hOutcome hFrame hObjects hManner
  rcases hOutcome with ⟨a, data, rfl, hGives⟩ | ⟨⟨f, hFails⟩, hHeeds⟩
  · obtain rfl : o = .answered (.content data) := hGives
    exact .inl ⟨.found walk.passed (.content data), rfl, .inl ⟨_, a, data, rfl, rfl⟩⟩
  · obtain rfl : o = .failed f := hFails
    refine .inr ⟨_, rfl, hFrame.trans h.frame, hObjects.trans h.objects, h.manner.trans hManner,
      h.request, ⟨behind ++ [b], by rw [hOrder, List.append_assoc]; rfl, fun i hi hIs => ?_⟩, ?_⟩
    · rcases List.mem_append.mp hi with hOld | hNew
      · exact hBehind i hOld hIs
      · obtain rfl := List.mem_singleton.mp hNew
        exact hHeeds (h.manner.heedsAt hIs)
    · intro hNone
      simp [Walk.pass] at hNone

/-- A walk that fetches and has nobody left to ask. -/
theorem Fetching.exhausted (h : w.Fetching order r v walk []) (hSome : order ≠ []) :
    w.FetchEnds order r walk.exhausted := by
  obtain ⟨behind, hOrder, hBehind⟩ := h.behind
  rw [List.append_nil] at hOrder
  have hErrors : walk.errors.isEmpty = false := by
    rw [List.isEmpty_eq_false_iff]
    exact fun hNone => hSome (h.noted hNone).symm
  have hRequest := h.request
  refine .inr ⟨⟨walk.errors, ?_⟩, hOrder ▸ hBehind⟩
  unfold Walk.exhausted
  cases hSearch : walk.search with
  | fetch => simp [hErrors]
  | probe =>
    rw [Walk.request, hSearch] at hRequest
    contradiction
  | place data =>
    rw [Walk.request, hSearch] at hRequest
    contradiction

/-- A walk over backends that have all taken a write. -/
theorem fetches_goFrom (h : w.Fetching order r v walk ahead) (hAll : w.AllTell order r)
    (hWrite : r.isWrite = true) (hSome : order ≠ []) :
    w.Fetches order r (walk.goFrom v ahead) := by
  -- on the backends ahead, with the world after the calls of those behind
  induction ahead generalizing v walk with
  | nil => exact h.exhausted hSome
  | cons b rest ih =>
    unfold Walk.goFrom
    rw [h.request]
    cases hBegin : v.begin b (.get r.address) with
    | mk u begun =>
      rcases begun with o | ⟨delay, held⟩
      · have hCall : v.call b (.get r.address) = (u, o) := by rw [call, hBegin]
        simp only
        rcases h.weigh hAll hWrite hCall with ⟨e, hWeigh, hEnd⟩ | ⟨walk', hWeigh, hNext⟩
        · rw [hWeigh]
          exact hEnd
        · rw [hWeigh]
          exact ih hNext
      · exact ⟨b, rest, v, rfl, { h with }, hBegin⟩

/-- A fetch whose call is finished. -/
theorem fetches_resume {delay : Duration} {held : Held}
    (h : w.Fetches order r (u, .suspended walk delay held)) (hAll : w.AllTell order r)
    (hWrite : r.isWrite = true) (hSome : order ≠ []) :
    w.Fetches order r (walk.resume u held) := by
  obtain ⟨b, rest, v, hTodo, hFetching, hBegin⟩ := h
  have hCall : v.call b (.get r.address) = ((u.finish b held).1, (u.finish b held).2) := by
    rw [call, hBegin]
  unfold Walk.resume
  rw [hTodo]
  simp only
  rcases hFetching.weigh hAll hWrite hCall with ⟨e, hWeigh, hEnd⟩ | ⟨walk', hWeigh, hNext⟩
  · rw [hWeigh]
    exact hEnd
  · rw [hWeigh]
    exact fetches_goFrom hNext hAll hWrite hSome

end World

namespace Session

/-- How a fetch may end in a session whose mains have all taken a write: with its payload, without
one, or by its deadline. -/
def Tells (s : Session) (r : Request) (e : Ended) : Prop :=
  (∃ a data, r = .put a data ∧ e = .returned (.ok (.content data))) ∨
    ((∃ errors, e = .returned (.error (.allReadsFailed errors))) ∧
      ∀ i ∈ s.world.mains, s.world.HeedsAt i → ∀ a data, r ≠ .put a data) ∨
    s.timeout ≠ none ∧ ∃ after, e = .returned (.error (.timeout .get after))

/-- A fetch that is alone under way in a session whose mains have all taken a write. -/
structure Asking (s : Session) (r : Request) (t : Session) (walk : Walk) : Prop where
  given : s.tickets < t.tickets
  unended : t.ended? s.tickets = none
  finished : ∀ f ∈ t.fans, f.isFinished = true
  timeout : t.timeout = s.timeout
  walking : ∃ due delay held,
    t.running = [{ ticket := s.tickets, order := .request (.get r.address), deadline := s.deadline
                   activity := .walking walk due held }] ∧
    s.world.Fetches s.world.mains r (t.world, .suspended walk delay held)

/-- A fetch that has ended. -/
def Answers (s : Session) (r : Request) (t : Session) : Prop :=
  ∃ e, t.ended? s.tickets = some e ∧ s.Tells r e

/-- A session that is alone and ready to fetch what all of its mains have taken. -/
structure Ready (s : Session) (r : Request) : Prop where
  sound : s.Sound
  idle : s.running = []
  finished : ∀ f ∈ s.fans, f.isFinished = true
  claim : s.readOrder.claim.1 = s.world.mains
  write : r.isWrite = true
  mains : s.world.mains ≠ []
  tell : s.world.AllTell s.world.mains r
  entries : ∀ e ∈ s.watched.cache.entries, e.key = r.address.key → r = .put r.address e.data

variable {s t u x : Session} {r : Request} {m : Move} {walk : Walk} {state : World × WalkState}
  {moves : List Move} {e : Ended}

theorem Answers.isOver (h : Answers s r t) : t.ended? s.tickets ≠ none := by
  obtain ⟨e, hEnded, -⟩ := h
  simp [hEnded]

/-- A walk that was set going for a fetch and waits for a call. -/
theorem asking_of_suspended {v : World} {delay : Duration} {held : Held} (hGiven : s.tickets < x.tickets)
    (hOpen : x.ended? s.tickets = none) (hFinished : ∀ f ∈ x.fans, f.isFinished = true)
    (hTimeout : x.timeout = s.timeout) (hRunning : x.running.filter (·.ticket != s.tickets) = [])
    (hFetches : s.world.Fetches s.world.mains r (v, .suspended walk delay held)) :
    Asking s r (x.followWalk s.tickets (.get r.address) s.deadline (v, .suspended walk delay held))
      walk := by
  refine ⟨hGiven, hOpen, hFinished, hTimeout, x.now + delay, delay, held, ?_, hFetches⟩
  show x.running.filter (·.ticket != s.tickets) ++ [_] = _
  rw [hRunning]
  rfl

/-- A walk that was set going for a fetch and has ended. -/
theorem answers_of_over {v : World} {e : WalkEnd}
    (hFetches : s.world.Fetches s.world.mains r (v, .over e)) :
    Answers s r (x.followWalk s.tickets (.get r.address) s.deadline (v, .over e)) := by
  refine ⟨e.ended, ended?_endWalk .., ?_⟩
  rcases hFetches with ⟨passed, a, data, hPut, rfl⟩ | ⟨⟨errors, rfl⟩, hHeeds⟩
  · exact .inl ⟨a, data, hPut, rfl⟩
  · exact .inr (.inl ⟨⟨errors, rfl⟩, hHeeds⟩)

/-- A walk that was set going for a fetch waits, or the fetch has ended. -/
theorem asking_or_answers (hGiven : s.tickets < x.tickets) (hOpen : x.ended? s.tickets = none)
    (hFinished : ∀ f ∈ x.fans, f.isFinished = true) (hTimeout : x.timeout = s.timeout)
    (hRunning : x.running.filter (·.ticket != s.tickets) = [])
    (hFetches : s.world.Fetches s.world.mains r state) :
    (∃ walk, Asking s r (x.followWalk s.tickets (.get r.address) s.deadline state) walk) ∨
      Answers s r (x.followWalk s.tickets (.get r.address) s.deadline state) := by
  rcases state with ⟨v, e | ⟨walk, delay, held⟩⟩
  · exact .inr (answers_of_over hFetches)
  · exact .inl ⟨walk, asking_of_suspended hGiven hOpen hFinished hTimeout hRunning hFetches⟩

theorem Asking.tick (h : Asking s r t walk) (time : Duration) : Asking s r (t.tick time) walk := by
  obtain ⟨watched, now, hEq, -⟩ := tick_eq t time
  rw [hEq]
  exact ⟨h.given, h.unended, h.finished, h.timeout, h.walking⟩

/-- A fetch goes on, or it has ended. -/
theorem asking_of_move? (hs : s.Ready r) (h : ∃ walk, Asking s r t walk) (hFree : m.isFree = true)
    (hMove : t.move? m = some u) : (∃ walk, Asking s r u walk) ∨ Answers s r u := by
  obtain ⟨walk, h⟩ := h
  obtain ⟨due, delay, held, hRunning, hFetches⟩ := h.walking
  rcases move_of_alone hRunning h.finished hFree hMove with
    ⟨time, rfl⟩ | rfl | ⟨-, after, hTimeout, rfl⟩
  · exact .inl ⟨walk, h.tick time⟩
  · refine asking_or_answers h.given h.unended h.finished h.timeout ?_
      (World.fetches_resume hFetches hs.tell hs.write hs.mains)
    rw [hRunning]
    simp
  · refine .inr ⟨_, ended?_finish_self .., .inr (.inr ⟨?_, after, rfl⟩)⟩
    rw [← h.timeout, hTimeout]
    exact Option.some_ne_none after

/-- A fetch that a session is asked for that is ready. -/
theorem asking_submit (hs : s.Ready r) :
    (∃ walk, Asking s r (s.submit (.request (.get r.address))) walk) ∨
      Answers s r (s.submit (.request (.get r.address))) := by
  have hOpen : s.ended? s.tickets = none := ended?_of_sound hs.sound (Nat.le_refl _)
  rw [submit_get]
  split
  · rename_i data hFound
    obtain ⟨e, he, hKey, rfl⟩ := Cache.mem_of_lookup hFound
    exact .inr ⟨_, ended?_finish_self .., .inl ⟨_, _, hs.entries e he hKey, rfl⟩⟩
  · split
    · rename_i hEmpty
      -- there is a main
      obtain ⟨b, hb⟩ := List.exists_mem_of_ne_nil _ hs.mains
      have hLt := List.mem_range.mp (List.mem_filter.mp hb).1
      rw [List.isEmpty_iff.mp hEmpty] at hLt
      contradiction
    · rw [hs.claim]
      refine asking_or_answers (Nat.lt_succ_self _) hOpen hs.finished rfl ?_ ?_
      · show s.running.filter _ = []
        rw [hs.idle]
        rfl
      · refine World.fetches_goFrom ⟨rfl, rfl, .refl _, rfl, ⟨[], rfl, ?_⟩, fun _ => rfl⟩ hs.tell hs.write
          hs.mains
        intro i hi
        contradiction

/-- How a fetch has ended that returns. -/
theorem tells_of_returns (hs : s.Ready r) (hFree : ∀ m ∈ moves, m.isFree = true)
    (hReturns : s.Returns s.tickets (.submit (.request (.get r.address)) :: moves) t e) :
    s.Tells r e := by
  obtain ⟨u, hMove, hRest⟩ := hReturns.of_cons
  cases hMove
  have hAnswers : Answers s r t := by
    refine returns_induction hRest hFree (asking_submit hs) ?_ Answers.isOver (asking_of_move? hs)
    rintro a ⟨walk, h⟩
    exact h.unended
  obtain ⟨e', hEnded, hTells⟩ := hAnswers
  rw [hReturns.ended, Option.some.injEq] at hEnded
  rwa [hEnded]

/-- A fetch that has not returned yet returns after some moves. -/
theorem exists_returns_of_pending_fetch (hs : s.Ready r) (hFree : ∀ m ∈ moves, m.isFree = true)
    (hPending : (s.submit (.request (.get r.address))).Pending s.tickets moves t) :
    ∃ rest u e, (∀ m ∈ rest, m.isFree = true) ∧ t.Returns s.tickets rest u e := by
  obtain ⟨walk, hAsking⟩ := pending_induction hPending hFree (asking_submit hs) Answers.isOver
    (asking_of_move? hs)
  obtain ⟨due, delay, held, hRunning, b, others, v, hTodo, -⟩ := hAsking.walking
  obtain ⟨rest, u, e, hOwn, hReturns⟩ :=
    exists_returns_of_walking (running?_self hRunning) hAsking.unended hTodo
  exact ⟨rest, u, e, fun m hm => (hOwn m hm).isFree, hReturns⟩

end Session

end ReplicatedStore

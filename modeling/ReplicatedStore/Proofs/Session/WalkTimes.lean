import ReplicatedStore.Proofs.Backend.Spans
import ReplicatedStore.Proofs.Session.Awaiting
import ReplicatedStore.Proofs.Session.Trying

/-!
# How long walks take

A walk calls one backend at a time, and nothing else is called as long as it is alone. So how long it
takes and where it ends is settled when it starts: it takes as long as the calls take one after the
other, up to the first that decides. Until then no object has changed, so if the walk is given up
before, nothing has happened.

Main results:

* `Walk.paces_goFrom`, `Walk.paces_resume` — what becomes of a walk that goes on.
* `Session.pace_searching` — a request with a walk is done at a time that is known from the start.
-/

namespace ReplicatedStore

/-- How long is left of a search when the call of a backend is over. -/
def World.spanAfter (w : World) (r : Request) (position : Nat) (rest : List Nat) : Duration :=
  if (w.call position r).2.decides then .zero else w.searchSpan r rest

namespace Walk

/-- A walk that waits for the first of the backends ahead, whose call has begun as it would begin in a
world. The other backends are as they are there, and so are all objects. -/
structure Awaits (w : World) (r : Request) (i : Nat) (rest : List Nat) (delay : Duration) (held : Held)
    (walk : Walk) (v : World) : Prop where
  request : walk.request = r
  todo : walk.todo = i :: rest
  nodup : (i :: rest).Nodup
  begun : (w.begin i r).2 = .waiting delay held
  first : v.backends[i]? = (w.begin i r).1.backends[i]?
  others : ∀ k ∈ rest, v.backends[k]? = w.backends[k]?
  quiet : v.objectAt? = w.objectAt?

/-- What becomes of a walk that has so much time and so many backends ahead. -/
inductive Paces (w : World) (r : Request) (left : Duration) (n : Nat) : World × WalkState → Prop
  | ended {v : World} {e : WalkEnd} (hOver : left = .zero) : Paces w r left n (v, .over e)
  | suspended {v : World} {walk : Walk} {i : Nat} {rest : List Nat} {delay : Duration} {held : Held}
      (hAwaits : Awaits w r i rest delay held walk v) (hFewer : rest.length < n)
      (hLeft : left = delay + w.spanAfter r i rest) : Paces w r left n (v, .suspended walk delay held)

variable {u v w : World} {r : Request} {walk : Walk} {i : Nat} {rest : List Nat} {left delay : Duration}
  {held : Held} {o : Outcome} {state : World × WalkState}

theorem Paces.mono {n k : Nat} (h : Paces w r left n state) (hMore : n ≤ k) : Paces w r left k state := by
  cases h with
  | ended hOver => exact .ended hOver
  | suspended hAwaits hFewer hLeft => exact .suspended hAwaits (Nat.lt_of_lt_of_le hFewer hMore) hLeft

/-- A walk ends with an outcome that decides, and goes on after any other. -/
theorem weigh_cases (walk : Walk) (name : String) (o : Outcome) :
    (o.decides = true ∧ ∃ e, walk.weigh name o = .inl e) ∨
      o.decides = false ∧ ∃ next, walk.weigh name o = .inr next ∧ next.request = walk.request := by
  cases o with
  | failed f => exact .inr ⟨rfl, _, rfl, rfl⟩
  | crashed reason => exact .inl ⟨rfl, _, rfl⟩
  | answered x =>
    cases x with
    | done => exact .inl ⟨rfl, _, rfl⟩
    | content data => exact .inl ⟨rfl, _, rfl⟩
    | presence holds =>
      cases holds with
      | true => exact .inl ⟨rfl, _, rfl⟩
      | false => exact .inr ⟨rfl, _, rfl, rfl⟩

/-- What becomes of a walk when a call has come to its outcome. -/
theorem paces_weigh (name : String) (hOutcome : (w.call i r).2 = o) (hRequest : walk.request = r)
    (hRest : o.decides = false → ∀ next : Walk, next.request = r →
      Paces w r (w.searchSpan r rest) rest.length (next.goFrom u rest)) :
    Paces w r (w.spanAfter r i rest) rest.length
      (match walk.weigh name o with
        | .inl e => (u, .over e)
        | .inr next => next.goFrom u rest) := by
  unfold World.spanAfter
  rw [hOutcome]
  rcases walk.weigh_cases name o with ⟨hDecides, e, hWeigh⟩ | ⟨hDecides, next, hWeigh, hSame⟩
  · rw [hWeigh, hDecides]
    exact .ended rfl
  · rw [hWeigh, hDecides]
    exact hRest hDecides next (hSame.trans hRequest)

/-- What becomes of a walk that goes on over backends none of which was called yet. -/
theorem paces_goFrom (hw : w.IsScripted) {ahead : List Nat} (hNodup : ahead.Nodup)
    (hRequest : walk.request = r) (hSame : ∀ k ∈ ahead, v.backends[k]? = w.backends[k]?)
    (hQuiet : v.objectAt? = w.objectAt?) :
    Paces w r (w.searchSpan r ahead) ahead.length (walk.goFrom v ahead) := by
  -- on the backends ahead: a call that is over at once takes no time, and one that waits suspends the walk
  induction ahead generalizing v walk with
  | nil => exact .ended rfl
  | cons i rest ih =>
    obtain ⟨hFirst, hRest⟩ := List.forall_mem_cons.mp hSame
    obtain ⟨hBegun, hOwn⟩ := World.begin_congr hw hFirst r
    obtain ⟨hNew, hOthers⟩ := List.nodup_cons.mp hNodup
    have hApart (k : Nat) (hk : k ∈ rest) :=
      World.getElem?_begin_of_ne v (Ne.symm (ne_of_mem_of_not_mem hk hNew)) r
    unfold goFrom
    rw [hRequest]
    cases hBegin : v.begin i r with
    | mk u begun =>
      rw [hBegin] at hBegun hOwn hApart
      rcases begun with o | ⟨delay, held⟩
      · have hCall := World.call_of_over hBegun.symm
        have hLeft : w.searchSpan r (i :: rest) = w.spanAfter r i rest := by
          show w.span r i + w.spanAfter r i rest = _
          rw [World.span_of_over hBegun.symm]
          exact Duration.ext (Nat.zero_add _)
        rw [hLeft]
        refine (paces_weigh _ (by rw [hCall]) hRequest fun hDecides next hNext => ?_).mono
          (Nat.le_succ _)
        refine ih hOthers hNext (fun k hk => (hApart k hk).trans (hRest k hk)) ?_
        have hFaithful := hw.isFaithful hFirst
        exact ((World.follows_begin hBegin).quiet_of_not_decides hFaithful hDecides).trans hQuiet
      · refine .suspended ⟨hRequest, rfl, hNodup, hBegun.symm, hOwn, fun k hk => ?_, ?_⟩
          (Nat.lt_succ_self _) ?_
        · exact (hApart k hk).trans (hRest k hk)
        · exact (World.pauses_begin hBegin).quiet.trans hQuiet
        · show w.span r i + w.spanAfter r i rest = _
          rw [World.span_of_waiting hBegun.symm]

/-- What becomes of a walk when the call is finished that it waits for. -/
theorem paces_resume (hw : w.IsScripted) (h : Awaits w r i rest delay held walk v) :
    Paces w r (w.spanAfter r i rest) rest.length (walk.resume v held) := by
  have hScripted : (w.begin i r).1.IsScripted := hw.of_frame_eq (World.frame_begin ..)
  have hOutcome : (w.call i r).2 = (v.finish i held).2 := by
    rw [World.call_of_waiting h.begun, (World.finish_congr hScripted h.first held).1]
  obtain ⟨hNew, hNodup⟩ := List.nodup_cons.mp h.nodup
  have hOthers (k : Nat) (hk : k ∈ rest) : (v.finish i held).1.backends[k]? = w.backends[k]? := by
    rw [World.getElem?_finish_of_ne v (Ne.symm (ne_of_mem_of_not_mem hk hNew)), h.others k hk]
  have hQuiet (hDecides : (v.finish i held).2.decides = false) :
      (v.finish i held).1.objectAt? = w.objectAt? := by
    obtain ⟨b, hb, hHolds⟩ := (World.pauses_begin (Prod.ext rfl h.begun)).keeps
    have hKeeps : v.Keeps i r held := ⟨b, h.first.trans hb, hHolds⟩
    have hFaithful := hScripted.isFaithful h.first
    exact ((World.follows_finish hKeeps).quiet_of_not_decides hFaithful hDecides).trans h.quiet
  unfold resume
  rw [h.todo]
  simp only
  cases hFinish : v.finish i held with
  | mk u o =>
    rw [hFinish] at hOutcome hOthers hQuiet
    refine paces_weigh _ hOutcome h.request fun hDecides next hNext => ?_
    exact paces_goFrom hw hNodup hNext hOthers (hQuiet hDecides)

end Walk

namespace Session

/-- A request whose walk waits for a backend and is done at a time, with so many backends after that. -/
structure Searching (s : Session) (r : Request) (done : Duration) (walk : Walk) (due : Duration)
    (held : Held) (n : Nat) (u : Session) : Prop where
  alone : Alone s r (.walking walk due held) u
  fans : u.fans = s.fans
  inTime : u.now ≤ due
  awaits : ∃ delay i rest, walk.Awaits s.world r i rest delay held u.world ∧ rest.length = n ∧
    done = due + s.world.spanAfter r i rest

variable {s u v : Session} {r : Request} {left done due : Duration} {state : World × WalkState}
  {walk : Walk} {held : Held} {n : Nat}

/-- A request whose walk goes on waits again, or it is done. -/
theorem searching_followWalk (hStands : StandsBy s u) (hFans : u.fans = s.fans)
    (hPaces : Walk.Paces s.world r left n state) :
    (∃ k < n, ∃ walk due held,
      Searching s r (u.now + left) walk due held k (u.followWalk s.tickets r s.deadline state)) ∨
    (u.followWalk s.tickets r s.deadline state).ended? s.tickets ≠ none ∧ left = .zero := by
  cases hPaces with
  | ended hOver =>
    refine .inr ⟨?_, hOver⟩
    show (endWalk _ _ _ _).ended? s.tickets ≠ none
    rw [ended?_endWalk]
    exact Option.some_ne_none _
  | @suspended world walk i rest delay held hAwaits hFewer hLeft =>
    have hStill : StandsBy s { u with world } := { hStands with }
    refine .inl ⟨rest.length, hFewer, walk, u.now + delay, held, hStill.suspend r _, hFans,
      Nat.le_add_right .., delay, i, rest, hAwaits, rfl, ?_⟩
    rw [hLeft]
    exact Duration.ext (Nat.add_assoc ..).symm

namespace Searching

theorem le_done (h : Searching s r done walk due held n u) : due ≤ done := by
  obtain ⟨delay, i, rest, -, -, rfl⟩ := h.awaits
  exact Nat.le_add_right ..

/-- The call that the walk waits for is due. -/
theorem mem_events (h : Searching s r done walk due held n u) :
    ⟨due, 1, due, .resume s.tickets⟩ ∈ u.untimed.events := by
  refine mem_events_of_order (List.mem_map_of_mem h.alone.mem_running) ?_
  have hTime : u.untimed.atLeastNow due = due := atLeastNow_of_le h.inTime
  show _ ∈ [(⟨u.untimed.atLeastNow due, 1, due, .resume s.tickets⟩ : Scheduled)]
  rw [hTime]
  exact List.mem_singleton_self _

theorem work (h : Searching s r done walk due held n u) : n < u.work := by
  obtain ⟨delay, i, rest, hAwaits, rfl, -⟩ := h.awaits
  simp only [Session.work, h.alone.running, List.foldr_cons, List.foldr_nil, orderWork, hAwaits.todo,
    List.length_cons]
  omega

theorem tick {time : Duration} (h : Searching s r done walk due held n u)
    (hDue : ∀ x ∈ u.events, time ≤ x.time) : Searching s r done walk due held n (u.tick time) := by
  have hInTime := now_tick_le h.inTime (hDue _ (mem_events_of_untimed h.mem_events))
  have hAlone := h.alone.tick hDue
  obtain ⟨watched, now, hEq, -⟩ := tick_eq u time
  rw [hEq] at hInTime hAlone ⊢
  exact ⟨hAlone, h.fans, hInTime, h.awaits⟩

/-- The walk goes on or is over when its call is finished, and not before that is due. -/
theorem resume (h : Searching s r done walk due held n u) (hw : s.world.IsScripted) {ticket : Nat}
    (hStep : u.step? (.resume ticket) = some v) :
    (∃ k < n, ∃ walk due held, Searching s r done walk due held k v) ∨
      v.ended? s.tickets ≠ none ∧ v.now = done ∧ ∀ d, s.deadline = some d → done ≤ d := by
  obtain ⟨p, request, walk', due', held', hp, hOrder, hActivity, hPast, rfl⟩ := resume?_eq_some hStep
  obtain ⟨rfl, rfl⟩ := h.alone.of_running? hp
  cases hOrder
  cases hActivity
  have hNow : u.now = due := Duration.ext (Nat.le_antisymm h.inTime hPast)
  obtain ⟨delay, i, rest, hAwaits, rfl, rfl⟩ := h.awaits
  have hNext := searching_followWalk h.alone.toStandsBy h.fans (Walk.paces_resume hw hAwaits)
  rw [hNow] at hNext
  rcases hNext with hNext | ⟨hEnded, hLeft⟩
  · exact .inl hNext
  · have hDone : due + s.world.spanAfter r i rest = due := by
      rw [hLeft]
      rfl
    refine .inr ⟨hEnded, ?_, fun d hd => ?_⟩
    · rw [hDone, now_followWalk, hNow]
    · rw [hDone, ← hNow]
      exact h.alone.onTime d hd

end Searching

/-- A request with a walk is done when its walk is over, or it is given up before and has left no mark. -/
theorem pace_searching (hw : s.world.IsScripted) (hFinished : ∀ f ∈ s.fans, f.isFinished = true) :
    Pace s.tickets done s.deadline (fun n u => ∃ walk due held, Searching s r done walk due held n u)
      (fun v => Abandoned s r v ∧ v.fans = s.fans ∧ v.world.objectAt? = s.world.objectAt?) where
  unended := fun ⟨_, _, _, h⟩ => h.alone.unended
  deadlines := fun ⟨_, _, _, h⟩ => h.alone.deadlines
  ahead := fun ⟨_, _, _, h⟩ => h.work
  due := fun ⟨_, _, _, h⟩ => ⟨_, h.mem_events, h.le_done⟩
  enabled := by
    rintro n u ⟨walk, due, held, h⟩
    refine h.alone.enabled fun x hx => ?_
    obtain rfl : x = ⟨u.atLeastNow due, 1, due, .resume s.tickets⟩ := List.mem_singleton.mp hx
    simp only [atLeastNow_of_le h.inTime]
    exact ⟨_, resume_tick h.alone.running?_eq⟩
  tick := by
    rintro n u time ⟨walk, due, held, h⟩ hDue
    exact ⟨walk, due, held, h.tick hDue⟩
  event := by
    rintro n u v x ⟨walk, due, held, h⟩ hStep
    have hOver : ∀ f ∈ u.fans, f.isFinished = true := h.fans ▸ hFinished
    have hMove : u.move? (.event x) = some v := hStep
    cases x with
    | resume ticket => exact .inl ⟨rfl, h.resume hw hStep⟩
    | expire ticket =>
      obtain ⟨hDeadline, hNow, hWorld, hFans, hAbandoned⟩ := h.alone.gives_up hStep hOver
      obtain ⟨after, -, hEnded⟩ := hAbandoned.ended
      obtain ⟨delay, i, rest, hAwaits, -, -⟩ := h.awaits
      refine .inr ⟨by simp [hEnded], u.now, hDeadline, Nat.le_trans h.inTime h.le_done, hNow,
        hAbandoned, hFans.trans h.fans, ?_⟩
      rw [hWorld, hAwaits.quiet]
    | start fan branch => exact absurd (.start branch) (not_concernsFan_of_forall hOver hMove fan)
    | complete fan branch => exact absurd (.complete branch) (not_concernsFan_of_forall hOver hMove fan)
    | join ticket =>
      obtain ⟨p, hp, ⟨request, fan, f, -, hActivity, -⟩ | ⟨fans, hActivity, -⟩⟩ := join?_eq_some hStep
      · obtain ⟨-, rfl⟩ := h.alone.of_running? hp
        cases hActivity
      · obtain ⟨-, rfl⟩ := h.alone.of_running? hp
        cases hActivity

end Session

end ReplicatedStore

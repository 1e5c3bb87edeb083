import ReplicatedStore.Proofs.Session.Joining
import ReplicatedStore.Proofs.Session.Trail

/-!
# Calls under way

A call that waits to be finished holds on to something until then: a request, a number, octets that
were encoded for it. Whatever happens in a session, what each call holds on to belongs to its request,
be it the call of a branch or the one that a walk waits for. So the end of a call is told by its request
and by nothing else that was asked for.

Main results:

* `Session.mindful_of_move?` — every move keeps this.
* `Session.mindful_of_reachable` — it holds of every session that can come about.
-/

namespace ReplicatedStore

/-- Whether the running branches of a fan-out hold on to what belongs to its request. -/
def FanOut.Minds (f : FanOut) (w : World) : Prop :=
  ∀ b ∈ f.branches, ∀ due held, b.state = .running due held → w.Keeps b.backend f.request held

/-- Whether a walk waits for a call of a request at the first backend ahead. -/
def Walk.Minds (walk : Walk) (w : World) (r : Request) (held : Held) : Prop :=
  walk.request = r ∧ ∃ b rest, walk.todo = b :: rest ∧ w.Keeps b r held

/-- Whether an order that walks waits for a call of what was asked for. -/
def Running.Minds (p : Running) (w : World) : Prop :=
  ∀ r walk due held, p.order = .request r → p.activity = .walking walk due held →
    walk.Minds w r held

theorem FanOut.Minds.of_frame_eq {f : FanOut} {v w : World} (h : f.Minds w)
    (hFrame : v.frame = w.frame) : f.Minds v :=
  fun b hb due held hRunning => (h b hb due held hRunning).of_frame_eq hFrame

theorem Running.Minds.of_frame_eq {p : Running} {v w : World} (h : p.Minds w)
    (hFrame : v.frame = w.frame) : p.Minds v := by
  intro r walk due held hOrder hActivity
  obtain ⟨hRequest, b, rest, hTodo, hKeeps⟩ := h r walk due held hOrder hActivity
  exact ⟨hRequest, b, rest, hTodo, hKeeps.of_frame_eq hFrame⟩

theorem FanOut.minds_ofBackends (w : World) (r : Request) (backends : List Nat) (detached : Bool) :
    (ofBackends r backends detached).Minds w := by
  intro b hb due held hRunning
  obtain ⟨backend, -, rfl⟩ := List.mem_map.mp hb
  contradiction

theorem FanOut.Minds.cancel {f : FanOut} {w : World} (h : f.Minds w) : f.cancel.Minds w := by
  intro b hb due held hRunning
  obtain ⟨before, hBefore, rfl⟩ := List.mem_map.mp hb
  split at hRunning
  · rename_i hOver
    rw [if_pos hOver]
    exact h before hBefore due held hRunning
  · contradiction

/-- A branch comes into another state, in which it holds on to what belongs to its request. -/
theorem FanOut.Minds.setState {f : FanOut} {w : World} (h : f.Minds w) {branch : Nat} {b : Branch}
    (hb : f.branches[branch]? = some b) {state : BranchState}
    (hState : ∀ due held, state = .running due held → w.Keeps b.backend f.request held) :
    (f.setState branch state).Minds w := by
  intro c hc due held hRunning
  obtain ⟨j, hj⟩ := List.getElem?_of_mem hc
  rcases setState_cases hb hj with ⟨-, rfl⟩ | ⟨-, hSame⟩
  · exact hState due held hRunning
  · exact h c (List.mem_of_getElem? hSame) due held hRunning

/-! ## Walks -/

namespace Walk

theorem minds_goFrom {w v : World} {walk walk' : Walk} {ahead : List Nat} {delay : Duration}
    {held : Held} (h : walk.goFrom w ahead = (v, .suspended walk' delay held)) :
    walk'.Minds v walk.request held := by
  induction ahead generalizing w walk with
  | nil => cases h
  | cons b rest ih =>
    unfold goFrom at h
    split at h
    · rename_i hBegin
      cases h
      exact ⟨rfl, b, rest, rfl, (World.pauses_begin hBegin).keeps⟩
    · rename_i o hBegin
      split at h
      · cases h
      · rename_i next hWeigh
        rw [← request_of_weigh hWeigh]
        exact ih h

theorem minds_resume {w v : World} {walk walk' : Walk} {held held' : Held} {delay : Duration}
    (h : walk.resume w held = (v, .suspended walk' delay held')) :
    walk'.Minds v walk.request held' := by
  unfold resume at h
  split at h
  · cases h
  · simp only at h
    split at h
    · cases h
    · rename_i next hWeigh
      rw [← request_of_weigh hWeigh]
      exact minds_goFrom h

end Walk

namespace Session

/-- Whether every call under way holds on to what belongs to its request. -/
structure Mindful (s : Session) : Prop where
  fans : ∀ f ∈ s.fans, f.Minds s.world
  running : ∀ p ∈ s.running, p.Minds s.world

variable {s t : Session} {ticket : Nat} {m : Move}

namespace Mindful

/-- What is new in a session minds its own. -/
theorem grow (h : s.Mindful) (hFrame : t.world.frame = s.world.frame)
    (hFans : ∀ f ∈ t.fans, f ∈ s.fans ∨ f.Minds t.world)
    (hRunning : ∀ p ∈ t.running, p ∈ s.running ∨ p.Minds t.world) : t.Mindful := by
  constructor
  · intro f hf
    rcases hFans f hf with hOld | hNew
    · exact (h.fans f hOld).of_frame_eq hFrame
    · exact hNew
  · intro p hp
    rcases hRunning p hp with hOld | hNew
    · exact (h.running p hOld).of_frame_eq hFrame
    · exact hNew

theorem world (h : s.Mindful) {world : World} (hFrame : world.frame = s.world.frame) :
    { s with world }.Mindful := h.grow hFrame (fun _ hf => .inl hf) fun _ hp => .inl hp

theorem watched (h : s.Mindful) (watched : WatchedCache) : { s with watched }.Mindful :=
  ⟨h.fans, h.running⟩

theorem finish (h : s.Mindful) (ticket : Nat) (e : Ended) : (s.finish ticket e).Mindful :=
  h.grow rfl (fun _ hf => .inl hf) fun _ hp => .inl (List.mem_filter.mp hp).1

theorem suspend (h : s.Mindful) {p : Running} (hp : p.Minds s.world) : (s.suspend p).Mindful := by
  refine h.grow rfl (fun _ hf => .inl hf) fun q hq => ?_
  rcases List.mem_append.mp hq with hOld | hNew
  · exact .inl (List.mem_filter.mp hOld).1
  · rw [List.mem_singleton.mp hNew]
    exact .inr hp

theorem settle (h : s.Mindful) (a : Address) (result : Except StoreError Answer) :
    (s.settle a result).Mindful := by
  unfold Session.settle
  split
  · exact h.watched _
  · split
    · exact h.watched _
    · exact h

theorem fanOut (h : s.Mindful) (r : Request) (backends : List Nat) (detached : Bool) :
    (s.fanOut (.ofBackends r backends detached)).Mindful := by
  refine h.grow rfl (fun f hf => ?_) fun _ hp => .inl hp
  rcases List.mem_append.mp hf with hOld | hNew
  · exact .inl hOld
  · rw [List.mem_singleton.mp hNew]
    exact .inr (FanOut.minds_ofBackends s.world r backends detached)

theorem replicate (h : s.Mindful) (r : Request) (backends : List Nat) :
    (s.replicate r backends).Mindful := by
  unfold Session.replicate
  split
  · exact h
  · have hStarted := h.fanOut r backends true
    exact ⟨hStarted.fans, hStarted.running⟩

/-- What is not walking minds nothing. -/
theorem suspend_of_ne (h : s.Mindful) {p : Running}
    (hp : ∀ walk due held, p.activity ≠ .walking walk due held) : (s.suspend p).Mindful :=
  h.suspend fun _ walk due held _ hActivity => absurd hActivity (hp walk due held)

theorem endWalk (h : s.Mindful) (ticket : Nat) (r : Request) (e : WalkEnd) :
    (s.endWalk ticket r e).Mindful := by
  unfold Session.endWalk
  split
  · exact h.finish ticket _
  · cases r with
    | put a data => exact (h.settle a _).finish ticket _
    | get a => exact h.finish ticket _
    | remove a => exact h.finish ticket _
    | holds a => exact h.finish ticket _
  · split
    · exact (h.watched _).finish ticket _
    · exact ((h.replicate _ _).settle _ _).finish ticket _
    · exact h.finish ticket _

theorem followWalk (h : s.Mindful) (ticket : Nat) (r : Request) (deadline : Option Duration)
    {state : World × WalkState} (hFrame : state.1.frame = s.world.frame)
    (hState : ∀ v walk delay held, state = (v, .suspended walk delay held) → walk.Minds v r held) :
    (s.followWalk ticket r deadline state).Mindful := by
  rcases state with ⟨v, e | ⟨walk, delay, held⟩⟩
  · exact (h.world hFrame).endWalk ticket r e
  · refine (h.world hFrame).suspend ?_
    intro r' walk' due' held' hOrder hActivity
    cases hOrder
    cases hActivity
    exact hState v walk delay held rfl

theorem startWalk (h : s.Mindful) (ticket : Nat) {r : Request} {walk : Walk}
    (hRequest : walk.request = r) : (s.startWalk ticket r walk).Mindful := by
  refine h.followWalk ticket r s.deadline (frame_goFrom ..) ?_
  intro v walk' delay held hState
  rw [← hRequest]
  exact Walk.minds_goFrom hState

theorem startFan (h : s.Mindful) (ticket : Nat) (r : Request) : (s.startFan ticket r).Mindful := by
  refine (h.fanOut r s.world.mains false).suspend_of_ne ?_
  intro walk due held hActivity
  contradiction

theorem startRequest (h : s.Mindful) (ticket : Nat) (r : Request) :
    (s.startRequest ticket r).Mindful := by
  have hLooked (a : Address) : (s.lookup a).2.Mindful := h.watched _
  -- one case for each request, with the turns that its start takes
  cases r with
  | get a =>
    have hNext := hLooked a
    unfold Session.startRequest
    simp only
    split
    · rename_i hFound
      rw [hFound] at hNext
      exact hNext.finish ticket _
    · rename_i u hFound
      rw [hFound] at hNext
      split
      · exact hNext.finish ticket _
      · exact (show Mindful { u with readOrder := u.readOrder.claim.2 } from
          ⟨hNext.fans, hNext.running⟩).startWalk ticket rfl
  | holds a =>
    have hNext := hLooked a
    unfold Session.startRequest
    simp only
    split
    · rename_i hFound
      rw [hFound] at hNext
      exact hNext.finish ticket _
    · rename_i hFound
      rw [hFound] at hNext
      split
      · exact hNext.finish ticket _
      · exact hNext.startWalk ticket rfl
  | put a data =>
    unfold Session.startRequest
    simp only
    split
    · exact h.finish ticket _
    · split
      · exact h.startFan ticket _
      · exact h.startWalk ticket rfl
  | remove a =>
    unfold Session.startRequest
    simp only
    split
    · exact h.finish ticket _
    · exact h.startFan ticket _

theorem endDrain (h : s.Mindful) (ticket : Nat) (order : Order) :
    (s.endDrain ticket order).Mindful := by
  cases order with
  | shutdown =>
    exact (h.watched s.watched.stop).finish ticket _
  | request r => exact h.finish ticket _
  | wait => exact h.finish ticket _

theorem startDrain (h : s.Mindful) (ticket : Nat) (order : Order) :
    (s.startDrain ticket order).Mindful := by
  have hForgotten : { s with launched := [] }.Mindful := ⟨h.fans, h.running⟩
  unfold Session.startDrain
  simp only
  split
  · exact hForgotten.endDrain ticket order
  · refine hForgotten.suspend_of_ne ?_
    intro walk due held hActivity
    contradiction

theorem submit (h : s.Mindful) (order : Order) : (s.submit order).Mindful := by
  have hTaken : { s with tickets := s.tickets + 1 }.Mindful := ⟨h.fans, h.running⟩
  cases order with
  | request r => exact hTaken.startRequest s.tickets r
  | wait => exact hTaken.startDrain s.tickets .wait
  | shutdown => exact hTaken.startDrain s.tickets .shutdown

theorem submitStream (h : s.Mindful) (a : Address) (input : Stream) (failure : String → Link) :
    (s.submitStream a input failure).Mindful := by
  have hTaken : { s with tickets := s.tickets + 1 }.Mindful := ⟨h.fans, h.running⟩
  unfold Session.submitStream
  simp only
  split
  · exact hTaken.finish s.tickets _
  · split
    · exact hTaken.finish s.tickets _
    · exact h.submit _

/-- A fan-out changes, and the world with it. -/
theorem modifyFan (h : s.Mindful) {world : World} (hFrame : world.frame = s.world.frame) {fan : Nat}
    {f : FanOut} (hf : s.fans[fan]? = some f) {change : FanOut → FanOut}
    (hChange : (change f).Minds world) : ({ s with world }.modifyFan fan change).Mindful := by
  refine h.grow hFrame (fun g hg => ?_) fun _ hp => .inl hp
  obtain ⟨i, hi⟩ := List.getElem?_of_mem hg
  by_cases hEq : fan = i
  · subst hEq
    have hChanged := getElem?_modifyFan_self (s := { s with world }) hf change
    rw [hChanged, Option.some.injEq] at hi
    rw [← hi]
    exact .inr hChange
  · have hSame : (s.fans.modify fan change)[i]? = s.fans[i]? := List.getElem?_modify_ne _ _ hEq
    exact .inl (List.mem_of_getElem? (hSame.symm.trans hi))

theorem giveUp (h : s.Mindful) (activity : Activity) : (s.giveUp activity).Mindful := by
  cases activity with
  | walking walk due held => exact h
  | draining fans => exact h
  | joining fan =>
    cases hf : s.fans[fan]? with
    | none =>
      have hSame : s.fans.modify fan (·.cancel) = s.fans := by
        apply List.ext_getElem?
        intro i
        by_cases hEq : fan = i
        · rw [← hEq, List.getElem?_modify_eq, hf]
          rfl
        · exact List.getElem?_modify_ne _ _ hEq
      refine ⟨?_, h.running⟩
      show ∀ f ∈ s.fans.modify fan (·.cancel), f.Minds s.world
      rw [hSame]
      exact h.fans
    | some f => exact h.modifyFan rfl hf (h.fans f (List.mem_of_getElem? hf)).cancel

end Mindful

theorem mindful_of_move? (h : s.Mindful) (hMove : s.move? m = some t) : t.Mindful := by
  cases m with
  | submit order =>
    cases hMove
    exact h.submit order
  | submitStream a input failure =>
    cases hMove
    exact h.submitStream a input failure
  | tick time =>
    cases hMove
    unfold tick
    split
    · exact h
    · exact ⟨h.fans, h.running⟩
  | cache order =>
    cases hMove
    exact ⟨h.fans, h.running⟩
  | fill key data =>
    cases hMove
    exact ⟨h.fans, h.running⟩
  | event e =>
    cases e with
    | resume ticket =>
      obtain ⟨p, r, walk, due, held, hp, hOrder, hActivity, -, rfl⟩ := resume?_eq_some hMove
      obtain ⟨hRequest, -⟩ := h.running p (mem_of_running? hp).1 r walk due held hOrder hActivity
      refine h.followWalk ticket r p.deadline (frame_resume ..) ?_
      intro v walk' delay held' hState
      rw [← hRequest]
      exact Walk.minds_resume hState
    | expire ticket =>
      obtain ⟨p, deadline, request, after, -, -, -, -, rfl⟩ := expire?_eq_some hMove
      exact (h.giveUp p.activity).finish ticket _
    | join ticket =>
      obtain ⟨p, -, ⟨request, fan, f, -, -, -, -, rfl⟩ | ⟨fans, -, -, rfl⟩⟩ := join?_eq_some hMove
      · exact (h.settle _ _).finish ticket _
      · exact h.endDrain ticket p.order
    | start fan branch =>
      obtain ⟨f, b, hf, hb, -, hCall⟩ := start?_eq_some hMove
      have hMinds := h.fans f (List.mem_of_getElem? hf)
      rcases hCall with ⟨world, delay, held, hBegin, rfl⟩ | ⟨world, o, hBegin, rfl⟩
      · have hPauses := World.pauses_begin hBegin
        refine h.modifyFan hPauses.frame hf ((hMinds.of_frame_eq hPauses.frame).setState hb ?_)
        intro due held' hEq
        cases hEq
        exact hPauses.keeps
      · have hFollows := World.follows_begin hBegin
        refine h.modifyFan hFollows.frame hf ?_
        exact (hMinds.of_frame_eq hFollows.frame).setState hb fun due held hEq => nomatch hEq
    | complete fan branch =>
      obtain ⟨f, b, due, held, hf, hb, -, -, rfl⟩ := complete?_eq_some hMove
      have hFrame := World.frame_finish s.world b.backend held
      refine h.modifyFan hFrame hf ?_
      exact ((h.fans f (List.mem_of_getElem? hf)).of_frame_eq hFrame).setState hb
        fun due held hEq => nomatch hEq

theorem mindful_of_run? {moves : List Move} (h : s.Mindful) (hRun : s.run? moves = some t) :
    t.Mindful := run?_induction hRun h fun hMindful hNext => mindful_of_move? hMindful hNext

theorem mindful_of_reachable (h : s.Reachable) : s.Mindful := by
  obtain ⟨world, replication, strategy, timeout, picks, moves, hRun⟩ := h
  refine mindful_of_run? ⟨?_, ?_⟩ hRun
  · intro f hf
    simp [ofWorld] at hf
  · intro p hp
    simp [ofWorld] at hp

end Session

end ReplicatedStore

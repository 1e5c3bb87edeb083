import ReplicatedStore.Proofs.Backend.Rekeyed
import ReplicatedStore.Proofs.Session.Moves

/-!
# Sessions under other keys

Two sessions over worlds that are alike but for keys and octets are alike themselves if what is under way
in them differs in octets alone. Then whatever may come next in one may come next in the other, and
leads to sessions that are alike again.

Main results:

* `Walk.rekeyed_goFrom`, `Walk.rekeyed_resume` — a walk goes the same way.
* `Session.Rekeyed.move?` — every move that may be made in one session may be made in the other.
* `Session.Rekeyed.run?` — so may every run.
-/

namespace ReplicatedStore

variable {c d : Nat → Codec}

/-! ## Walks -/

/-- What becomes of two walks that are alike but for the octets. -/
inductive WalkState.Rekeyed (c d : Nat → Codec) : WalkState → WalkState → Prop
  | ended (e : WalkEnd) : Rekeyed c d (.over e) (.over e)
  | suspended {walk : Walk} {b : Nat} {rest : List Nat} (delay : Duration) {held other : Held}
      (todo : walk.todo = b :: rest) (h : held.Rekeyed (c b) (d b) other) :
      Rekeyed c d (.suspended walk delay held) (.suspended walk delay other)

namespace Walk

variable {v w : World}

theorem rekeyed_goFrom (h : v.Rekeyed c d w) (walk : Walk) (ahead : List Nat) :
    (walk.goFrom v ahead).1.Rekeyed c d (walk.goFrom w ahead).1 ∧
      (walk.goFrom v ahead).2.Rekeyed c d (walk.goFrom w ahead).2 := by
  -- on the backends ahead: each call begins alike in both worlds, and the walk weighs the same outcome
  induction ahead generalizing v w walk with
  | nil => exact ⟨h, .ended _⟩
  | cons b rest ih =>
    obtain ⟨hAfter, hBegun⟩ := h.begin b walk.request
    rw [goFrom, goFrom]
    generalize v.begin b walk.request = left at hAfter hBegun ⊢
    generalize w.begin b walk.request = right at hAfter hBegun ⊢
    obtain ⟨v', begun⟩ := left
    obtain ⟨w', begun'⟩ := right
    cases hBegun with
    | ended o =>
      simp only [hAfter.nameOf_eq]
      cases walk.weigh (w'.nameOf b) o with
      | inl e => exact ⟨hAfter, .ended e⟩
      | inr next => exact ih hAfter next
    | waiting delay hHeld => exact ⟨hAfter, .suspended delay rfl hHeld⟩

theorem rekeyed_resume (h : v.Rekeyed c d w) {walk : Walk} {b : Nat} {rest : List Nat}
    {held other : Held} (hTodo : walk.todo = b :: rest) (hHeld : held.Rekeyed (c b) (d b) other) :
    (walk.resume v held).1.Rekeyed c d (walk.resume w other).1 ∧
      (walk.resume v held).2.Rekeyed c d (walk.resume w other).2 := by
  obtain ⟨hAfter, hOutcome⟩ := h.finish hHeld
  simp only [resume, hTodo, hOutcome, hAfter.nameOf_eq]
  cases walk.weigh ((w.finish b other).1.nameOf b) (w.finish b other).2 with
  | inl e => exact ⟨hAfter, .ended e⟩
  | inr next => exact rekeyed_goFrom hAfter next rest

end Walk

/-! ## Fan-outs -/

section Lists

variable {α β : Type} {R : α → β → Prop} {l : List α} {m : List β}

theorem forall₂_getElem? (h : List.Forall₂ R l m) (i : Nat) : Option.Rel R l[i]? m[i]? := by
  induction h generalizing i with
  | nil => exact .none
  | cons hFirst _ ih =>
    cases i with
    | zero => exact .some hFirst
    | succ i => exact ih i

theorem forall₂_modify (h : List.Forall₂ R l m) {i : Nat} {f : α → α} {g : β → β}
    (hChange : ∀ x y, l[i]? = some x → m[i]? = some y → R x y → R (f x) (g y)) :
    List.Forall₂ R (l.modify i f) (m.modify i g) := by
  induction h generalizing i with
  | nil =>
    rw [List.modify_nil, List.modify_nil]
    exact .nil
  | cons hFirst hRest ih =>
    cases i with
    | zero => exact .cons (hChange _ _ rfl rfl hFirst) hRest
    | succ i => exact .cons hFirst (ih hChange)

theorem rel_bind {γ δ : Type} {S : γ → δ → Prop} {x : Option α} {y : Option β} {f : α → Option γ}
    {g : β → Option δ} (h : Option.Rel R x y)
    (hNext : ∀ a b, x = some a → R a b → Option.Rel S (f a) (g b)) :
    Option.Rel S (x >>= f) (y >>= g) := by
  cases h with
  | none => exact .none
  | some h => exact hNext _ _ rfl h

end Lists

/-- Where two branches stand that are alike but for the octets. -/
inductive BranchState.Rekeyed (c d : Codec) : BranchState → BranchState → Prop
  | queued : Rekeyed c d .queued .queued
  | running (due : Duration) {held other : Held} (h : held.Rekeyed c d other) :
      Rekeyed c d (.running due held) (.running due other)
  | finished : Rekeyed c d .finished .finished
  | dropped : Rekeyed c d .dropped .dropped

/-- Whether two branches are alike but for the octets. -/
structure Branch.Rekeyed (c d : Nat → Codec) (b b' : Branch) : Prop where
  backend : b.backend = b'.backend
  state : b.state.Rekeyed (c b.backend) (d b.backend) b'.state

theorem Branch.Rekeyed.isOver_eq {b b' : Branch} (h : b.Rekeyed c d b') : b.isOver = b'.isOver := by
  have hState := h.state
  unfold isOver
  generalize b.state = left at hState ⊢
  generalize b'.state = right at hState ⊢
  cases hState <;> rfl

namespace FanOut

/-- Whether two fan-outs are alike but for the octets. -/
structure Rekeyed (c d : Nat → Codec) (f g : FanOut) : Prop where
  request : f.request = g.request
  errors : f.errors = g.errors
  detached : f.detached = g.detached
  branches : List.Forall₂ (Branch.Rekeyed c d) f.branches g.branches

namespace Rekeyed

variable {f g : FanOut}

theorem ofBackends (r : Request) (backends : List Nat) (detached : Bool) :
    (FanOut.ofBackends r backends detached).Rekeyed c d (.ofBackends r backends detached) := by
  refine ⟨rfl, rfl, rfl, ?_⟩
  show List.Forall₂ _ (backends.map _) (backends.map _)
  rw [List.forall₂_map_left_iff, List.forall₂_map_right_iff, List.forall₂_same]
  exact fun b _ => ⟨rfl, .queued⟩

theorem isFinished_eq (h : f.Rekeyed c d g) : f.isFinished = g.isFinished := by
  have hOver := map_eq_of_forall₂ h.branches fun b b' hSame => hSame.isOver_eq
  have hAll := congrArg (List.all · id) hOver
  rwa [List.all_map, List.all_map] at hAll

theorem verdict_eq (h : f.Rekeyed c d g) : f.verdict = g.verdict := by
  rw [verdict, verdict, h.request, h.errors, h.branches.length_eq]

theorem cancel (h : f.Rekeyed c d g) : f.cancel.Rekeyed c d g.cancel := by
  refine ⟨h.request, h.errors, h.detached, ?_⟩
  show List.Forall₂ _ (f.branches.map _) (g.branches.map _)
  rw [List.forall₂_map_left_iff, List.forall₂_map_right_iff]
  refine h.branches.imp fun b b' hSame => ?_
  rw [hSame.isOver_eq]
  split
  · exact hSame
  · exact ⟨hSame.backend, .dropped⟩

theorem setState (h : f.Rekeyed c d g) {i : Nat} {b : Branch} {state state' : BranchState}
    (hb : f.branches[i]? = some b) (hState : state.Rekeyed (c b.backend) (d b.backend) state') :
    (f.setState i state).Rekeyed c d (g.setState i state') := by
  refine ⟨h.request, h.errors, h.detached, forall₂_modify h.branches fun x y hx _ hSame => ?_⟩
  rw [hb, Option.some.injEq] at hx
  rw [hx] at hState
  exact ⟨hSame.backend, hState⟩

theorem complete (h : f.Rekeyed c d g) {i : Nat} {b : Branch} (hb : f.branches[i]? = some b)
    (name : String) (o : Outcome) : (f.complete i name o).Rekeyed c d (g.complete i name o) := by
  refine ⟨h.request, ?_, h.detached, (h.setState hb .finished).branches⟩
  have hError : f.error? i name o = g.error? i name o := by
    cases o <;> simp only [error?, h.request]
  show f.errors ++ _ = g.errors ++ _
  rw [h.errors, hError]

end Rekeyed

end FanOut

/-! ## Sessions -/

/-- What two orders wait for that are alike but for the octets. -/
inductive Activity.Rekeyed (c d : Nat → Codec) : Activity → Activity → Prop
  | walking {walk : Walk} {b : Nat} {rest : List Nat} (due : Duration) {held other : Held}
      (todo : walk.todo = b :: rest) (h : held.Rekeyed (c b) (d b) other) :
      Rekeyed c d (.walking walk due held) (.walking walk due other)
  | joining (fan : Nat) : Rekeyed c d (.joining fan) (.joining fan)
  | draining (fans : List Nat) : Rekeyed c d (.draining fans) (.draining fans)

/-- Two orders under way that are alike but for the octets. -/
inductive Running.Rekeyed (c d : Nat → Codec) : Running → Running → Prop
  | mk (ticket : Nat) (order : Order) (deadline : Option Duration) {activity other : Activity}
      (h : activity.Rekeyed c d other) :
      Rekeyed c d ⟨ticket, order, deadline, activity⟩ ⟨ticket, order, deadline, other⟩

theorem Running.Rekeyed.ticket_eq {p q : Running} (h : p.Rekeyed c d q) : p.ticket = q.ticket := by
  cases h
  rfl

namespace Session

/-- A session without its backends and without what is under way. -/
def shell (s : Session) : Session := { s with world := {}, fans := [], running := [] }

/-- Whether two sessions are alike but for the keys of their backends and the octets. -/
structure Rekeyed (c d : Nat → Codec) (s t : Session) : Prop where
  rest : s.shell = t.shell
  world : s.world.Rekeyed c d t.world
  fans : List.Forall₂ (FanOut.Rekeyed c d) s.fans t.fans
  running : List.Forall₂ (Running.Rekeyed c d) s.running t.running

namespace Rekeyed

variable {s t : Session}

theorem now_eq (h : s.Rekeyed c d t) : s.now = t.now := by
  -- here and below: what the shell keeps is read off the shell
  have hNow := congrArg Session.now h.rest
  exact hNow

theorem watched_eq (h : s.Rekeyed c d t) : s.watched = t.watched := by
  have hWatched := congrArg watched h.rest
  exact hWatched

theorem timeout_eq (h : s.Rekeyed c d t) : s.timeout = t.timeout := by
  have hTimeout := congrArg timeout h.rest
  exact hTimeout

theorem deadline_eq (h : s.Rekeyed c d t) : s.deadline = t.deadline := by
  have hDeadline := congrArg Session.deadline h.rest
  exact hDeadline

theorem tickets_eq (h : s.Rekeyed c d t) : s.tickets = t.tickets := by
  have hTickets := congrArg tickets h.rest
  exact hTickets

theorem launched_eq (h : s.Rekeyed c d t) : s.launched = t.launched := by
  have hLaunched := congrArg launched h.rest
  exact hLaunched

theorem isFinished_eq (h : s.Rekeyed c d t) : s.isFinished = t.isFinished := by
  funext fan
  have hFan := forall₂_getElem? h.fans fan
  unfold isFinished
  generalize s.fans[fan]? = left at hFan ⊢
  generalize t.fans[fan]? = right at hFan ⊢
  cases hFan with
  | none => rfl
  | some hSame => exact hSame.isFinished_eq

theorem running? (h : s.Rekeyed c d t) (ticket : Nat) :
    Option.Rel (Running.Rekeyed c d) (s.running? ticket) (t.running? ticket) := by
  have hRunning := h.running
  unfold Session.running?
  generalize s.running = left at hRunning ⊢
  generalize t.running = right at hRunning ⊢
  induction hRunning with
  | nil => exact .none
  | cons hFirst _ ih =>
    rw [List.find?_cons, List.find?_cons, hFirst.ticket_eq]
    split
    · exact .some hFirst
    · exact ih

/-! ### Orders -/

theorem withWorld (h : s.Rekeyed c d t) {v w : World} (hWorld : v.Rekeyed c d w) :
    { s with world := v }.Rekeyed c d { t with world := w } := ⟨h.rest, hWorld, h.fans, h.running⟩

theorem finish (h : s.Rekeyed c d t) (ticket : Nat) (e : Ended) :
    (s.finish ticket e).Rekeyed c d (t.finish ticket e) := by
  refine ⟨congrArg (·.finish ticket e) h.rest, h.world, h.fans, List.rel_filter ?_ h.running⟩
  intro p q hSame
  show (p.ticket != ticket) = true ↔ (q.ticket != ticket) = true
  rw [hSame.ticket_eq]

theorem return_ (h : s.Rekeyed c d t) (ticket : Nat) (result : Except StoreError Answer) :
    (s.return_ ticket result).Rekeyed c d (t.return_ ticket result) := h.finish ..

theorem suspend (h : s.Rekeyed c d t) {p q : Running} (hSame : p.Rekeyed c d q) :
    (s.suspend p).Rekeyed c d (t.suspend q) := by
  refine ⟨h.rest, h.world, h.fans, ?_⟩
  show List.Forall₂ _ (s.running.filter (·.ticket != p.ticket) ++ [p])
    (t.running.filter (·.ticket != q.ticket) ++ [q])
  rw [hSame.ticket_eq]
  refine List.rel_append ?_ (.cons hSame .nil)
  -- an order that is finished leaves the same orders behind, however it ended
  exact (h.finish q.ticket (.crashed "")).running

theorem withWatched (h : s.Rekeyed c d t) {x y : WatchedCache} (hSame : x = y) :
    { s with watched := x }.Rekeyed c d { t with watched := y } := by
  subst hSame
  exact ⟨congrArg (fun u => { u with watched := x }) h.rest, h.world, h.fans, h.running⟩

theorem invalidate (h : s.Rekeyed c d t) (key : String) :
    { s with watched := s.watched.invalidate key }.Rekeyed c d
      { t with watched := t.watched.invalidate key } := by
  refine h.withWatched ?_
  rw [h.watched_eq]

theorem settle (h : s.Rekeyed c d t) (a : Address) (result : Except StoreError Answer) :
    (s.settle a result).Rekeyed c d (t.settle a result) := by
  unfold Session.settle
  cases result with
  | ok answer => exact h.invalidate a.key
  | error e =>
    dsimp only
    split
    · exact h.invalidate a.key
    · exact h

theorem fanOut (h : s.Rekeyed c d t) {f g : FanOut} (hSame : f.Rekeyed c d g) :
    (s.fanOut f).Rekeyed c d (t.fanOut g) :=
  ⟨h.rest, h.world, List.rel_append h.fans (.cons hSame .nil), h.running⟩

theorem replicate (h : s.Rekeyed c d t) (r : Request) (backends : List Nat) :
    (s.replicate r backends).Rekeyed c d (t.replicate r backends) := by
  unfold Session.replicate
  split
  · exact h
  · have hFanOut := h.fanOut (.ofBackends r backends true)
    rw [h.launched_eq, h.isFinished_eq, h.fans.length_eq]
    refine ⟨?_, hFanOut.world, hFanOut.fans, hFanOut.running⟩
    -- the shell has no fan-outs of its own, so the numbers are given from outside
    generalize t.launched.filter (fun fan => !t.isFinished fan) ++ [t.fans.length] = launched
    exact congrArg (fun u : Session => { u with launched }) h.rest

theorem endWalk (h : s.Rekeyed c d t) (ticket : Nat) (r : Request) (e : WalkEnd) :
    (s.endWalk ticket r e).Rekeyed c d (t.endWalk ticket r e) := by
  cases e with
  | crashed reason => exact h.finish ..
  | lost error =>
    cases r with
    | put a data => exact (h.settle a _).return_ ..
    | get a => exact h.return_ ..
    | remove a => exact h.return_ ..
    | holds a => exact h.return_ ..
  | found passed answer =>
    cases r with
    | put a data =>
      show (((s.replicate _ (s.world.mains.eraseIdx passed)).settle a _).return_ ticket _).Rekeyed c d
        (((t.replicate _ (t.world.mains.eraseIdx passed)).settle a _).return_ ticket _)
      rw [h.world.mains_eq]
      exact ((h.replicate ..).settle ..).return_ ..
    | get a =>
      cases answer with
      | content data =>
        refine (h.withWatched ?_).return_ ..
        rw [h.watched_eq, h.now_eq]
      | done => exact h.return_ ..
      | presence is => exact h.return_ ..
    | remove a => exact h.return_ ..
    | holds a => exact h.return_ ..

theorem followWalk (h : s.Rekeyed c d t) (ticket : Nat) (r : Request) (deadline : Option Duration)
    {v w : World} {state other : WalkState} (hWorld : v.Rekeyed c d w)
    (hState : state.Rekeyed c d other) :
    (s.followWalk ticket r deadline (v, state)).Rekeyed c d
      (t.followWalk ticket r deadline (w, other)) := by
  cases hState with
  | ended e => exact (h.withWorld hWorld).endWalk ..
  | suspended delay hTodo hHeld =>
    refine (h.withWorld hWorld).suspend ?_
    rw [h.now_eq]
    exact .mk _ _ _ (.walking _ hTodo hHeld)

theorem startWalk (h : s.Rekeyed c d t) (ticket : Nat) (r : Request) (walk : Walk) :
    (s.startWalk ticket r walk).Rekeyed c d (t.startWalk ticket r walk) := by
  obtain ⟨hWorld, hState⟩ := Walk.rekeyed_goFrom h.world walk walk.todo
  unfold Session.startWalk
  rw [h.deadline_eq]
  exact h.followWalk ticket r t.deadline hWorld hState

theorem startFan (h : s.Rekeyed c d t) (ticket : Nat) (r : Request) :
    (s.startFan ticket r).Rekeyed c d (t.startFan ticket r) := by
  unfold Session.startFan
  rw [h.world.mains_eq, h.deadline_eq, h.fans.length_eq]
  exact (h.fanOut (.ofBackends ..)).suspend (.mk _ _ _ (.joining _))

theorem endFan (h : s.Rekeyed c d t) (ticket : Nat) (r : Request) {f g : FanOut}
    (hSame : f.Rekeyed c d g) : (s.endFan ticket r f).Rekeyed c d (t.endFan ticket r g) := by
  unfold Session.endFan
  rw [hSame.verdict_eq]
  exact (h.settle ..).return_ ..

/-- The cache has the same for both, or nothing. -/
theorem lookup (h : s.Rekeyed c d t) (a : Address) :
    ∃ found s' t', s.lookup a = (found, s') ∧ t.lookup a = (found, t') ∧ s'.Rekeyed c d t' := by
  have hFound : s.watched.lookup s.now a.key = t.watched.lookup t.now a.key := by
    rw [h.watched_eq, h.now_eq]
  refine ⟨(t.lookup a).1, (s.lookup a).2, (t.lookup a).2, ?_, rfl, ?_⟩
  · exact Prod.ext (congrArg (·.1) hFound) rfl
  · exact h.withWatched (congrArg (·.2) hFound)

/-- A read claims its order alike. -/
theorem claim (h : s.Rekeyed c d t) :
    s.readOrder.claim.1 = t.readOrder.claim.1 ∧
      { s with readOrder := s.readOrder.claim.2 }.Rekeyed c d
        { t with readOrder := t.readOrder.claim.2 } := by
  have hOrder := congrArg (·.readOrder.claim.1) h.rest
  refine ⟨hOrder, ?_, h.world, h.fans, h.running⟩
  exact congrArg (fun u : Session => { u with readOrder := u.readOrder.claim.2 }) h.rest

theorem startRequest (h : s.Rekeyed c d t) (ticket : Nat) (r : Request) :
    (s.startRequest ticket r).Rekeyed c d (t.startRequest ticket r) := by
  cases r with
  | get a =>
    obtain ⟨found, s', t', hLeft, hRight, hAfter⟩ := h.lookup a
    simp only [Session.startRequest, hLeft, hRight]
    cases found with
    | some data => exact hAfter.return_ ..
    | none =>
      simp only [hAfter.world.isEmpty_eq]
      split
      · exact hAfter.return_ ..
      · obtain ⟨hOrder, hClaimed⟩ := hAfter.claim
        rw [hOrder]
        exact hClaimed.startWalk ..
  | holds a =>
    obtain ⟨found, s', t', hLeft, hRight, hAfter⟩ := h.lookup a
    simp only [Session.startRequest, hLeft, hRight]
    cases found with
    | some data => exact hAfter.return_ ..
    | none =>
      simp only [hAfter.world.isEmpty_eq, hAfter.world.readGroups_eq]
      split
      · exact hAfter.return_ ..
      · exact hAfter.startWalk ..
  | put a data =>
    have hReplication : s.replication = t.replication := by
      have hSame := congrArg Session.replication h.rest
      exact hSame
    unfold Session.startRequest
    simp only [h.world.mains_eq, hReplication]
    split
    · exact h.return_ ..
    · cases t.replication with
      | sync => exact h.startFan ..
      | async => exact h.startWalk ..
  | remove a =>
    unfold Session.startRequest
    simp only [h.world.mains_eq]
    split
    · exact h.return_ ..
    · exact h.startFan ..

theorem endDrain (h : s.Rekeyed c d t) (ticket : Nat) (order : Order) :
    (s.endDrain ticket order).Rekeyed c d (t.endDrain ticket order) := by
  cases order with
  | request r => exact h.return_ ..
  | wait => exact h.return_ ..
  | shutdown =>
    refine (h.withWatched ?_).return_ ..
    rw [h.watched_eq]

theorem startDrain (h : s.Rekeyed c d t) (ticket : Nat) (order : Order) :
    (s.startDrain ticket order).Rekeyed c d (t.startDrain ticket order) := by
  have hForgotten : { s with launched := [] }.Rekeyed c d { t with launched := [] } :=
    ⟨congrArg (fun u : Session => { u with launched := [] }) h.rest, h.world, h.fans, h.running⟩
  unfold Session.startDrain
  simp only [h.launched_eq, hForgotten.isFinished_eq]
  split
  · exact hForgotten.endDrain ..
  · exact hForgotten.suspend (.mk _ _ _ (.draining _))

/-- The next ticket is taken in both. -/
theorem withTicket (h : s.Rekeyed c d t) :
    { s with tickets := s.tickets + 1 }.Rekeyed c d { t with tickets := t.tickets + 1 } :=
  ⟨congrArg (fun u : Session => { u with tickets := u.tickets + 1 }) h.rest, h.world, h.fans, h.running⟩

theorem submit (h : s.Rekeyed c d t) (order : Order) :
    (s.submit order).Rekeyed c d (t.submit order) := by
  unfold Session.submit
  rw [h.tickets_eq]
  have hTicket := h.withTicket
  rw [h.tickets_eq] at hTicket
  cases order with
  | request r => exact hTicket.startRequest ..
  | wait => exact hTicket.startDrain ..
  | shutdown => exact hTicket.startDrain ..

theorem submitStream (h : s.Rekeyed c d t) (a : Address) (input : Stream) (failure : String → Link) :
    (s.submitStream a input failure).Rekeyed c d (t.submitStream a input failure) := by
  have hRefused (e : StoreError) := h.withTicket.return_ s.tickets (.error e)
  unfold Session.submitStream
  rw [h.tickets_eq] at hRefused ⊢
  simp only [h.world.mains_eq]
  split
  · exact hRefused _
  · cases input.readAll with
    | error reason => exact hRefused _
    | ok data => exact h.submit ..

/-! ### Events -/

theorem resume? (h : s.Rekeyed c d t) (ticket : Nat) :
    Option.Rel (Session.Rekeyed c d) (s.resume? ticket) (t.resume? ticket) := by
  refine rel_bind (h.running? ticket) fun p q _ hSame => ?_
  obtain ⟨number, order, deadline, hActivity⟩ := hSame
  cases order with
  | wait => exact .none
  | shutdown => exact .none
  | request r =>
    cases hActivity with
    | joining fan => exact .none
    | draining fans => exact .none
    | walking due hTodo hHeld =>
      simp only [h.now_eq]
      split
      · obtain ⟨hWorld, hState⟩ := Walk.rekeyed_resume h.world hTodo hHeld
        exact .some (h.followWalk ticket r deadline hWorld hState)
      · exact .none

theorem modifyFan (h : s.Rekeyed c d t) {fan : Nat} {change change' : FanOut → FanOut}
    (hChange : ∀ f g, s.fans[fan]? = some f → f.Rekeyed c d g → (change f).Rekeyed c d (change' g)) :
    (s.modifyFan fan change).Rekeyed c d (t.modifyFan fan change') :=
  ⟨h.rest, h.world, forall₂_modify h.fans fun f g hf _ => hChange f g hf, h.running⟩

theorem giveUp (h : s.Rekeyed c d t) {activity other : Activity} (hSame : activity.Rekeyed c d other) :
    (s.giveUp activity).Rekeyed c d (t.giveUp other) := by
  cases hSame with
  | walking due hTodo hHeld => exact h
  | joining fan => exact h.modifyFan fun f g _ hFan => hFan.cancel
  | draining fans => exact h

theorem expire? (h : s.Rekeyed c d t) (ticket : Nat) :
    Option.Rel (Session.Rekeyed c d) (s.expire? ticket) (t.expire? ticket) := by
  refine rel_bind (h.running? ticket) fun p q _ hSame => ?_
  obtain ⟨number, order, deadline, hActivity⟩ := hSame
  cases deadline with
  | none => exact .none
  | some deadline =>
    cases order with
    | wait => exact .none
    | shutdown => exact .none
    | request r =>
      simp only [h.timeout_eq, h.now_eq, Option.bind_eq_bind, Option.bind_some]
      cases t.timeout with
      | none => exact .none
      | some after =>
        dsimp only
        split
        · exact .some ((h.giveUp hActivity).return_ ..)
        · exact .none

/-- Branches at the same place that are alike go on alike. -/
theorem modifyBranch (h : s.Rekeyed c d t) {fan branch : Nat} {f : FanOut} {b : Branch}
    (hf : s.fans[fan]? = some f) (hb : f.branches[branch]? = some b) {change change' : FanOut → FanOut}
    (hChange : ∀ g g' : FanOut, g.branches[branch]? = some b → g.Rekeyed c d g' →
      (change g).Rekeyed c d (change' g')) :
    (s.modifyFan fan change).Rekeyed c d (t.modifyFan fan change') := by
  refine h.modifyFan fun g g' hg hSame => hChange g g' ?_ hSame
  rw [hf, Option.some.injEq] at hg
  rwa [← hg]

theorem start? (h : s.Rekeyed c d t) (fan branch : Nat) :
    Option.Rel (Session.Rekeyed c d) (s.start? fan branch) (t.start? fan branch) := by
  refine rel_bind (forall₂_getElem? h.fans fan) fun f g hf hFan => ?_
  refine rel_bind (forall₂_getElem? hFan.branches branch) fun b b' hb hBranch => ?_
  obtain ⟨hBackend, hState⟩ := hBranch
  simp only [← hBackend, ← hFan.request]
  -- only a branch that is queued may start, and both are or neither is
  generalize b.state = left at hState ⊢
  generalize b'.state = right at hState ⊢
  cases hState with
  | running due hHeld => exact .none
  | finished => exact .none
  | dropped => exact .none
  | queued =>
    obtain ⟨hAfter, hBegun⟩ := h.world.begin b.backend f.request
    generalize s.world.begin b.backend f.request = left at hAfter hBegun ⊢
    generalize t.world.begin b.backend f.request = right at hAfter hBegun ⊢
    obtain ⟨v, begun⟩ := left
    obtain ⟨w, begun'⟩ := right
    have hWorld := h.withWorld hAfter
    cases hBegun with
    | ended o =>
      refine .some (hWorld.modifyBranch hf hb fun k k' hk hSame => ?_)
      rw [hAfter.nameOf_eq]
      exact hSame.complete hk ..
    | waiting delay hHeld =>
      refine .some (hWorld.modifyBranch hf hb fun k k' hk hSame => ?_)
      rw [h.now_eq]
      exact hSame.setState hk (.running _ hHeld)

theorem complete? (h : s.Rekeyed c d t) (fan branch : Nat) :
    Option.Rel (Session.Rekeyed c d) (s.complete? fan branch) (t.complete? fan branch) := by
  refine rel_bind (forall₂_getElem? h.fans fan) fun f g hf hFan => ?_
  refine rel_bind (forall₂_getElem? hFan.branches branch) fun b b' hb hBranch => ?_
  obtain ⟨hBackend, hState⟩ := hBranch
  simp only [← hBackend]
  -- only a branch that is running may be finished, and both are due or neither is
  generalize b.state = left at hState ⊢
  generalize b'.state = right at hState ⊢
  cases hState with
  | queued => exact .none
  | finished => exact .none
  | dropped => exact .none
  | running due hHeld =>
    have hSameTime : due ≤ s.now ↔ due ≤ t.now := by rw [h.now_eq]
    by_cases hDue : due ≤ t.now
    · obtain ⟨hAfter, hOutcome⟩ := h.world.finish hHeld
      simp only [if_pos hDue, if_pos (hSameTime.mpr hDue)]
      refine .some ((h.withWorld hAfter).modifyBranch hf hb fun k k' hk hSame => ?_)
      rw [hAfter.nameOf_eq, hOutcome]
      exact hSame.complete hk ..
    · simp only [if_neg hDue, if_neg (mt hSameTime.mp hDue)]
      exact .none

theorem join? (h : s.Rekeyed c d t) (ticket : Nat) :
    Option.Rel (Session.Rekeyed c d) (s.join? ticket) (t.join? ticket) := by
  refine rel_bind (h.running? ticket) fun p q _ hSame => ?_
  obtain ⟨number, order, deadline, hActivity⟩ := hSame
  cases hActivity with
  | walking due hTodo hHeld => cases order <;> exact .none
  | draining fans =>
    simp only [h.isFinished_eq]
    split
    · exact .some (h.endDrain ..)
    · exact .none
  | joining fan =>
    cases order with
    | wait => exact .none
    | shutdown => exact .none
    | request r =>
      refine rel_bind (forall₂_getElem? h.fans fan) fun f g _ hFan => ?_
      rw [hFan.isFinished_eq]
      split
      · exact .some (h.endFan ticket r hFan)
      · exact .none

theorem step? (h : s.Rekeyed c d t) (e : Event) :
    Option.Rel (Session.Rekeyed c d) (s.step? e) (t.step? e) := by
  cases e with
  | resume ticket => exact h.resume? ticket
  | expire ticket => exact h.expire? ticket
  | start fan branch => exact h.start? fan branch
  | complete fan branch => exact h.complete? fan branch
  | join ticket => exact h.join? ticket

theorem tick (h : s.Rekeyed c d t) (time : Duration) : (s.tick time).Rekeyed c d (t.tick time) := by
  unfold Session.tick
  rw [h.now_eq]
  split
  · exact h
  · refine ⟨?_, h.world, h.fans, h.running⟩
    have hPassed := congrArg (fun u : Session =>
      { u with now := time, watched := u.watched.passesUntil u.picks time }) h.rest
    exact hPassed

/-! ### Runs -/

/-- A move that may be made in one may be made in the other, and leads to sessions that are alike. -/
theorem move? (h : s.Rekeyed c d t) (m : Move) :
    Option.Rel (Session.Rekeyed c d) (s.move? m) (t.move? m) := by
  cases m with
  | submit order => exact .some (h.submit order)
  | submitStream a input failure => exact .some (h.submitStream a input failure)
  | event e => exact h.step? e
  | tick time => exact .some (h.tick time)
  | cache order =>
    refine .some (h.withWatched ?_)
    rw [h.watched_eq, h.now_eq]
  | fill key data =>
    refine .some (h.withWatched ?_)
    rw [h.watched_eq, h.now_eq]

theorem run? (h : s.Rekeyed c d t) (moves : List Move) :
    Option.Rel (Session.Rekeyed c d) (s.run? moves) (t.run? moves) := by
  induction moves generalizing s t with
  | nil => exact .some h
  | cons m rest ih =>
    -- either the move may be made in neither, and both runs end here, or the rest starts alike
    have hMove := h.move? m
    rw [Session.run?, Session.run?]
    generalize s.move? m = left at hMove ⊢
    generalize t.move? m = right at hMove ⊢
    cases hMove with
    | none => exact .none
    | some hNext => exact ih hNext

end Rekeyed

end Session

end ReplicatedStore

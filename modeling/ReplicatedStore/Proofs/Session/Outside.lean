import ReplicatedStore.Proofs.Session.Rekeyed
import ReplicatedStore.Proofs.Session.Sequence
import ReplicatedStore.Session.Run

/-!
# What a session shows

Those who use a session see how their orders ended, how much is still to be written in the background,
the cache, the clock, and of each backend all but its key and the octets that it has stored. Sessions
that are alike but for keys and octets show the same, whatever is done with them: in any run, with
orders that overlap and events in any order, and on a clock that moves only when nothing else can
happen, on which the schedule of what happens next is the same for both.

Main results:

* `Session.Rekeyed.surface_eq` — what two sessions show.
* `Session.Rekeyed.events_eq`, `Session.Rekeyed.perform` — their schedules, and what they lead to.
* `Session.Rekeyed.indistinct` — nobody can tell the sessions apart.
-/

namespace ReplicatedStore

/-- What is shown of a backend: its key with a mark in its place, and of objects where they are. -/
structure Face where
  name : String
  kind : String
  properties : String
  containers : List String
  objects : List Address
  deriving DecidableEq, Repr

/-- The containers of a memory. -/
def Storage.containers : Storage → List String
  | memory _ m => m.containers
  | directory .. | gateway .. | scripted _ => []

def Backend.face (b : Backend) : Face where
  name := b.name
  kind := b.storage.kind
  properties := b.properties.summary
  containers := b.storage.containers
  objects := b.storage.objects.entries.map (·.1)

theorem Backend.Rekeyed.face_eq {c d : Codec} {b b' : Backend} (h : b.Rekeyed c d b') :
    b.face = b'.face := by
  cases h with
  | memory name hProperties hCodecs hContent =>
    simp only [face, Storage.kind, Storage.containers, Storage.objects, hProperties.summary_eq,
      hContent.containers, hContent.objects.addresses_eq]

theorem map_zipIdx_eq_of_forall₂ {α β γ : Type} {R : α → β → Prop} {l : List α} {m : List β}
    {f : α → Nat → γ} {g : β → Nat → γ} (h : List.Forall₂ R l m) (start : Nat)
    (hSame : ∀ x y i, R x y → f x i = g y i) :
    ((l.zipIdx start).map fun p => f p.1 p.2) = (m.zipIdx start).map fun p => g p.1 p.2 := by
  induction h generalizing start with
  | nil => rfl
  | cons hFirst _ ih =>
    rw [List.zipIdx_cons, List.zipIdx_cons, List.map_cons, List.map_cons, hSame _ _ _ hFirst, ih]

namespace Session

/-- What a session shows to those who use it. -/
structure Surface where
  ended : List (Nat × Ended)
  pending : Nat
  watched : WatchedCache
  now : Duration
  faces : List Face

def surface (s : Session) : Surface where
  ended := s.ended
  pending := s.pendingReplications
  watched := s.watched
  now := s.now
  faces := s.world.backends.map (·.face)

/-- A task is done on a clock that moves only when nothing else can happen. -/
def attend (s : Session) : Task → Session × Option Ended
  | .request r => s.perform (.request r)
  | .cache order => ({ s with watched := order.apply s.watched s.now }, none)
  | .rest time => (s.advanced (time - s.now), none)

/-- What tasks that are done one after the other give, and what is shown after each. -/
def reports : Session → List Task → List (Option Ended × Surface)
  | _, [] => []
  | s, task :: rest => ((s.attend task).2, (s.attend task).1.surface) :: (s.attend task).1.reports rest

/-- Whether nobody can tell two sessions apart, whatever is done with them. -/
structure Indistinct (s t : Session) : Prop where
  runs : ∀ moves, (s.run? moves).map surface = (t.run? moves).map surface
  reports : ∀ tasks, s.reports tasks = t.reports tasks

namespace Rekeyed

variable {c d : Nat → Codec} {s t : Session}

theorem surface_eq (h : s.Rekeyed c d t) : s.surface = t.surface := by
  have hEnded : s.ended = t.ended := by
    have hSame := congrArg Session.ended h.rest
    exact hSame
  have hPending : s.pendingReplications = t.pendingReplications := by
    rw [pendingReplications, pendingReplications, h.launched_eq, h.isFinished_eq]
  have hFaces := h.world.map_backends_eq Backend.face Backend.Rekeyed.face_eq
  rw [surface, surface, hEnded, hPending, h.watched_eq, h.now_eq, hFaces]

/-! ## Schedules -/

theorem eventsOfOrder_eq (h : s.Rekeyed c d t) {p q : Running} (hSame : p.Rekeyed c d q) :
    s.eventsOfOrder p = t.eventsOfOrder q := by
  obtain ⟨ticket, order, deadline, hActivity⟩ := hSame
  unfold eventsOfOrder atLeastNow
  simp only [h.now_eq, h.isFinished_eq]
  cases hActivity <;> rfl

theorem eventOfBranch?_eq (h : s.Rekeyed c d t) (fan branch : Nat) {b b' : Branch}
    (hSame : b.Rekeyed c d b') : s.eventOfBranch? fan branch b = t.eventOfBranch? fan branch b' := by
  have hState := hSame.state
  unfold eventOfBranch? atLeastNow
  rw [h.now_eq]
  generalize b.state = left at hState ⊢
  generalize b'.state = right at hState ⊢
  cases hState <;> rfl

theorem eventsOfFan_eq (h : s.Rekeyed c d t) (fan : Nat) {f g : FanOut} (hSame : f.Rekeyed c d g) :
    s.eventsOfFan fan f = t.eventsOfFan fan g := by
  have hEvents := map_zipIdx_eq_of_forall₂ hSame.branches 0 fun b b' i hBranch =>
    h.eventOfBranch?_eq fan i hBranch
  -- the numbered branches that have an event are those whose numbered event is there
  have hListed := congrArg (List.filterMap id) hEvents
  rw [List.filterMap_map, List.filterMap_map] at hListed
  exact hListed

/-- What may come next, and when, is the same for both. -/
theorem events_eq (h : s.Rekeyed c d t) : s.events = t.events := by
  have hOrders := map_eq_of_forall₂ h.running fun p q hSame => h.eventsOfOrder_eq hSame
  have hFans := map_zipIdx_eq_of_forall₂ h.fans 0 fun f g i hSame => h.eventsOfFan_eq i hSame
  unfold events
  rw [List.flatMap_def, List.flatMap_def, List.flatMap_def, List.flatMap_def, hOrders]
  exact congrArg (_ ++ List.flatten ·) hFans

theorem work_eq (h : s.Rekeyed c d t) : s.work = t.work := by
  have hOrder (p q : Running) (hSame : p.Rekeyed c d q) : orderWork p = orderWork q := by
    obtain ⟨ticket, order, deadline, hActivity⟩ := hSame
    cases hActivity <;> rfl
  have hBranch (b b' : Branch) (hSame : b.Rekeyed c d b') : branchWork b = branchWork b' := by
    have hState := hSame.state
    unfold branchWork
    generalize b.state = left at hState ⊢
    generalize b'.state = right at hState ⊢
    cases hState <;> rfl
  have hFan (f g : FanOut) (hSame : f.Rekeyed c d g) : fanWork f = fanWork g := by
    have hBranches := congrArg (List.foldr (· + ·) 0) (map_eq_of_forall₂ hSame.branches hBranch)
    rwa [List.foldr_map, List.foldr_map] at hBranches
  -- the sums over orders and fan-outs are sums over what each of them adds
  have hOrders := congrArg (List.foldr (· + ·) 0) (map_eq_of_forall₂ h.running hOrder)
  have hFans := congrArg (List.foldr (· + ·) 0) (map_eq_of_forall₂ h.fans hFan)
  rw [List.foldr_map, List.foldr_map] at hOrders hFans
  rw [work, work, hOrders, hFans]

theorem drive (h : s.Rekeyed c d t) {stop : Session → Bool}
    (hStop : ∀ {u v : Session}, u.Rekeyed c d v → stop u = stop v) (limit : Option Duration)
    (fuel : Nat) : (Session.drive stop limit fuel s).Rekeyed c d (Session.drive stop limit fuel t) := by
  -- on the fuel: both look at the same schedule, so they stop together or take the same event
  induction fuel generalizing s t with
  | zero => exact h
  | succ fuel ih =>
    rw [Session.drive, Session.drive, hStop h, h.events_eq]
    split
    · exact h
    · split
      · exact h
      · rename_i e _
        split
        · exact h
        · have hStep := (h.tick e.time).step? e.event
          generalize (s.tick e.time).step? e.event = left at hStep ⊢
          generalize (t.tick e.time).step? e.event = right at hStep ⊢
          cases hStep with
          | none => exact h
          | some hNext => exact ih hNext

theorem ended?_eq (h : s.Rekeyed c d t) (ticket : Nat) : s.ended? ticket = t.ended? ticket := by
  have hEnded := congrArg (·.ended? ticket) h.rest
  exact hEnded

theorem perform (h : s.Rekeyed c d t) (order : Order) :
    (s.perform order).1.Rekeyed c d (t.perform order).1 ∧
      (s.perform order).2 = (t.perform order).2 := by
  have hSubmitted := h.submit order
  have hDriven := hSubmitted.drive
    (fun hSame => congrArg Option.isSome (hSame.ended?_eq ((t.submit order).tickets - 1))) none
    (t.submit order).work
  unfold Session.perform completed
  simp only [hSubmitted.tickets_eq, hSubmitted.work_eq]
  exact ⟨hDriven, hDriven.ended?_eq _⟩

theorem advanced (h : s.Rekeyed c d t) (time : Duration) :
    (s.advanced time).Rekeyed c d (t.advanced time) := by
  unfold Session.advanced
  rw [h.now_eq, h.work_eq]
  exact (h.drive (fun _ => rfl) ..).tick _

/-! ## Nobody can tell -/

theorem attend (h : s.Rekeyed c d t) (task : Task) :
    (s.attend task).1.Rekeyed c d (t.attend task).1 ∧ (s.attend task).2 = (t.attend task).2 := by
  cases task with
  | request r => exact h.perform (.request r)
  | cache order =>
    refine ⟨h.withWatched ?_, rfl⟩
    rw [h.watched_eq, h.now_eq]
  | rest time =>
    refine ⟨?_, rfl⟩
    show (s.advanced (time - s.now)).Rekeyed c d (t.advanced (time - t.now))
    rw [h.now_eq]
    exact h.advanced _

theorem indistinct (h : s.Rekeyed c d t) : s.Indistinct t := by
  refine ⟨fun moves => ?_, fun tasks => ?_⟩
  · have hRun := h.run? moves
    generalize s.run? moves = left at hRun ⊢
    generalize t.run? moves = right at hRun ⊢
    cases hRun with
    | none => rfl
    | some hSame => exact congrArg some hSame.surface_eq
  · -- after each task the two are alike again, and show the same
    induction tasks generalizing s t with
    | nil => rfl
    | cons task rest ih =>
      obtain ⟨hAfter, hResult⟩ := h.attend task
      rw [Session.reports, Session.reports, hResult, hAfter.surface_eq, ih hAfter]

end Rekeyed

end Session

end ReplicatedStore

import ReplicatedStore.Proofs.Backend.Landing
import ReplicatedStore.Session.Walk

/-!
# The calls of a walk

A walk that is set going may have several calls behind it before it waits or ends: it leaves a trail of
the backends whose calls have begun and of what calls have come to. Nothing happens to the world but
these calls. So what becomes of an object is told by the trail: it stays unless a write has landed
there.

Main results:

* `Walk.world_goFrom` — a walk does nothing to the world but make its calls.
* `Walk.receives_goFrom`, `Walk.receives_resume` — what a walk does to an object.
* `Walk.objectAt?_goFrom`, `Walk.objectAt?_resume` — a walk does nothing to objects if its calls do not.
-/

namespace ReplicatedStore

/-- The backends whose calls have begun, and what calls have come to, in order. -/
structure Trail where
  called : List Nat := []
  outcomes : List (Nat × Outcome) := []
  deriving DecidableEq, Repr

namespace Trail

/-- One trail after another. -/
def append (first then_ : Trail) : Trail :=
  { called := first.called ++ then_.called, outcomes := first.outcomes ++ then_.outcomes }

instance : Append Trail := ⟨append⟩

@[simp] theorem called_append (x y : Trail) : (x ++ y).called = x.called ++ y.called := rfl

@[simp] theorem outcomes_append (x y : Trail) : (x ++ y).outcomes = x.outcomes ++ y.outcomes := rfl

@[simp] theorem append_empty (x : Trail) : x ++ ({} : Trail) = x := by
  show Trail.append x {} = x
  simp [append]

theorem append_assoc (x y z : Trail) : x ++ y ++ z = x ++ (y ++ z) := by
  show Trail.append (Trail.append x y) z = Trail.append x (Trail.append y z)
  simp [append]

end Trail

namespace Walk

/-- What a walk calls when it goes on over backends ahead. -/
def trailFrom (world : World) (w : Walk) : List Nat → Trail
  | [] => {}
  | b :: rest =>
    match world.begin b w.request with
    | (_, .waiting _ _) => { called := [b] }
    | (world, .over o) =>
      match w.weigh (world.nameOf b) o with
      | .inl _ => { called := [b], outcomes := [(b, o)] }
      | .inr w =>
        let trail := trailFrom world w rest
        { called := b :: trail.called, outcomes := (b, o) :: trail.outcomes }

/-- What a walk calls when the call of the first backend ahead is finished. -/
def trailAfter (world : World) (w : Walk) (held : Held) : Trail :=
  match w.todo with
  | [] => {}
  | b :: rest =>
    let (world, o) := world.finish b held
    match w.weigh (world.nameOf b) o with
    | .inl _ => { outcomes := [(b, o)] }
    | .inr w =>
      let trail := trailFrom world w rest
      { called := trail.called, outcomes := (b, o) :: trail.outcomes }

/-- A walk that goes on asks for the same. -/
theorem request_of_weigh {w w' : Walk} {name : String} {o : Outcome}
    (h : w.weigh name o = .inr w') : w'.request = w.request := by
  unfold weigh at h
  split at h <;> cases h <;> rfl

/-- A walk does nothing to the world but make its calls. -/
theorem world_goFrom (world : World) (w : Walk) (ahead : List Nat) :
    (w.goFrom world ahead).1 =
      (w.trailFrom world ahead).called.foldl (fun v b => (v.begin b w.request).1) world := by
  induction ahead generalizing world w with
  | nil => rfl
  | cons b rest ih =>
    unfold goFrom trailFrom
    cases hBegin : world.begin b w.request with
    | mk v begun =>
      rcases begun with o | ⟨delay, held⟩
      · simp only
        cases hWeigh : w.weigh (v.nameOf b) o with
        | inl e => simp [hBegin]
        | inr w' =>
          have hNext := ih v w'
          rw [request_of_weigh hWeigh] at hNext
          simp only [List.foldl_cons, hBegin]
          exact hNext
      · simp [hBegin]

end Walk

namespace World

/-- What has become of the object of a backend at an address when calls of a request have come to
their outcomes. -/
structure Receives (w : World) (b : Nat) (a : Address) (r : Request)
    (outcomes : List (Nat × Outcome)) (v : World) : Prop where
  frame : v.frame = w.frame
  taken : ∀ p ∈ outcomes, Lands p.1 r p.2 b a → v.HasTaken b r
  quiet : (∀ p ∈ outcomes, ¬ Lands p.1 r p.2 b a) → v.objectAt? b a = w.objectAt? b a

variable {u v w : World} {b position : Nat} {a : Address} {r : Request} {o : Outcome}
  {outcomes more : List (Nat × Outcome)}

theorem receives_of_quiet (hFrame : v.frame = w.frame) (hQuiet : v.objectAt? = w.objectAt?) :
    w.Receives b a r [] v :=
  ⟨hFrame, fun p hp => absurd hp List.not_mem_nil, fun _ => by rw [hQuiet]⟩

theorem receives_singleton (hApart : w.Apart b a) (h : w.ComesTo position r o v) :
    w.Receives b a r [(position, o)] v := by
  have hLands := h.lands hApart
  refine ⟨h.follows.frame, ?_, ?_⟩
  · intro p hp hHere
    rw [List.mem_singleton.mp hp] at hHere
    rcases hLands with ⟨-, hTaken⟩ | ⟨hNot, -⟩
    · exact hTaken
    · exact absurd hHere hNot
  · intro hNone
    rcases hLands with ⟨hHere, -⟩ | ⟨-, hSame⟩
    · exact absurd hHere (hNone _ (List.mem_singleton_self _))
    · exact hSame

/-- Calls of one request, one after the other: a write that has landed stays, or another one of the
same kind lands there. -/
theorem Receives.append (h : w.Receives b a r outcomes u) (h' : u.Receives b a r more v) :
    w.Receives b a r (outcomes ++ more) v := by
  refine ⟨h'.frame.trans h.frame, ?_, ?_⟩
  · intro p hp hHere
    by_cases hAgain : ∃ q ∈ more, Lands q.1 r q.2 b a
    · obtain ⟨q, hq, hLands⟩ := hAgain
      exact h'.taken q hq hLands
    · have hStays := h'.quiet fun q hq hLands => hAgain ⟨q, hq, hLands⟩
      have hOld : p ∈ outcomes := by
        rcases List.mem_append.mp hp with hOld | hNew
        · exact hOld
        · exact absurd ⟨p, hNew, hHere⟩ hAgain
      rw [← hHere.2.2.2] at hStays
      exact (h.taken p hOld hHere).of_objectAt?_eq h'.frame hStays
  · intro hNone
    have hFirst := h.quiet fun p hp => hNone p (List.mem_append_left _ hp)
    have hThen := h'.quiet fun p hp => hNone p (List.mem_append_right _ hp)
    exact hThen.trans hFirst

end World

namespace Walk

variable {w : World} {walk : Walk} {b : Nat} {a : Address}

/-- What a walk over backends ahead does to an object. -/
theorem receives_goFrom (hApart : w.Apart b a) (walk : Walk) (ahead : List Nat) :
    w.Receives b a walk.request (walk.trailFrom w ahead).outcomes (walk.goFrom w ahead).1 := by
  -- on the backends ahead; each call that is over at once comes first, the others after it
  induction ahead generalizing w walk with
  | nil => exact World.receives_of_quiet rfl rfl
  | cons c rest ih =>
    unfold trailFrom goFrom
    cases hBegin : w.begin c walk.request with
    | mk v begun =>
      rcases begun with o | ⟨delay, held⟩
      · have hCall := World.receives_singleton hApart (.begin hBegin)
        simp only
        cases hWeigh : walk.weigh (v.nameOf c) o with
        | inl e => exact hCall
        | inr next =>
          have hNext := ih (hApart.of_frame_eq hCall.frame) next
          rw [request_of_weigh hWeigh] at hNext
          exact hCall.append hNext
      · have hPauses := World.pauses_begin hBegin
        exact World.receives_of_quiet hPauses.frame hPauses.quiet

/-- What a walk does to an object when its call is finished. -/
theorem receives_resume {held : Held} (hApart : w.Apart b a) {c : Nat} {rest : List Nat}
    (hTodo : walk.todo = c :: rest) (hKeeps : w.Keeps c walk.request held) :
    w.Receives b a walk.request (walk.trailAfter w held).outcomes (walk.resume w held).1 := by
  have hCall := World.receives_singleton hApart (.finish hKeeps rfl)
  unfold trailAfter resume
  rw [hTodo]
  simp only
  cases hWeigh : walk.weigh ((w.finish c held).1.nameOf c) (w.finish c held).2 with
  | inl e => exact hCall
  | inr next =>
    have hNext := receives_goFrom (hApart.of_frame_eq hCall.frame) next rest
    rw [request_of_weigh hWeigh] at hNext
    exact hCall.append hNext

/-- A walk whose calls all spare the objects does so itself. -/
theorem objectAt?_goFrom (walk : Walk) (ahead : List Nat)
    (h : ∀ p ∈ (walk.trailFrom w ahead).outcomes, w.Spares p.1 walk.request p.2) :
    (walk.goFrom w ahead).1.objectAt? = w.objectAt? := by
  induction ahead generalizing w walk with
  | nil => rfl
  | cons c rest ih =>
    unfold trailFrom at h
    unfold goFrom
    cases hBegin : w.begin c walk.request with
    | mk v begun =>
      rw [hBegin] at h
      rcases begun with o | ⟨delay, held⟩
      · have hFollows := World.follows_begin hBegin
        simp only at h ⊢
        cases hWeigh : walk.weigh (v.nameOf c) o with
        | inl e =>
          rw [hWeigh] at h
          exact hFollows.quiet (h (c, o) List.mem_cons_self)
        | inr next =>
          rw [hWeigh] at h
          refine (ih next fun p hp => ?_).trans (hFollows.quiet (h (c, o) List.mem_cons_self))
          rw [request_of_weigh hWeigh]
          exact (h p (List.mem_cons_of_mem _ hp)).of_frame_eq hFollows.frame
      · exact (World.pauses_begin hBegin).quiet

theorem objectAt?_resume {held : Held} {c : Nat} {rest : List Nat} (hTodo : walk.todo = c :: rest)
    (hKeeps : w.Keeps c walk.request held)
    (h : ∀ p ∈ (walk.trailAfter w held).outcomes, w.Spares p.1 walk.request p.2) :
    (walk.resume w held).1.objectAt? = w.objectAt? := by
  have hFollows := World.follows_finish hKeeps
  unfold trailAfter at h
  unfold resume
  rw [hTodo] at h ⊢
  simp only at h ⊢
  cases hWeigh : walk.weigh ((w.finish c held).1.nameOf c) (w.finish c held).2 with
  | inl e =>
    rw [hWeigh] at h
    exact hFollows.quiet (h _ List.mem_cons_self)
  | inr next =>
    rw [hWeigh] at h
    refine (objectAt?_goFrom next rest fun p hp => ?_).trans
      (hFollows.quiet (h _ List.mem_cons_self))
    rw [request_of_weigh hWeigh]
    exact (h p (List.mem_cons_of_mem _ hp)).of_frame_eq hFollows.frame

end Walk

end ReplicatedStore

import ReplicatedStore.Proofs.Backend.Landing
import ReplicatedStore.Proofs.Session.Returning

/-!
# Mains that took a write

When a branch of a fan-out brings an answer, its main has taken the write. As long as nothing goes on
but the order and its fan-out, a main that keeps its objects itself has taken it for good, because
every main has one branch only and the other branches do not come near it.

Main results:

* `Session.hasTaken_of_outcome?` — an answer comes with its effect.
* `Session.hasTaken_of_run?` — the effect stays whatever becomes of the other branches.
-/

namespace ReplicatedStore

theorem World.nodup_mains (w : World) : w.mains.Nodup := List.nodup_range.filter _

namespace Session

variable {s t : Session} {ticket fan : Nat} {r : Request} {deadline : Option Duration} {f : FanOut}
  {begun : List Nat} {outcomes : List (Nat × Outcome)} {m : Move}

/-- A branch that brings an answer has brought the write to its main. -/
theorem hasTaken_of_outcome? (h : Joining s ticket fan r deadline f begun outcomes)
    (hMove : s.move? m = some t) {j b : Nat} {x : Answer}
    (hOutcome : s.outcome? fan m = some (j, .answered x)) (hMain : s.world.mains[j]? = some b) :
    t.world.HasTaken b r := by
  have hFan : ConcernsFan fan m := by
    by_contra hNot
    rw [outcome?_of_not_concernsFan hNot] at hOutcome
    contradiction
  rcases call_of_move? h hFan hMove with ⟨j', o, b', hOutcome', hMain', hFollows⟩ | ⟨hNone, -⟩
  · rw [hOutcome] at hOutcome'
    cases hOutcome'
    rw [hMain] at hMain'
    cases hMain'
    exact hFollows.taken rfl
  · rw [hNone] at hOutcome
    contradiction

/-- The event of a branch is a step of its own main, and of no other backend. -/
theorem exists_branch_of_concernsFan (h : Joining s ticket fan r deadline f begun outcomes)
    (hFan : ConcernsFan fan m) (hMove : s.move? m = some t) :
    ∃ j b, s.world.mains[j]? = some b ∧ j ∉ outcomes.map (·.1) ∧
      (∀ p, s.outcome? fan m = some p → p.1 = j) ∧
      ∀ other, b ≠ other → t.world.backends[other]? = s.world.backends[other]? := by
  cases hFan with
  | start branch =>
    obtain ⟨f', b, hf, hb, hQueued, hCall⟩ := start?_eq_some hMove
    rw [h.fanOut] at hf
    cases hf
    -- a queued branch has no outcome yet, so the one it comes to is its first
    refine ⟨branch, b.backend, h.backend_eq hb, ?_, ?_, fun other hOther => ?_⟩
    · rw [h.tally.done_iff branch b hb, hQueued]
      simp
    · intro p hp
      simp only [outcome?, h.fanOut, hb, Option.bind_eq_bind, Option.bind_some, if_true] at hp
      split at hp
      · cases hp
        rfl
      · contradiction
    · have hSame := World.getElem?_begin_of_ne s.world hOther f.request
      rcases hCall with ⟨world, delay, held, hBegin, rfl⟩ | ⟨world, o, hBegin, rfl⟩
      · rw [hBegin] at hSame
        exact hSame
      · rw [hBegin] at hSame
        exact hSame
  | complete branch =>
    obtain ⟨f', b, due, held, hf, hb, hRunning, -, rfl⟩ := complete?_eq_some hMove
    rw [h.fanOut] at hf
    cases hf
    refine ⟨branch, b.backend, h.backend_eq hb, ?_, ?_, fun other hOther => ?_⟩
    · rw [h.tally.done_iff branch b hb, hRunning]
      simp
    · intro p hp
      simp only [outcome?, h.fanOut, hb, hRunning, Option.bind_eq_bind, Option.bind_some, if_true,
        Option.some.injEq] at hp
      rw [← hp]
    · exact World.getElem?_finish_of_ne s.world hOther held

theorem world_settle (s : Session) (a : Address) (result : Except StoreError Answer) :
    (s.settle a result).world = s.world := by
  unfold settle
  split
  · rfl
  · split <;> rfl

theorem world_endFan (s : Session) (ticket : Nat) (r : Request) (f : FanOut) :
    (s.endFan ticket r f).world = s.world := world_settle ..

/-- Of the moves of an order and its fan-out only those of branches turn to the world. -/
theorem world_of_isOwn (h : Joining s ticket fan r deadline f begun outcomes)
    (hOwn : IsOwn ticket fan m) (hMove : s.move? m = some t) :
    ConcernsFan fan m ∨ t.world = s.world := by
  -- events of the order itself settle the cache and give the result
  cases hOwn with
  | branch hFan => exact .inl hFan
  | tick time =>
    right
    cases hMove
    unfold tick
    split <;> rfl
  | order hOrder =>
    right
    cases hOrder with
    | resume =>
      obtain ⟨r', _, _, _, _, hr, -, hActivity, -⟩ := resume?_eq_some hMove
      rw [h.order] at hr
      cases hr
      contradiction
    | expire =>
      obtain ⟨r', deadline', request, after, -, -, -, -, rfl⟩ := expire?_eq_some hMove
      show (s.giveUp r'.activity).world = s.world
      rw [giveUp_eq]
    | join =>
      obtain ⟨r', hr, ⟨request, fan', f', hRequest, hActivity, hf, hFinished, rfl⟩ |
        ⟨fans, hActivity, -⟩⟩ := join?_eq_some hMove
      · exact world_endFan ..
      · rw [h.order] at hr
        cases hr
        contradiction

/-- Whether the mains that brought an answer and keep their objects themselves have taken a write. -/
def AllTaken (s : Session) (r : Request) (outcomes : List (Nat × Outcome)) : Prop :=
  ∀ j x b, (j, .answered x) ∈ outcomes → s.world.mains[j]? = some b → s.world.IsKept b →
    s.world.HasTaken b r

theorem AllTaken.of_world_eq (h : AllTaken s r outcomes) (hWorld : t.world = s.world) :
    AllTaken t r outcomes := by
  intro j x b hMem
  rw [hWorld]
  exact h j x b hMem

theorem allTaken_of_move? (h : Joining s ticket fan r deadline f begun outcomes)
    (hTaken : AllTaken s r outcomes) (hOwn : IsOwn ticket fan m) (hMove : s.move? m = some t) :
    AllTaken t r (outcomes ++ (s.outcome? fan m).toList) := by
  by_cases hFan : ConcernsFan fan m
  · obtain ⟨j', b', hMain', hNew, hSame, hOthers⟩ := exists_branch_of_concernsFan h hFan hMove
    have hFrame := (goesOn_of_move? hMove).frame
    intro j x b hMem hMain hKept
    rw [World.mains_of_frame_eq hFrame] at hMain
    rcases List.mem_append.mp hMem with hOld | hLast
    · -- a branch that is finished is another one, so its main is another one
      have hDone : j ∈ outcomes.map (·.1) := List.mem_map.mpr ⟨_, hOld, rfl⟩
      have hNe : b' ≠ b := by
        rintro rfl
        have hlt := (List.getElem?_eq_some_iff.mp hMain').1
        have hEq : j' = j := (List.getElem?_inj hlt s.world.nodup_mains).mp (hMain'.trans hMain.symm)
        exact hNew (hEq ▸ hDone)
      obtain ⟨backend, hBackend, hIsKept⟩ := hKept.of_frame_eq hFrame.symm
      exact (hTaken j x b hOld hMain ⟨backend, hBackend, hIsKept⟩).of_backend_eq hBackend hIsKept
        (hOthers b hNe)
    · rw [Option.mem_toList] at hLast
      exact hasTaken_of_outcome? h hMove hLast hMain
  · rw [outcome?_of_not_concernsFan hFan, Option.toList_none, List.append_nil]
    rcases world_of_isOwn h hOwn hMove with hConcerns | hWorld
    · exact absurd hConcerns hFan
    · exact hTaken.of_world_eq hWorld

/-- What mains have taken stays with them until the order ends. -/
theorem allTaken_of_run? {moves : List Move}
    (h : Joining s ticket fan r deadline f begun outcomes) (hTaken : AllTaken s r outcomes)
    (hOwn : ∀ m ∈ moves, IsOwn ticket fan m) (hRun : s.run? moves = some t)
    (hOpen : t.ended? ticket = none) : AllTaken t r (outcomes ++ Session.outcomes fan s moves) := by
  induction moves generalizing s f begun outcomes with
  | nil =>
    rw [Session.run?, Option.some.injEq] at hRun
    subst hRun
    simpa [Session.outcomes, noted] using hTaken
  | cons m rest ih =>
    obtain ⟨u, hMove, hRest⟩ := run?_cons_eq_some.mp hRun
    have hNextTaken := allTaken_of_move? h hTaken (hOwn m List.mem_cons_self) hMove
    have hOwnRest : ∀ m ∈ rest, IsOwn ticket fan m := fun m hm =>
      hOwn m (List.mem_cons_of_mem _ hm)
    rcases joining_of_move? h hMove with ⟨g, hNext⟩ | ⟨-, -, rfl⟩ | ⟨-, after, -, -, rfl⟩
    · have hEnd := ih hNext hNextTaken hOwnRest hRest
      rw [Session.outcomes, noted, hMove, ← List.append_assoc]
      exact hEnd
    · have hOver := (over_endFan h hMove).run? hRest
      rw [hOver.ended] at hOpen
      contradiction
    · have hOver := (over_expire h hMove).run? hRest
      rw [hOver.ended] at hOpen
      contradiction

end Session

end ReplicatedStore

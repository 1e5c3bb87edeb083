import ReplicatedStore.Proofs.Session.Apart
import ReplicatedStore.Proofs.Session.Tally

/-!
# Orders that join a fan-out

As long as an order joins a fan-out over the mains, the tally of the fan-out is told by the moves that
were made: which branches they began, and the outcomes that they brought. This holds whatever else
goes on in the session, since nobody else turns to the fan-out. The order ends in one of two ways: it
finds the fan-out finished, or its deadline passes.

Main results:

* `Session.joining_startFan` — the invariant holds when the fan-out has been started.
* `Session.joining_of_move?`, `Session.joining_of_run?` — it is kept until the order ends.
* `Session.call_of_move?` — what a branch does to the objects of the world.
-/

namespace ReplicatedStore

namespace Session

/-! ## What moves do for a fan-out -/

/-- The branch of a fan-out that a move begins, if it begins one. -/
def begun? (fan : Nat) : Move → Option Nat
  | .event (.start other branch) => if other = fan then some branch else none
  | _ => none

/-- The outcome that a move brings to a branch of a fan-out, if it brings one. -/
def outcome? (s : Session) (fan : Nat) : Move → Option (Nat × Outcome)
  | .event (.start other branch) => do
    let f ← s.fans[other]?
    let b ← f.branches[branch]?
    match (s.world.begin b.backend f.request).2 with
    | .over o => if other = fan then some (branch, o) else none
    | .waiting .. => none
  | .event (.complete other branch) => do
    let f ← s.fans[other]?
    let b ← f.branches[branch]?
    match b.state with
    | .running _ held =>
      if other = fan then some (branch, (s.world.finish b.backend held).2) else none
    | _ => none
  | _ => none

/-- What is noted of a run, move by move. -/
def noted {α : Type} (note : Session → Move → Option α) : Session → List Move → List α
  | _, [] => []
  | s, m :: rest =>
    (note s m).toList ++
      match s.move? m with
      | none => []
      | some t => noted note t rest

/-- The outcomes that moves bring to the branches of a fan-out, in order. -/
def outcomes (fan : Nat) (s : Session) (moves : List Move) : List (Nat × Outcome) :=
  s.noted (fun s => s.outcome? fan) moves

theorem noted_append {α : Type} (note : Session → Move → Option α) {s t : Session}
    {first : List Move} (h : s.run? first = some t) (rest : List Move) :
    s.noted note (first ++ rest) = s.noted note first ++ t.noted note rest := by
  induction first generalizing s with
  | nil =>
    rw [run?, Option.some.injEq] at h
    rw [h]
    rfl
  | cons m first ih =>
    obtain ⟨u, hMove, hRun⟩ := run?_cons_eq_some.mp h
    rw [List.cons_append, noted, noted, hMove]
    simp only [ih hRun, List.append_assoc]

theorem noted_singleton {α : Type} (note : Session → Move → Option α) (s : Session) (m : Move) :
    s.noted note [m] = (note s m).toList := by
  rw [noted]
  cases s.move? m <;> simp [noted]

theorem filterMap_begun?_cons (fan : Nat) (m : Move) (rest : List Move) :
    (m :: rest).filterMap (begun? fan) = (begun? fan m).toList ++ rest.filterMap (begun? fan) := by
  cases hm : begun? fan m <;> simp [hm]

theorem begun?_of_not_concernsFan {fan : Nat} {m : Move} (h : ¬ ConcernsFan fan m) :
    begun? fan m = none := by
  unfold begun?
  split
  · rename_i other branch
    have hNe : ¬ other = fan := fun hEq => h (hEq ▸ .start branch)
    exact if_neg hNe
  · rfl

theorem outcome?_of_not_concernsFan {s : Session} {fan : Nat} {m : Move}
    (h : ¬ ConcernsFan fan m) : s.outcome? fan m = none := by
  unfold outcome?
  split
  · rename_i other branch
    have hNe : ¬ other = fan := fun hEq => h (hEq ▸ .start branch)
    simp only [Option.bind_eq_bind, Option.bind_eq_none_iff, if_neg hNe]
    intro f _ b _
    split <;> rfl
  · rename_i other branch
    have hNe : ¬ other = fan := fun hEq => h (hEq ▸ .complete branch)
    simp only [Option.bind_eq_bind, Option.bind_eq_none_iff, if_neg hNe]
    intro f _ b _
    split <;> rfl
  · rfl

/-! ## Orders that are over -/

/-- Whether an order has ended for good. -/
structure Over (s : Session) (ticket : Nat) (e : Ended) : Prop where
  sound : s.Sound
  given : ticket < s.tickets
  running : s.running? ticket = none
  ended : s.ended? ticket = some e

theorem running?_finish_self (s : Session) (ticket : Nat) (e : Ended) :
    (s.finish ticket e).running? ticket = none := by
  simp [running?, finish]

theorem running?_suspend_self (s : Session) (r : Running) :
    (s.suspend r).running? r.ticket = some r := by
  have hNone : (s.running.filter (·.ticket != r.ticket)).find? (·.ticket == r.ticket) = none := by
    rw [List.find?_eq_none]
    intro other h
    simpa using (List.mem_filter.mp h).2
  show List.find? _ (s.running.filter (·.ticket != r.ticket) ++ [r]) = _
  rw [List.find?_append, hNone]
  simp

theorem ended?_finish_self (s : Session) (ticket : Nat) (e : Ended) :
    (s.finish ticket e).ended? ticket = some e := by
  simp [ended?, finish]

/-- Only an order that is under way is concerned by a move. -/
theorem running?_of_concernsOrder {s t : Session} {ticket : Nat} {m : Move}
    (h : ConcernsOrder ticket m) (hMove : s.move? m = some t) :
    ∃ r, s.running? ticket = some r := by
  cases h with
  | resume =>
    obtain ⟨r, _, _, _, _, hr, -⟩ := resume?_eq_some hMove
    exact ⟨r, hr⟩
  | expire =>
    obtain ⟨r, _, _, _, hr, -⟩ := expire?_eq_some hMove
    exact ⟨r, hr⟩
  | join =>
    obtain ⟨r, hr, -⟩ := join?_eq_some hMove
    exact ⟨r, hr⟩

theorem Over.move? {s t : Session} {ticket : Nat} {e : Ended} {m : Move} (h : s.Over ticket e)
    (hMove : s.move? m = some t) : t.Over ticket e := by
  have hOther : ¬ ConcernsOrder ticket m := by
    intro hConcerns
    obtain ⟨r, hr⟩ := running?_of_concernsOrder hConcerns hMove
    rw [h.running] at hr
    contradiction
  have hLeaves := leavesOrder_of_move? h.given hOther hMove
  exact ⟨sound_of_move? h.sound hMove, Nat.lt_of_lt_of_le h.given (goesOn_of_move? hMove).tickets,
    hLeaves.running.trans h.running, hLeaves.ended.trans h.ended⟩

theorem Over.run? {s t : Session} {ticket : Nat} {e : Ended} {moves : List Move}
    (h : s.Over ticket e) (hRun : s.run? moves = some t) : t.Over ticket e := by
  refine run?_induction (P := fun s => s.Over ticket e) hRun h ?_
  intro a b m hOver hMove
  exact hOver.move? hMove

/-! ## Orders that join -/

/-- An order that joins a fan-out over the mains, with the tally of the fan-out. -/
structure Joining (s : Session) (ticket fan : Nat) (r : Request) (deadline : Option Duration)
    (f : FanOut) (begun : List Nat) (outcomes : List (Nat × Outcome)) : Prop where
  sound : s.Sound
  order : s.running? ticket =
    some { ticket, order := .request r, deadline, activity := .joining fan }
  unended : s.ended? ticket = none
  joiners : ∀ other ∈ s.running, other.activity = .joining fan → other.ticket = ticket
  fanOut : s.fans[fan]? = some f
  request : f.request = r
  backends : f.branches.map (·.backend) = s.world.mains
  tally : f.Tally s.world begun outcomes

theorem ended?_of_sound {s : Session} (h : s.Sound) {ticket : Nat} (hTicket : s.tickets ≤ ticket) :
    s.ended? ticket = none := by
  rw [ended?, List.lookup_eq_none_iff]
  intro e he
  have := h.ended e he
  simp only [bne_iff_ne, ne_eq]
  omega

/-- An order whose fan-out over the mains has just been started. -/
theorem joining_startFan {s : Session} (hs : s.Sound) (r : Request) :
    Joining ({ s with tickets := s.tickets + 1 }.startFan s.tickets r) s.tickets s.fans.length r
      s.deadline (.ofBackends r s.world.mains false) [] [] := by
  have hAdvances := advances_startFan { s with tickets := s.tickets + 1 } s.tickets r
  refine ⟨hAdvances.sound hs.taken (Nat.lt_succ_self _), running?_suspend_self .., ?_, ?_, ?_, rfl,
    ?_, ?_⟩
  · exact ended?_of_sound hs (Nat.le_refl _)
  · intro other hOther hJoins
    rcases List.mem_append.mp hOther with hOld | hNew
    · -- nobody joins a fan-out before it is started
      have := hs.fans other (List.mem_filter.mp hOld).1 _ hJoins
      omega
    · rw [List.mem_singleton.mp hNew]
  · simp [startFan, fanOut, suspend]
  · exact FanOut.backends_ofBackends r s.world.mains false
  · exact FanOut.tally_ofBackends ..

/-! ## The invariant is kept -/

variable {s t : Session} {ticket fan : Nat} {r : Request} {deadline : Option Duration} {f : FanOut}
  {begun : List Nat} {outcomes : List (Nat × Outcome)} {m : Move}

theorem getElem?_modifyFan_self {s : Session} {fan : Nat} {f : FanOut} (h : s.fans[fan]? = some f)
    (change : FanOut → FanOut) : (s.modifyFan fan change).fans[fan]? = some (change f) := by
  simp [modifyFan, h]

/-- A fan-out over backends with its tally, whoever waits for it. -/
structure Tallied (s : Session) (fan : Nat) (r : Request) (backends : List Nat) (f : FanOut)
    (begun : List Nat) (outcomes : List (Nat × Outcome)) : Prop where
  fanOut : s.fans[fan]? = some f
  request : f.request = r
  backends : f.branches.map (·.backend) = backends
  tally : f.Tally s.world begun outcomes

/-- What a move does to a branch of a fan-out over backends: it brings an outcome, or no object is
touched. -/
def CallAmong (s t : Session) (fan : Nat) (r : Request) (backends : List Nat) (m : Move) : Prop :=
  (∃ j o b, s.outcome? fan m = some (j, o) ∧ backends[j]? = some b ∧
    s.world.Follows b r o t.world) ∨
  s.outcome? fan m = none ∧ t.world.objectAt? = s.world.objectAt?

/-- What a move does to a branch of a fan-out over the mains. -/
def CallOf (s t : Session) (fan : Nat) (r : Request) (m : Move) : Prop :=
  (∃ j o b, s.outcome? fan m = some (j, o) ∧ s.world.mains[j]? = some b ∧
    s.world.Follows b r o t.world) ∨
  s.outcome? fan m = none ∧ t.world.objectAt? = s.world.objectAt?

namespace Tallied

variable {backends : List Nat}

theorem backend_eq (h : Tallied s fan r backends f begun outcomes) {branch : Nat} {b : Branch}
    (hb : f.branches[branch]? = some b) : backends[branch]? = some b.backend := by
  rw [← h.backends, List.getElem?_map, hb]
  rfl

theorem modifyFan (h : Tallied s fan r backends f begun outcomes) {world : World}
    {change : FanOut → FanOut} {begun' : List Nat} {outcomes' : List (Nat × Outcome)}
    (hRequest : (change f).request = r)
    (hBackends : (change f).branches.map (·.backend) = f.branches.map (·.backend))
    (hTally : (change f).Tally world begun' outcomes') :
    Tallied ({ s with world }.modifyFan fan change) fan r backends (change f) begun' outcomes' :=
  ⟨getElem?_modifyFan_self h.fanOut change, hRequest, hBackends.trans h.backends, hTally⟩

theorem of_start? (h : Tallied s fan r backends f begun outcomes) {branch : Nat}
    (hMove : s.move? (.event (.start fan branch)) = some t) :
    (∃ g, Tallied t fan r backends g (begun ++ [branch])
        (outcomes ++ (s.outcome? fan (.event (.start fan branch))).toList)) ∧
      CallAmong s t fan r backends (.event (.start fan branch)) := by
  obtain ⟨f', b, hf', hb, hQueued, hCall⟩ := start?_eq_some hMove
  rw [h.fanOut] at hf'
  cases hf'
  rw [h.request] at hCall
  -- the call waits and nothing is noted, or it is over at once and its outcome is
  rcases hCall with ⟨world, delay, held, hBegin, rfl⟩ | ⟨world, o, hBegin, rfl⟩
  · have hPauses := World.pauses_begin hBegin
    have hOutcome : s.outcome? fan (.event (.start fan branch)) = none := by
      simp [outcome?, h.fanOut, hb, h.request, hBegin]
    refine ⟨⟨f.setState branch (.running (s.now + delay) held), ?_⟩, .inr ⟨hOutcome, hPauses.quiet⟩⟩
    rw [hOutcome, Option.toList_none, List.append_nil]
    refine h.modifyFan h.request (FanOut.backends_setState ..) ?_
    refine (h.tally.of_frame_eq hPauses.frame).begin_waiting hb hQueued ?_
    rw [h.request]
    exact hPauses.keeps
  · have hFollows := World.follows_begin hBegin
    have hOutcome : s.outcome? fan (.event (.start fan branch)) = some (branch, o) := by
      simp [outcome?, h.fanOut, hb, h.request, hBegin]
    refine ⟨⟨f.complete branch (world.nameOf b.backend) o, ?_⟩,
      .inl ⟨branch, o, b.backend, hOutcome, h.backend_eq hb, hFollows⟩⟩
    rw [hOutcome]
    refine h.modifyFan h.request (FanOut.backends_setState ..) ?_
    exact (h.tally.of_frame_eq hFollows.frame).begin_over hb hQueued

theorem of_complete? (h : Tallied s fan r backends f begun outcomes) {branch : Nat}
    (hMove : s.move? (.event (.complete fan branch)) = some t) :
    (∃ g, Tallied t fan r backends g begun
        (outcomes ++ (s.outcome? fan (.event (.complete fan branch))).toList)) ∧
      CallAmong s t fan r backends (.event (.complete fan branch)) := by
  obtain ⟨f', b, due, held, hf', hb, hRunning, hDue, rfl⟩ := complete?_eq_some hMove
  rw [h.fanOut] at hf'
  cases hf'
  have hKeeps := h.tally.keeps branch b due held hb hRunning
  rw [h.request] at hKeeps
  have hFollows := World.follows_finish hKeeps
  have hOutcome : s.outcome? fan (.event (.complete fan branch)) =
      some (branch, (s.world.finish b.backend held).2) := by
    simp [outcome?, h.fanOut, hb, hRunning]
  refine ⟨⟨f.complete branch ((s.world.finish b.backend held).1.nameOf b.backend)
    (s.world.finish b.backend held).2, ?_⟩,
    .inl ⟨branch, _, b.backend, hOutcome, h.backend_eq hb, hFollows⟩⟩
  rw [hOutcome]
  refine h.modifyFan h.request (FanOut.backends_setState ..) ?_
  exact (h.tally.of_frame_eq hFollows.frame).finish hb hRunning

/-- An event of one of its branches keeps the tally of a fan-out. -/
theorem of_concernsFan (h : Tallied s fan r backends f begun outcomes) (hFan : ConcernsFan fan m)
    (hMove : s.move? m = some t) :
    (∃ g, Tallied t fan r backends g (begun ++ (begun? fan m).toList)
        (outcomes ++ (s.outcome? fan m).toList)) ∧ CallAmong s t fan r backends m := by
  cases hFan with
  | start branch => simpa [begun?] using h.of_start? hMove
  | complete branch => simpa [begun?] using h.of_complete? hMove

end Tallied

theorem Joining.tallied (h : Joining s ticket fan r deadline f begun outcomes) :
    Tallied s fan r s.world.mains f begun outcomes :=
  ⟨h.fanOut, h.request, h.backends, h.tally⟩

theorem Joining.backend_eq (h : Joining s ticket fan r deadline f begun outcomes) {branch : Nat}
    {b : Branch} (hb : f.branches[branch]? = some b) : s.world.mains[branch]? = some b.backend :=
  h.tallied.backend_eq hb

/-- The order goes on to join its fan-out when one of the branches has changed. -/
theorem Joining.of_tallied (h : Joining s ticket fan r deadline f begun outcomes)
    (hFan : ConcernsFan fan m) (hMove : s.move? m = some t) {g : FanOut} {begun' : List Nat}
    {outcomes' : List (Nat × Outcome)} (hg : Tallied t fan r s.world.mains g begun' outcomes') :
    Joining t ticket fan r deadline g begun' outcomes' := by
  have hSound := sound_of_move? h.sound hMove
  have hMains := World.mains_of_frame_eq (goesOn_of_move? hMove).frame
  have hSame : ∃ world change, t = { s with world }.modifyFan fan change := by
    cases hFan with
    | start branch =>
      obtain ⟨world, change, -, hEq⟩ := start?_eq_modifyFan hMove
      exact ⟨world, change, hEq⟩
    | complete branch =>
      obtain ⟨world, change, -, hEq⟩ := complete?_eq_modifyFan hMove
      exact ⟨world, change, hEq⟩
  obtain ⟨world, change, rfl⟩ := hSame
  exact ⟨hSound, h.order, h.unended, h.joiners, hg.fanOut, hg.request, hg.backends.trans hMains.symm,
    hg.tally⟩

theorem joining_of_concernsFan (h : Joining s ticket fan r deadline f begun outcomes)
    (hFan : ConcernsFan fan m) (hMove : s.move? m = some t) :
    (∃ g, Joining t ticket fan r deadline g (begun ++ (begun? fan m).toList)
        (outcomes ++ (s.outcome? fan m).toList)) ∧ CallOf s t fan r m := by
  obtain ⟨⟨g, hg⟩, hCall⟩ := h.tallied.of_concernsFan hFan hMove
  exact ⟨⟨g, h.of_tallied hFan hMove hg⟩, hCall⟩

theorem joining_of_start? (h : Joining s ticket fan r deadline f begun outcomes) {branch : Nat}
    (hMove : s.move? (.event (.start fan branch)) = some t) :
    ∃ g, Joining t ticket fan r deadline g (begun ++ [branch])
      (outcomes ++ (s.outcome? fan (.event (.start fan branch))).toList) := by
  have hNext := (joining_of_concernsFan h (.start branch) hMove).1
  simpa [begun?] using hNext

theorem joining_of_complete? (h : Joining s ticket fan r deadline f begun outcomes) {branch : Nat}
    (hMove : s.move? (.event (.complete fan branch)) = some t) :
    ∃ g, Joining t ticket fan r deadline g begun
      (outcomes ++ (s.outcome? fan (.event (.complete fan branch))).toList) := by
  have hNext := (joining_of_concernsFan h (.complete branch) hMove).1
  simpa [begun?] using hNext

/-- A move that does not concern the order or its fan-out. -/
theorem joining_of_others (h : Joining s ticket fan r deadline f begun outcomes)
    (hOther : ¬ ConcernsOrder ticket m) (hOtherFan : ¬ ConcernsFan fan m)
    (hMove : s.move? m = some t) : Joining t ticket fan r deadline f begun outcomes := by
  have hGoesOn := goesOn_of_move? hMove
  have hTicket : ticket < s.tickets := by
    obtain ⟨hMem, -⟩ := mem_of_running? h.order
    exact h.sound.running _ hMem
  have hFan : fan < s.fans.length := (List.getElem?_eq_some_iff.mp h.fanOut).1
  have hOrder := leavesOrder_of_move? hTicket hOther hMove
  have hLeaves := leavesFan_of_move? hFan h.joiners hOther hOtherFan hMove
  refine ⟨sound_of_move? h.sound hMove, hOrder.running.trans h.order,
    hOrder.ended.trans h.unended, ?_, hLeaves.branches.trans h.fanOut, h.request, ?_,
    h.tally.of_frame_eq hGoesOn.frame⟩
  · intro other hMem hJoins
    exact h.joiners other (hLeaves.joiners other hMem hJoins) hJoins
  · rw [h.backends, World.mains_of_frame_eq hGoesOn.frame]

/-- The order goes on to join its fan-out, or it ends: it finds the fan-out finished, or its deadline
has passed. -/
theorem joining_of_move? (h : Joining s ticket fan r deadline f begun outcomes)
    (hMove : s.move? m = some t) :
    (∃ g, Joining t ticket fan r deadline g (begun ++ (begun? fan m).toList)
        (outcomes ++ (s.outcome? fan m).toList)) ∨
      (m = .event (.join ticket) ∧ f.isFinished = true ∧ t = s.endFan ticket r f) ∨
        m = .event (.expire ticket) ∧ ∃ after, s.timeout = some after ∧ deadline ≠ none ∧
          t = (s.modifyFan fan (·.cancel)).return_ ticket (.error (.timeout r.operation after)) := by
  -- a move is about the order, about a branch of its fan-out, or about neither
  by_cases hOrder : ConcernsOrder ticket m
  · cases hOrder with
    | resume =>
      obtain ⟨r', _, _, _, _, hr, -, hActivity, -⟩ := resume?_eq_some hMove
      rw [h.order] at hr
      cases hr
      contradiction
    | expire =>
      obtain ⟨r', deadline', request, after, hr, hDeadline, hRequest, hTimeout, rfl⟩ :=
        expire?_eq_some hMove
      rw [h.order] at hr
      cases hr
      cases hRequest
      refine .inr (.inr ⟨rfl, after, hTimeout, ?_, rfl⟩)
      rw [show deadline = some deadline' from hDeadline]
      simp
    | join =>
      obtain ⟨r', hr, ⟨request, fan', f', hRequest, hActivity, hf, hFinished, rfl⟩ |
        ⟨fans, hActivity, -⟩⟩ := join?_eq_some hMove
      · rw [h.order] at hr
        cases hr
        cases hRequest
        cases hActivity
        rw [h.fanOut] at hf
        cases hf
        exact .inr (.inl ⟨rfl, hFinished, rfl⟩)
      · rw [h.order] at hr
        cases hr
        contradiction
  · left
    by_cases hFan : ConcernsFan fan m
    · exact (joining_of_concernsFan h hFan hMove).1
    · refine ⟨f, ?_⟩
      rw [begun?_of_not_concernsFan hFan, outcome?_of_not_concernsFan hFan, Option.toList_none,
        List.append_nil, Option.toList_none, List.append_nil]
      exact joining_of_others h hOrder hFan hMove

/-- What an event of a branch does to the objects of the world. -/
theorem call_of_move? (h : Joining s ticket fan r deadline f begun outcomes)
    (hFan : ConcernsFan fan m) (hMove : s.move? m = some t) : CallOf s t fan r m :=
  (joining_of_concernsFan h hFan hMove).2

/-- A finished fan-out with an answer succeeds, or fails in part. -/
theorem verdict_of_answered {w : World} {f : FanOut} (h : f.Tally w begun outcomes)
    (hFinished : f.isFinished = true) (hAnswered : ∃ p ∈ outcomes, p.2.isAnswered = true) :
    f.verdict = none ∨ ∃ e, f.verdict = some e ∧ e.isPartial = true := by
  have hTotal : outcomes.length = f.branches.length := by
    simpa using (h.perm_range hFinished).2.length_eq
  -- the branch that was answered is not among the failures
  have hLess : f.errors.length < f.branches.length := by
    obtain ⟨⟨j, o⟩, hp, hIs⟩ := hAnswered
    have hNone : f.failureOf? w (j, o) = none := by
      cases o with
      | answered x => cases hb : f.branches[j]? <;> simp [FanOut.failureOf?, FanOut.error?, hb]
      | failed failure => simp [Outcome.isAnswered] at hIs
      | crashed reason => simp [Outcome.isAnswered] at hIs
    rw [h.errors, List.length_filterMap_eq_countP, ← hTotal]
    have hNot : ¬ ∀ q ∈ outcomes, (f.failureOf? w q).isSome = true := by
      intro hAll
      have := hAll (j, o) hp
      rw [hNone] at this
      contradiction
    exact Nat.lt_of_le_of_ne List.countP_le_length fun hEq => hNot (List.countP_eq_length.mp hEq)
  unfold FanOut.verdict StoreError.aggregate
  split
  · exact .inl rfl
  · rename_i e hErrors hOne
    rw [hErrors, hOne] at hLess
    simp at hLess
  · rw [if_neg (Nat.not_le_of_lt hLess)]
    exact .inr ⟨_, rfl, rfl⟩

/-- How a write to all mains ends by their verdict. -/
def endOfVerdict (verdict : Option StoreError) : Ended :=
  .returned (match verdict with
    | none => .ok .done
    | some e => .error e)

/-- Whether an order's end tells that a backend has changed: success does, and failure in part. -/
def tells : Ended → Bool
  | .returned (.ok _) => true
  | .returned (.error e) => e.isPartial
  | .crashed _ => false

theorem tells_endOfVerdict {verdict : Option StoreError}
    (h : verdict = none ∨ ∃ e, verdict = some e ∧ e.isPartial = true) :
    tells (endOfVerdict verdict) = true := by
  rcases h with rfl | ⟨e, rfl, hPartial⟩
  · rfl
  · exact hPartial

/-- The cache forgets an object exactly if the result tells that a backend has changed. -/
theorem find?_settle_eq_none_iff (s : Session) (a : Address) (result : Except StoreError Answer) :
    (s.settle a result).watched.cache.find? a.key = none ↔
      tells (.returned result) = true ∨ s.watched.cache.find? a.key = none := by
  have hGone : (s.watched.invalidate a.key).cache.find? a.key = none := Cache.find?_erase_self ..
  cases result with
  | ok x => exact iff_of_true hGone (.inl rfl)
  | error e =>
    by_cases hPartial : e.isPartial = true
    · simp only [settle, if_pos hPartial]
      exact iff_of_true hGone (.inl hPartial)
    · simp [settle, tells, hPartial]

theorem over_endFan (h : Joining s ticket fan r deadline f begun outcomes)
    (hMove : s.move? m = some (s.endFan ticket r f)) :
    (s.endFan ticket r f).Over ticket (endOfVerdict f.verdict) := by
  obtain ⟨hMem, -⟩ := mem_of_running? h.order
  have hGoesOn := goesOn_of_move? hMove
  exact ⟨sound_of_move? h.sound hMove,
    Nat.lt_of_lt_of_le (h.sound.running _ hMem) hGoesOn.tickets, running?_finish_self ..,
    ended?_finish_self ..⟩

theorem over_expire (h : Joining s ticket fan r deadline f begun outcomes) {e : StoreError}
    (hMove : s.move? m = some ((s.modifyFan fan (·.cancel)).return_ ticket (.error e))) :
    ((s.modifyFan fan (·.cancel)).return_ ticket (.error e)).Over ticket (.returned (.error e)) := by
  obtain ⟨hMem, -⟩ := mem_of_running? h.order
  have hGoesOn := goesOn_of_move? hMove
  exact ⟨sound_of_move? h.sound hMove,
    Nat.lt_of_lt_of_le (h.sound.running _ hMem) hGoesOn.tickets, running?_finish_self ..,
    ended?_finish_self ..⟩

/-- Until the order ends, the tally of its fan-out is told by the moves. -/
theorem joining_of_run? {moves : List Move} (h : Joining s ticket fan r deadline f begun outcomes)
    (hRun : s.run? moves = some t) (hOpen : t.ended? ticket = none) :
    ∃ g, Joining t ticket fan r deadline g (begun ++ moves.filterMap (begun? fan))
      (outcomes ++ Session.outcomes fan s moves) := by
  induction moves generalizing s f begun outcomes with
  | nil =>
    rw [Session.run?, Option.some.injEq] at hRun
    subst hRun
    exact ⟨f, by simpa [Session.outcomes, noted] using h⟩
  | cons m rest ih =>
    obtain ⟨u, hMove, hRest⟩ := run?_cons_eq_some.mp hRun
    rcases joining_of_move? h hMove with ⟨g, hNext⟩ | ⟨-, -, rfl⟩ | ⟨-, after, -, -, rfl⟩
    · obtain ⟨g', hEnd⟩ := ih hNext hRest
      refine ⟨g', ?_⟩
      rw [filterMap_begun?_cons, Session.outcomes, noted, hMove, ← List.append_assoc, ← List.append_assoc]
      exact hEnd
    · -- an order that is over stays so
      have hOver := (over_endFan h hMove).run? hRest
      rw [hOver.ended] at hOpen
      contradiction
    · have hOver := (over_expire h hMove).run? hRest
      rw [hOver.ended] at hOpen
      contradiction

/-! ## Writes that fan out -/

/-- Whether a request is sent to all mains at once. -/
def fansOut (s : Session) : Request → Bool
  | .put .. => s.replication = .sync
  | .remove _ => true
  | .get _ | .holds _ => false

theorem isWrite_of_fansOut (h : s.fansOut r = true) : r.isWrite = true := by
  cases r <;> simp_all [fansOut, Request.isWrite]

theorem submit_of_fansOut (h : s.fansOut r = true) (hMains : s.world.mains ≠ []) :
    s.submit (.request r) = { s with tickets := s.tickets + 1 }.startFan s.tickets r := by
  have hSome : s.world.mains.isEmpty = false := by simpa using hMains
  cases r with
  | put a data =>
    have hSync : s.replication = .sync := by simpa [fansOut] using h
    simp [submit, startRequest, hSome, hSync]
  | remove a => simp [submit, startRequest, hSome]
  | get a => simp [fansOut] at h
  | holds a => simp [fansOut] at h

/-- Without a main a write ends at once, and nothing is called. -/
theorem submit_of_mains_eq_nil (h : r.isWrite = true) (hMains : s.world.mains = []) :
    s.submit (.request r) = { s with tickets := s.tickets + 1 }.return_ s.tickets
      (.error (.noMainBackend r.operation)) := by
  cases r with
  | put a data => simp [submit, startRequest, hMains, Request.operation]
  | remove a => simp [submit, startRequest, hMains, Request.operation]
  | get a => simp [Request.isWrite] at h
  | holds a => simp [Request.isWrite] at h

/-- A write fans out, or it is a payload that is placed in one main. -/
theorem fansOut_or_placed (s : Session) (h : r.isWrite = true) :
    s.fansOut r = true ∨ s.replication = .async ∧ ∃ a data, r = .put a data := by
  cases r with
  | put a data =>
    cases hReplication : s.replication with
    | sync => exact .inl (by simp [fansOut, hReplication])
    | async => exact .inr ⟨rfl, a, data, rfl⟩
  | remove a => exact .inl rfl
  | get a => contradiction
  | holds a => contradiction

/-- A write that is placed in one main comes to what its walk comes to. -/
theorem submit_of_placed {data : Bytes} (h : s.fansOut (.put a data) = false)
    (hMains : s.world.mains ≠ []) : s.submit (.request (.put a data)) =
      { s with tickets := s.tickets + 1 }.followWalk s.tickets (.put a data) s.deadline
        ((Walk.ofOrder (.place data) a s.world.mains).go s.world) := by
  have hAsync := (s.fansOut_or_placed rfl).resolve_left (Bool.eq_false_iff.mp h)
  have hSome : s.world.mains.isEmpty = false := by simpa using hMains
  simp only [submit, startRequest, hSome, hAsync.1]
  rfl

/-- An order that was just submitted joins its fan-out. -/
theorem joining_submit (hs : s.Sound) (hFans : s.fansOut r = true) (hMains : s.world.mains ≠ []) :
    Joining (s.submit (.request r)) s.tickets s.fans.length r s.deadline
      (.ofBackends r s.world.mains false) [] [] := by
  rw [submit_of_fansOut hFans hMains]
  exact joining_startFan hs r

theorem deadline_eq_none (h : s.timeout = none) : s.deadline = none := by
  rw [Session.deadline, h]
  rfl

end Session

end ReplicatedStore

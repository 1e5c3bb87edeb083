import ReplicatedStore.Proofs.Session.ReadServing
import ReplicatedStore.Proofs.Session.Written

/-!
# Serving writes

A write that a session at rest is asked for is sent to all mains, and as long as it is under way nothing
else can happen but the next step of one of its branches, and time that passes. When it returns, every
main has been called once, and the cache is truthful again: either the object was forgotten, or no main
has taken the write.

Main results:

* `Session.writing_of_move?` — a write goes on, or it has been done.
* `Session.wrote_of_returns`, `Session.exists_returns_of_pending_write` — what writes come to, and that
  they do.
-/

namespace ReplicatedStore

namespace Session

/-- How a write ends whose branches have come to outcomes. -/
def endOfWrite (s : Session) (r : Request) (outs : List (Nat × Outcome)) : Ended :=
  if s.world.mains.isEmpty then .returned (.error (.noMainBackend r.operation))
  else endOfVerdict (StoreError.aggregate r.operation s.world.mains.length (s.failures r outs))

/-- A write that is under way in a session that was at rest. -/
structure Writing (s : Session) (r : Request) (t : Session) (f : FanOut) (begun : List Nat)
    (outs : List (Nat × Outcome)) : Prop where
  lasts : s.Lasts t
  joining : Joining t s.tickets s.fans.length r none f begun outs
  alone : ∀ q ∈ t.running, q.ticket = s.tickets
  fans : t.fans = s.fans ++ [f]
  branch : ∀ j b, f.branches[j]? = some b → World.BranchAt s.world t.world r outs j b
  others : ∀ i, i ∉ s.world.mains → t.world.backends[i]? = s.world.backends[i]?

/-- A write that has come to what its outcomes tell, and left the session at rest. -/
structure Wrote (s : Session) (r : Request) (t : Session) : Prop where
  rest : t.AtRest
  written : ∃ outs, s.world.Written r outs t.world ∧
    t.ended? s.tickets = some (s.endOfWrite r outs)

variable {s t u : Session} {r : Request} {m : Move} {f g : FanOut} {begun : List Nat}
  {outs outs' : List (Nat × Outcome)}

theorem Wrote.isOver (h : Wrote s r t) : t.ended? s.tickets ≠ none := by
  obtain ⟨outs, -, hEnded⟩ := h.written
  simp [hEnded]

theorem Writing.backends_eq (h : Writing s r t f begun outs) :
    f.branches.map (·.backend) = s.world.mains := by
  rw [h.joining.backends, World.mains_of_frame_eq h.lasts.frame]

theorem Writing.mem_mains (h : Writing s r t f begun outs) {j : Nat} {b : Branch}
    (hb : f.branches[j]? = some b) : b.backend ∈ s.world.mains := by
  rw [← h.backends_eq]
  exact List.mem_map.mpr ⟨b, List.mem_of_getElem? hb, rfl⟩

theorem Writing.exists_main (h : Writing s r t f begun outs) (hs : s.AtRest) {j : Nat} {b : Branch}
    (hb : f.branches[j]? = some b) :
    ∃ c, s.world.backends[b.backend]? = some c ∧ c.storage.Steady := by
  have hLt : b.backend < s.world.backends.length :=
    List.mem_range.mp (List.mem_filter.mp (h.mem_mains hb)).1
  have hSome : s.world.backends[b.backend]? = some s.world.backends[b.backend] :=
    List.getElem?_eq_getElem hLt
  exact ⟨_, hSome, hs.steady.at hSome⟩

theorem modify_length_append (fans : List FanOut) (f : FanOut) (change : FanOut → FanOut) :
    (fans ++ [f]).modify fans.length change = fans ++ [change f] := by
  induction fans with
  | nil => rfl
  | cons g rest ih => rw [List.length_cons, List.cons_append, List.modify_succ_cons, ih, List.cons_append]

/-- A branch of a write goes on by a step of its own main. -/
theorem writing_modifyFan (h : Writing s r t f begun outs) {world : World} {j : Nat} {b : Branch}
    {state : BranchState} {change : FanOut → FanOut} {begun' : List Nat}
    (hb : f.branches[j]? = some b) (hChange : (change f).branches = (f.setState j state).branches)
    (hFrame : world.frame = t.world.frame)
    (hOthers : ∀ i, b.backend ≠ i → world.backends[i]? = t.world.backends[i]?)
    (hOuts : outs ⊆ outs') (hNew : World.BranchAt s.world world r outs' j { b with state })
    (hJoining : Joining ({ t with world }.modifyFan s.fans.length change) s.tickets s.fans.length r
      none (change f) begun' outs') :
    Writing s r ({ t with world }.modifyFan s.fans.length change) (change f) begun' outs' := by
  refine ⟨?_, hJoining, h.alone, ?_, ?_, ?_⟩
  · exact { h.lasts with sound := hJoining.sound
                         frame := hFrame.trans h.lasts.frame }
  · show t.fans.modify s.fans.length change = _
    rw [h.fans, modify_length_append]
  · rw [hChange]
    have hNodup : (f.branches.map (·.backend)).Nodup := h.backends_eq ▸ s.world.nodup_mains
    exact World.branchAt_setState hNodup hb hOthers hOuts hNew h.branch
  · intro i hi
    have hNe : b.backend ≠ i := by
      rintro rfl
      exact hi (h.mem_mains hb)
    exact (hOthers i hNe).trans (h.others i hi)

/-- The fan-out that an order joins after a branch has changed is the changed one. -/
theorem joining_changed {ticket fan : Nat} {deadline : Option Duration} {change : FanOut → FanOut}
    (hf : t.fans[fan]? = some f)
    (h : ∃ g, Joining (t.modifyFan fan change) ticket fan r deadline g begun outs) :
    Joining (t.modifyFan fan change) ticket fan r deadline (change f) begun outs := by
  obtain ⟨g, hJoining⟩ := h
  have hg := hJoining.fanOut
  rw [getElem?_modifyFan_self hf, Option.some.injEq] at hg
  rwa [hg]

theorem writing_of_start? (hs : s.AtRest) (h : Writing s r t f begun outs) {branch : Nat}
    (hMove : t.move? (.event (.start s.fans.length branch)) = some u) :
    ∃ g begun' outs', Writing s r u g begun' outs' := by
  have hNext := joining_of_start? h.joining hMove
  obtain ⟨f', b, hf, hb, hQueued, hCall⟩ := start?_eq_some hMove
  rw [h.joining.fanOut] at hf
  cases hf
  rw [h.joining.request] at hCall
  obtain ⟨c, hBefore, hSteady⟩ := h.exists_main hs hb
  -- the branch is queued, so nobody has called its main yet
  have hNow : t.world.backends[b.backend]? = some c := by
    cases h.branch branch b hb with
    | queued hState same => exact same.trans hBefore
    | running hState =>
      rw [hQueued] at hState
      contradiction
    | finished hState =>
      rw [hQueued] at hState
      contradiction
  obtain ⟨nonces, st, hBegin, hAfter⟩ := World.begin_at hNow hSteady.isKept r
  have hFrame := World.frame_begin t.world b.backend r
  have hOthers (i : Nat) (hi : b.backend ≠ i) := World.getElem?_begin_of_ne t.world hi r
  -- the call waits, or it is over at once and its outcome is noted
  rcases hCall with ⟨world, delay, held, hWorld, rfl⟩ | ⟨world, o, hWorld, rfl⟩
  · rw [hWorld] at hBegin hAfter hFrame hOthers
    refine ⟨_, _, _, writing_modifyFan h hb rfl hFrame hOthers (List.subset_append_left ..) ?_
      (joining_changed h.joining.fanOut hNext)⟩
    exact .running rfl hBefore hBegin hAfter
  · rw [hWorld] at hBegin hAfter hFrame hOthers
    have hOutcome : t.outcome? s.fans.length (.event (.start s.fans.length branch)) =
        some (branch, o) := by
      simp [outcome?, h.joining.fanOut, hb, h.joining.request, hWorld]
    refine ⟨_, _, _, writing_modifyFan h hb rfl hFrame hOthers (List.subset_append_left ..) ?_
      (joining_changed h.joining.fanOut hNext)⟩
    rw [hOutcome]
    exact .finished rfl (by simp) hBefore hAfter (.atOnce hBegin)

theorem writing_of_complete? (hs : s.AtRest) (h : Writing s r t f begun outs) {branch : Nat}
    (hMove : t.move? (.event (.complete s.fans.length branch)) = some u) :
    ∃ g begun' outs', Writing s r u g begun' outs' := by
  have hNext := joining_of_complete? h.joining hMove
  obtain ⟨f', b, due, held, hf, hb, hRunning, -, rfl⟩ := complete?_eq_some hMove
  rw [h.joining.fanOut] at hf
  cases hf
  obtain ⟨c, hBefore, hSteady⟩ := h.exists_main hs hb
  cases h.branch branch b hb with
  | queued hState =>
    rw [hRunning] at hState
    contradiction
  | finished hState =>
    rw [hRunning] at hState
    contradiction
  | @running _ delay _ c' st nonces hState before begun now =>
    rw [hRunning] at hState
    cases hState
    -- the storage still holds on to what the call began with
    have hBlank : st.blank = c'.storage.blank := by
      rw [← Storage.blank_begin nonces r c'.storage, begun]
    have hKept : st.isKept = true := by
      rw [before, Option.some.injEq] at hBefore
      rw [Storage.isKept_eq_of_blank_eq hBlank, hBefore, hSteady.isKept]
    have hKeeps : st.Keeps r held := (Storage.keeps_begin begun).1.of_blank_eq hBlank
    obtain ⟨hOutcome, hAfter⟩ := World.finish_at now hKept hKeeps
    have hNoted : t.outcome? s.fans.length (.event (.complete s.fans.length branch)) =
        some (branch, (t.world.finish b.backend held).2) := by
      simp [outcome?, h.joining.fanOut, hb, hRunning]
    refine ⟨_, _, _, writing_modifyFan h hb rfl (World.frame_finish ..)
      (fun i hi => World.getElem?_finish_of_ne t.world hi held) (List.subset_append_left ..) ?_
      (joining_changed h.joining.fanOut hNext)⟩
    rw [hNoted, hOutcome]
    exact .finished rfl (by simp) before hAfter (.later begun)

/-! ## Writes that are done -/

theorem settle_eq (s : Session) (a : Address) (result : Except StoreError Answer) :
    ∃ watched, s.settle a result = { s with watched } ∧
      watched.cache.entries ⊆ s.watched.cache.entries ∧
      ((∀ e, result = .error e → e.isPartial = true) →
        ∀ e ∈ watched.cache.entries, e.key ≠ a.key) := by
  unfold settle
  split
  · exact ⟨_, rfl, Cache.entries_erase_subset .., fun _ e he => Cache.key_ne_of_mem_erase he⟩
  · rename_i error
    split
    · exact ⟨_, rfl, Cache.entries_erase_subset .., fun _ e he => Cache.key_ne_of_mem_erase he⟩
    · rename_i hNot
      exact ⟨s.watched, rfl, fun _ he => he, fun h => absurd (h error rfl) hNot⟩

theorem endFan_eq (s : Session) (ticket : Nat) (r : Request) (f : FanOut) :
    ∃ result, s.endFan ticket r f = (s.settle r.address result).return_ ticket result ∧
      ∀ e, result = .error e → f.verdict = some e := by
  refine ⟨_, rfl, fun e h => ?_⟩
  cases hVerdict : f.verdict with
  | none =>
    rw [hVerdict] at h
    contradiction
  | some x =>
    rw [hVerdict, Except.error.injEq] at h
    rw [h]

/-- The world after a write all of whose branches are finished. -/
theorem written_of_isFinished (h : Writing s r t f begun outs) (hFinished : f.isFinished = true) :
    s.world.Written r outs t.world := by
  have hMains := h.backends_eq
  refine ⟨h.lasts.frame, ?_, fun j i hj => ?_, h.others⟩
  · have hPerm := (h.joining.tally.perm_range hFinished).2
    rwa [FanOut.length_branches hMains] at hPerm
  · rw [← hMains, List.getElem?_map, Option.map_eq_some_iff] at hj
    obtain ⟨b, hb, rfl⟩ := hj
    have hState := h.joining.tally.state_of_isFinished hFinished hb
    cases h.branch j b hb with
    | queued hQueued =>
      rw [hState] at hQueued
      contradiction
    | running hRunning =>
      rw [hState] at hRunning
      contradiction
    | finished _ mem before now call => exact ⟨_, _, _, mem, before, now, call⟩

/-- The cache is truthful after a write: the object was forgotten, or no main has taken the write. -/
theorem truthful_of_written (hs : s.AtRest) (hWrite : r.isWrite = true)
    (h : Writing s r t f begun outs) (hFinished : f.isFinished = true) {watched : WatchedCache}
    (hEntries : watched.cache.entries ⊆ t.watched.cache.entries)
    (hForgets : (f.verdict = none ∨ ∃ e, f.verdict = some e ∧ e.isPartial = true) →
      ∀ e ∈ watched.cache.entries, e.key ≠ r.address.key) : { t with watched }.Truthful := by
  intro e he b hb hKey
  have hWritten := written_of_isFinished h hFinished
  -- if a main has taken the write, the verdict makes the cache forget the object
  have hSame : b ≠ r.address ∨ ∀ p ∈ outs, p.2.isAnswered = false := by
    by_cases hAnswered : ∃ p ∈ outs, p.2.isAnswered = true
    · left
      rintro rfl
      exact hForgets (verdict_of_answered h.joining.tally hFinished hAnswered) e he hKey.symm
    · right
      intro p hp
      exact Bool.eq_false_iff.mpr fun hIs => hAnswered ⟨p, hp, hIs⟩
  show t.world.fetch? b = some e.data
  rw [hWritten.fetch?_eq hs.steady hWrite hSame]
  exact hs.truthful e (h.lasts.entries (hEntries he)) b hb hKey

/-- A write that finds its fan-out finished. -/
theorem wrote_of_endFan (hs : s.AtRest) (hWrite : r.isWrite = true)
    (hMains : s.world.mains ≠ []) (h : Writing s r t f begun outs) (hFinished : f.isFinished = true)
    (hMove : t.move? m = some (t.endFan s.tickets r f)) : Wrote s r (t.endFan s.tickets r f) := by
  have hSound := sound_of_move? h.lasts.sound hMove
  have hEnded : (t.endFan s.tickets r f).ended? s.tickets = some (endOfVerdict f.verdict) :=
    ended?_finish_self ..
  have hVerdict := ended_of_joining h.lasts.frame h.joining hEnded
  have hWritten := written_of_isFinished h hFinished
  have hNone : s.world.mains.isEmpty = false := List.isEmpty_eq_false_iff.mpr hMains
  refine ⟨?_, outs, by rwa [world_endFan], by rw [hEnded, hVerdict, endOfWrite, hNone]; rfl⟩
  obtain ⟨result, hResult, hError⟩ := endFan_eq t s.tickets r f
  obtain ⟨watched, hEq, hEntries, hForgets⟩ := settle_eq t r.address result
  rw [hResult, hEq] at hSound ⊢
  refine ⟨hSound, ?_, ?_, h.lasts.timeout.trans hs.timeout, h.lasts.replication.trans hs.replication,
    ?_, hWritten.steady hs.steady, truthful_of_written hs hWrite h hFinished hEntries ?_⟩
  · show t.running.filter (·.ticket != s.tickets) = []
    rw [List.filter_eq_nil_iff]
    intro q hq
    simp [h.alone q hq]
  · -- all fan-outs from before were finished, and now this one is
    intro g hg
    have hMem : g ∈ t.fans := hg
    rw [h.fans, List.mem_append, List.mem_singleton] at hMem
    rcases hMem with hg | rfl
    · exact hs.finished g hg
    · exact hFinished
  · show t.readOrder.claim = (t.world.readGroups.flatten, t.readOrder)
    rw [h.lasts.readOrder, World.readGroups_of_frame_eq h.lasts.frame]
    exact hs.order
  · intro hPartial
    refine hForgets fun e hFails => ?_
    have hVerdict := hError e hFails
    rcases hPartial with hOk | ⟨x, hx, hIs⟩
    · rw [hOk] at hVerdict
      contradiction
    · rw [hx, Option.some.injEq] at hVerdict
      rwa [← hVerdict]

/-! ## Whole writes -/

/-- A write goes on, or it has been done. -/
theorem writing_of_move? (hs : s.AtRest) (hWrite : r.isWrite = true) (hMains : s.world.mains ≠ [])
    (h : Writing s r t f begun outs) (hFree : m.isFree = true) (hMove : t.move? m = some u) :
    (∃ g begun' outs', Writing s r u g begun' outs') ∨ Wrote s r u := by
  -- the write is all that is under way, and no other fan-out has anything left to do
  have hFan {fan : Nat} (hConcerns : ConcernsFan fan m) : fan = s.fans.length := by
    obtain ⟨g, hg, hOpen⟩ := exists_open_of_concernsFan hConcerns hMove
    have hLt := (List.getElem?_eq_some_iff.mp hg).1
    rw [h.fans, List.length_append, List.length_singleton] at hLt
    by_contra hNe
    have hOld : fan < s.fans.length := by omega
    rw [h.fans, List.getElem?_append_left hOld] at hg
    have hFinished := hs.finished g (List.mem_of_getElem? hg)
    rw [hOpen] at hFinished
    contradiction
  have hTicket {ticket : Nat} (hConcerns : ConcernsOrder ticket m) : ticket = s.tickets := by
    obtain ⟨q, hq⟩ := running?_of_concernsOrder hConcerns hMove
    obtain ⟨hMem, hEq⟩ := mem_of_running? hq
    rw [← hEq]
    exact h.alone q hMem
  cases m with
  | submit order => contradiction
  | submitStream a input failure => contradiction
  | cache order => contradiction
  | fill key data => contradiction
  | tick time =>
    left
    cases hMove
    have hLasts := h.lasts.tick time
    have hJoining := joining_tick h.joining time
    obtain ⟨watched, now, hEq, -⟩ := tick_eq t time
    rw [hEq] at hLasts hJoining ⊢
    exact ⟨f, begun, outs, hLasts, hJoining, h.alone, h.fans, h.branch, h.others⟩
  | event event =>
    cases event with
    | start fan branch =>
      obtain rfl := hFan (.start branch)
      exact .inl (writing_of_start? hs h hMove)
    | complete fan branch =>
      obtain rfl := hFan (.complete branch)
      exact .inl (writing_of_complete? hs h hMove)
    | resume ticket =>
      obtain rfl := hTicket .resume
      obtain ⟨q, _, _, _, _, hq, -, hActivity, -⟩ := resume?_eq_some hMove
      rw [h.joining.order] at hq
      cases hq
      contradiction
    | expire ticket =>
      obtain rfl := hTicket .expire
      obtain ⟨q, deadline, request, after, hq, hDeadline, -⟩ := expire?_eq_some hMove
      rw [h.joining.order] at hq
      cases hq
      contradiction
    | join ticket =>
      -- the one move that ends the write, once its fan-out is finished
      obtain rfl := hTicket .join
      obtain ⟨q, hq, ⟨request, fan, g, hRequest, hActivity, hg, hFinished, rfl⟩ |
        ⟨fans, hActivity, -⟩⟩ := join?_eq_some hMove
      · rw [h.joining.order] at hq
        cases hq
        cases hRequest
        cases hActivity
        rw [h.joining.fanOut] at hg
        cases hg
        exact .inr (wrote_of_endFan hs hWrite hMains h hFinished hMove)
      · rw [h.joining.order] at hq
        cases hq
        contradiction

/-- A write that a session at rest is asked for, if there is a main. -/
theorem writing_submit (hs : s.AtRest) (hFans : s.fansOut r = true) (hMains : s.world.mains ≠ []) :
    Writing s r (s.submit (.request r)) (.ofBackends r s.world.mains false) [] [] := by
  have hJoining := joining_submit hs.sound hFans hMains
  rw [deadline_eq_none hs.timeout] at hJoining
  have hSound := hJoining.sound
  rw [submit_of_fansOut hFans hMains] at hJoining hSound ⊢
  refine ⟨⟨hSound, Nat.lt_succ_self _, rfl, rfl, rfl, rfl, fun _ he => he⟩, hJoining, ?_, rfl, ?_,
    fun _ _ => rfl⟩
  · intro q hq
    have hMem : q ∈ s.running.filter (·.ticket != s.tickets) ++ [_] := hq
    rw [hs.running] at hMem
    rw [List.mem_singleton.mp hMem]
  · intro j b hb
    have hQueued : b.state = .queued := by
      simp only [FanOut.ofBackends, List.getElem?_map, Option.map_eq_some_iff] at hb
      obtain ⟨backend, -, rfl⟩ := hb
      rfl
    exact .queued hQueued rfl

/-- Without a main nothing is called. -/
theorem wrote_submit (hs : s.AtRest) (hWrite : r.isWrite = true) (hMains : s.world.mains = []) :
    Wrote s r (s.submit (.request r)) := by
  rw [submit_of_mains_eq_nil hWrite hMains]
  refine ⟨⟨?_, ?_, hs.finished, hs.timeout, hs.replication, hs.order, hs.steady, hs.truthful⟩, [], ?_, ?_⟩
  · exact ((Calm.refl _).finish s.tickets _).sound hs.sound.taken (Nat.lt_succ_self _)
  · show s.running.filter _ = []
    rw [hs.running]
    rfl
  · refine ⟨rfl, ?_, fun j i hj => ?_, fun _ _ => rfl⟩
    · rw [hMains]
      exact .nil
    · rw [hMains] at hj
      contradiction
  · rw [endOfWrite, hMains]
    exact ended?_finish_self ..

theorem fansOut_of_isWrite (hs : s.AtRest) (hWrite : r.isWrite = true) : s.fansOut r = true := by
  cases r with
  | put a data => simp [fansOut, hs.replication]
  | remove a => rfl
  | get a => contradiction
  | holds a => contradiction

/-- A write that a session at rest is asked for. -/
theorem writing_or_wrote (hs : s.AtRest) (hWrite : r.isWrite = true) :
    (s.world.mains ≠ [] ∧ ∃ f begun outs, Writing s r (s.submit (.request r)) f begun outs) ∨
      Wrote s r (s.submit (.request r)) := by
  by_cases hMains : s.world.mains = []
  · exact .inr (wrote_submit hs hWrite hMains)
  · exact .inl ⟨hMains, _, _, _, writing_submit hs (fansOut_of_isWrite hs hWrite) hMains⟩

theorem writing_or_wrote_of_move? (hs : s.AtRest) (hWrite : r.isWrite = true)
    (h : s.world.mains ≠ [] ∧ ∃ f begun outs, Writing s r t f begun outs) (hFree : m.isFree = true)
    (hMove : t.move? m = some u) :
    (s.world.mains ≠ [] ∧ ∃ f begun outs, Writing s r u f begun outs) ∨ Wrote s r u := by
  obtain ⟨hMains, f, begun, outs, hWriting⟩ := h
  exact (writing_of_move? hs hWrite hMains hWriting hFree hMove).imp_left (⟨hMains, ·⟩)

/-- A write that returns has been done as its outcomes tell. -/
theorem wrote_of_returns (hs : s.AtRest) (hWrite : r.isWrite = true) {moves : List Move} {e : Ended}
    (hFree : ∀ m ∈ moves, m.isFree = true)
    (hReturns : (s.submit (.request r)).Returns s.tickets moves t e) : Wrote s r t := by
  refine returns_induction hReturns hFree (writing_or_wrote hs hWrite) ?_ Wrote.isOver
    (writing_or_wrote_of_move? hs hWrite)
  rintro a ⟨-, f, begun, outs, h⟩
  exact h.joining.unended

/-- A write that has not returned yet returns after some moves. -/
theorem exists_returns_of_pending_write (hs : s.AtRest) (hWrite : r.isWrite = true)
    {moves : List Move} (hFree : ∀ m ∈ moves, m.isFree = true)
    (hPending : (s.submit (.request r)).Pending s.tickets moves t) :
    ∃ rest u e, (∀ m ∈ rest, m.isFree = true) ∧ t.Returns s.tickets rest u e := by
  obtain ⟨-, f, begun, outs, hWriting⟩ := pending_induction hPending hFree (writing_or_wrote hs hWrite)
    Wrote.isOver (writing_or_wrote_of_move? hs hWrite)
  -- what brings a fan-out to its end are moves of its own
  obtain ⟨rest, u, e, hOwn, hReturns⟩ := exists_returns hWriting.joining
  refine ⟨rest, u, e, fun m hm => ?_, hReturns⟩
  cases hOwn m hm with
  | tick time => rfl
  | order h => cases h <;> rfl
  | branch h => cases h <;> rfl

end Session

end ReplicatedStore

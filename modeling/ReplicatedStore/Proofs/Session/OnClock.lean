import ReplicatedStore.Proofs.Session.Resting
import ReplicatedStore.Session.Run

/-!
# Runs on a clock that waits

On a clock that moves only when nothing else can happen, time never passes what is due. Which of
several things that are due at one instant happens first is left open. The schedule by which a session
is driven is one of these runs.

Main results:

* `Scheduled.first?_spec` — the first event of a schedule is as early as any.
* `Session.onClock_drive` — a session that is driven does what may happen on such a clock.
* `Session.pending_on_clock` — what every instant keeps.
-/

namespace ReplicatedStore

namespace Scheduled

variable {a b c x : Scheduled} {events : List Scheduled}

theorem le_of_isBefore (h : a.isBefore b = true) : a.time ≤ b.time := by
  unfold isBefore at h
  split at h
  · rename_i hSame
    rw [hSame]
    exact Nat.le_refl _
  · simpa using h

theorem isBefore_of_not (h : ¬ a.isBefore b = true) : b.isBefore a = true := by
  simp only [isBefore, Duration.ext_iff, Duration.le_def] at h ⊢
  split_ifs at h ⊢ <;> simp at h ⊢ <;> omega

theorem isBefore_trans (h : a.isBefore b = true) (h' : b.isBefore c = true) : a.isBefore c = true := by
  simp only [isBefore, Duration.ext_iff, Duration.le_def] at h h' ⊢
  split_ifs at h h' ⊢ <;> simp at h h' ⊢ <;> omega

theorem first?_eq_none (h : first? events = none) : events = [] := by
  cases events with
  | nil => rfl
  | cons x rest =>
    rw [first?] at h
    split at h
    · contradiction
    · split at h <;> contradiction

/-- The first event of a schedule comes before all others, and strictly before those named earlier. -/
theorem exists_split_of_first? (h : first? events = some x) : ∃ earlier others,
    events = earlier ++ x :: others ∧ (∀ y ∈ earlier, ¬ y.isBefore x = true) ∧
      ∀ y ∈ others, x.isBefore y = true := by
  induction events generalizing x with
  | nil => contradiction
  | cons y rest ih =>
    rw [first?] at h
    cases hRest : first? rest with
    | none =>
      rw [hRest, Option.some.injEq] at h
      rw [first?_eq_none hRest, h]
      exact ⟨[], [], rfl, List.forall_mem_nil _, List.forall_mem_nil _⟩
    | some z =>
      obtain ⟨earlier, others, rfl, hEarlier, hOthers⟩ := ih hRest
      simp only [hRest] at h
      split at h
      · rename_i hBefore
        cases h
        refine ⟨[], _, rfl, List.forall_mem_nil _, fun t ht => ?_⟩
        rcases List.mem_append.mp ht with ht | ht
        · exact isBefore_trans hBefore (isBefore_of_not (hEarlier t ht))
        · rcases List.mem_cons.mp ht with rfl | ht
          · exact hBefore
          · exact isBefore_trans hBefore (hOthers t ht)
      · rename_i hNot
        cases h
        exact ⟨y :: earlier, others, rfl, List.forall_mem_cons.mpr ⟨hNot, hEarlier⟩, hOthers⟩

theorem first?_of_split {earlier others : List Scheduled}
    (hEarlier : ∀ y ∈ earlier, ¬ y.isBefore x = true) (hOthers : ∀ y ∈ others, x.isBefore y = true) :
    first? (earlier ++ x :: others) = some x := by
  induction earlier with
  | nil =>
    rw [List.nil_append, first?]
    cases hRest : first? others with
    | none => rfl
    | some z =>
      obtain ⟨_, _, rfl, -, -⟩ := exists_split_of_first? hRest
      simp [hOthers z (List.mem_append_right _ List.mem_cons_self)]
  | cons y earlier ih =>
    obtain ⟨hNot, hEarlier⟩ := List.forall_mem_cons.mp hEarlier
    rw [List.cons_append, first?, ih hEarlier]
    simp [hNot]

/-- The first event of a schedule is as early as any. -/
theorem first?_spec (h : first? events = some x) : x ∈ events ∧ ∀ y ∈ events, x.time ≤ y.time := by
  obtain ⟨earlier, others, rfl, hEarlier, hOthers⟩ := exists_split_of_first? h
  refine ⟨List.mem_append_right _ List.mem_cons_self, fun y hy => ?_⟩
  rcases List.mem_append.mp hy with hy | hy
  · exact le_of_isBefore (isBefore_of_not (hEarlier y hy))
  · rcases List.mem_cons.mp hy with rfl | hy
    · exact Nat.le_refl _
    · exact le_of_isBefore (hOthers y hy)

/-- The first event of a schedule stays the first if others are left out. -/
theorem first?_filter {keep : Scheduled → Bool} (h : first? events = some x) (hKeep : keep x = true) :
    first? (events.filter keep) = some x := by
  obtain ⟨earlier, others, rfl, hEarlier, hOthers⟩ := exists_split_of_first? h
  rw [List.filter_append, List.filter_cons_of_pos hKeep]
  exact first?_of_split (fun y hy => hEarlier y (List.mem_filter.mp hy).1)
    fun y hy => hOthers y (List.mem_filter.mp hy).1

end Scheduled

namespace Session

/-- What happens on a clock that waits for all that is due: events in any order, and time that passes up
to the next of them at most. -/
inductive OnClock : Session → List Move → Session → Prop
  | nil (s : Session) : OnClock s [] s
  | event {s t u : Session} {e : Event} {rest : List Move} (hEvent : s.step? e = some t)
      (hRest : OnClock t rest u) : OnClock s (.event e :: rest) u
  | tick {s u : Session} {time : Duration} {rest : List Move}
      (hDue : ∀ x ∈ s.events, time ≤ x.time) (hRest : OnClock (s.tick time) rest u) :
      OnClock s (.tick time :: rest) u

variable {s t u : Session} {ticket : Nat} {moves more : List Move} {e : Ended}

namespace OnClock

theorem run? (h : OnClock s moves t) : s.run? moves = some t := by
  induction h with
  | nil s => rfl
  | event hEvent _ ih => exact run?_cons_eq_some.mpr ⟨_, hEvent, ih⟩
  | tick _ _ ih => exact run?_cons_eq_some.mpr ⟨_, rfl, ih⟩

end OnClock

/-- A session that is driven does what may happen on a clock that waits. -/
theorem onClock_drive (stop : Session → Bool) (limit : Option Duration) (fuel : Nat) (s : Session) :
    ∃ moves, OnClock s moves (drive stop limit fuel s) := by
  induction fuel generalizing s with
  | zero => exact ⟨[], .nil s⟩
  | succ fuel ih =>
    rw [drive]
    split
    · exact ⟨[], .nil s⟩
    · split
      · exact ⟨[], .nil s⟩
      · rename_i x hFirst
        split
        · exact ⟨[], .nil s⟩
        · split
          · exact ⟨[], .nil s⟩
          · rename_i t hStep
            obtain ⟨moves, hClock⟩ := ih t
            exact ⟨_, .tick (Scheduled.first?_spec hFirst).2 (.event hStep hClock)⟩

/-- What every instant keeps that does not end an order holds as long as it has not returned. -/
theorem pending_on_clock {P : Session → Prop} (hClock : OnClock s moves t)
    (hPending : s.Pending ticket moves t) (hStart : P s)
    (hTick : ∀ {a time}, P a → (∀ x ∈ a.events, time ≤ x.time) → P (a.tick time))
    (hEvent : ∀ {a b v}, P a → a.step? v = some b → P b ∨ b.ended? ticket ≠ none) : P t := by
  induction hClock with
  | nil s => exact hStart
  | event hStep _ ih =>
    obtain ⟨v, hMove, hRest⟩ := hPending.of_cons
    cases hStep.symm.trans hMove
    rcases hEvent hStart hStep with hKeeps | hEnded
    · exact ih hRest hKeeps
    · exact absurd hRest.unended hEnded
  | tick hDue _ ih =>
    obtain ⟨v, hMove, hRest⟩ := hPending.of_cons
    cases hMove
    exact ih hRest (hTick hStart hDue)

end Session

end ReplicatedStore

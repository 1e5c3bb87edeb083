import ReplicatedStore.Proofs.Backend.Effects

/-!
# Answers that suit

Whatever a backend answers is an answer to what it was asked: a content to a fetch, a presence to a
check, and no more than that it is done to a write. This holds of every kind of storage and in any
state, for calls that are over at once and for calls that are finished later.

Main results:

* `World.suits_begin`, `World.suits_finish` — answers suit their requests.
-/

namespace ReplicatedStore

/-- Whether an answer is one to a request. -/
def Answer.Suits (r : Request) (x : Answer) : Prop :=
  match r with
  | .put .. | .remove _ => x = .done
  | .get _ => ∃ data, x = .content data
  | .holds _ => ∃ is, x = .presence is

/-- Whether an outcome is a failure, a crash, or an answer to a request. -/
def Outcome.Suits (r : Request) (o : Outcome) : Prop := ∀ x, o = .answered x → x.Suits r

theorem Outcome.suits_failed (r : Request) (f : Failure) : (failed f).Suits r := nofun

theorem Outcome.suits_crashed (r : Request) (reason : String) : (crashed reason).Suits r := nofun

theorem Outcome.suits_content (a : Address) (data : Bytes) :
    (answered (.content data)).Suits (.get a) := by
  rintro x ⟨⟩
  exact ⟨data, rfl⟩

theorem Outcome.suits_presence (a : Address) (is : Bool) :
    (answered (.presence is)).Suits (.holds a) := by
  rintro x ⟨⟩
  exact ⟨is, rfl⟩

namespace Storage

theorem suits_decoded (codec : Codec) (a : Address) (content : Bytes) :
    (Memory.decoded codec content).Suits (.get a) := by
  unfold Memory.decoded
  split
  · exact Outcome.suits_content a _
  · exact Outcome.suits_failed _ _

theorem suits_finish_script (s : Script) {r : Request} (hRead : r.isWrite = false) (number : Nat) :
    (s.finish r number).2.Suits r := by
  unfold Script.finish
  simp only
  split
  · exact Outcome.suits_crashed _ _
  · split
    · exact Outcome.suits_failed _ _
    · split
      · exact Outcome.suits_failed _ _
      · cases r with
        | put a data => contradiction
        | remove a => contradiction
        | get a =>
          simp only [Script.work]
          split
          · exact Outcome.suits_content a _
          · exact Outcome.suits_failed _ _
        | holds a => exact Outcome.suits_presence a _

/-- A read that is over at once at a storage that keeps its objects itself. -/
theorem suits_begin {nonces : Nat → Nonce} {r : Request} {o : Outcome} {before after : Storage}
    (hRead : r.isWrite = false) (h : before.begin nonces r = (after, .over o)) : o.Suits r := by
  cases before with
  | memory codec m =>
    cases r with
    | put a data => contradiction
    | remove a => contradiction
    | get a =>
      simp only [begin, Memory.begin] at h
      split at h
      · cases h
        exact Outcome.suits_failed _ _
      · split at h
        · cases h
          exact suits_decoded codec a _
        · simp at h
    | holds a =>
      cases h
      exact Outcome.suits_presence a _
  | scripted s =>
    simp only [begin, Script.begin] at h
    split at h
    · cases h
      exact suits_finish_script _ hRead _
    · simp at h
  | directory codec place =>
    cases h
    exact Outcome.suits_failed _ _
  | gateway codec peer =>
    cases h
    exact Outcome.suits_failed _ _

/-- A read that is finished at a storage that keeps its objects itself. -/
theorem suits_finish {r : Request} {held : Held} {st : Storage} (hRead : r.isWrite = false)
    (h : st.Keeps r held) : (st.finish held).2.Suits r := by
  cases st with
  | memory codec m =>
    cases r with
    | put a data => contradiction
    | remove a => contradiction
    | get a =>
      obtain ⟨content, rfl⟩ := h
      exact suits_decoded codec a content
    | holds a => exact h.elim
  | scripted s =>
    obtain ⟨number, rfl⟩ := h
    exact suits_finish_script s hRead number
  | directory codec place => exact Outcome.suits_failed _ _
  | gateway codec peer => exact Outcome.suits_failed _ _

end Storage

theorem Directory.suits_call (d : Directory) (codec : Codec) (nonces : Nat → Nonce) (disk : Disk)
    {r : Request} (hRead : r.isWrite = false) : (d.call codec nonces disk r).2.Suits r := by
  cases r with
  | put a data => contradiction
  | remove a => contradiction
  | get a =>
    simp only [call, get]
    split
    · exact Outcome.suits_failed _ _
    · split
      · exact Outcome.suits_failed _ _
      · split
        · exact Outcome.suits_content a _
        · exact Outcome.suits_failed _ _
  | holds a =>
    simp only [call, holds]
    split
    · exact Outcome.suits_failed _ _
    · split
      · exact Outcome.suits_presence a _
      · exact Outcome.suits_presence a _
      · exact Outcome.suits_failed _ _

theorem Gateway.suits_outcome {codec : Codec} {peer : Gateway} {nonces : Nat → Nonce} {r : Request}
    {message : HttpRequest} (hRead : r.isWrite = false)
    (hMessage : peer.message codec nonces r = .ok message) (reply : Exchange) :
    (outcome codec message reply).Suits r := by
  cases reply with
  | none => exact Outcome.suits_failed _ _
  | some reply =>
    cases r with
    | put a data => contradiction
    | remove a => contradiction
    | get a =>
      cases hMessage
      simp only [outcome, bare]
      split
      · exact Outcome.suits_failed _ _
      · split
        · exact Outcome.suits_failed _ _
        · split
          · exact Outcome.suits_content a _
          · exact Outcome.suits_failed _ _
    | holds a =>
      cases hMessage
      simp only [outcome, bare]
      split
      · exact Outcome.suits_presence a _
      · split
        · exact Outcome.suits_presence a _
        · exact Outcome.suits_failed _ _

namespace World

variable {v w : World} {position : Nat} {r : Request} {o : Outcome}

/-- The answer to a write is that it is done. -/
theorem Follows.suits (h : w.Follows position r o v) (hWrite : r.isWrite = true) : o.Suits r := by
  intro x hAnswered
  have hDone := h.done hWrite x hAnswered
  cases r with
  | put a data => exact hDone
  | remove a => exact hDone
  | get a => contradiction
  | holds a => contradiction

/-- What a call that is over at once answers suits what was asked. -/
theorem suits_begin (h : w.begin position r = (v, .over o)) : o.Suits r := by
  by_cases hWrite : r.isWrite = true
  · exact (follows_begin h).suits hWrite
  have hRead := Bool.eq_false_iff.mpr hWrite
  cases hb : w.backends[position]? with
  | none =>
    simp only [begin, hb, nobody, Prod.mk.injEq, Begun.over.injEq] at h
    rw [← h.2]
    exact Outcome.suits_failed _ _
  | some b =>
    by_cases hKept : b.storage.isKept = true
    · obtain ⟨hBegun, -⟩ := begin_of_isKept hb hKept r
      rw [h] at hBegun
      exact Storage.suits_begin hRead (Prod.ext rfl hBegun.symm)
    · cases hStorage : b.storage with
      | memory codec m => simp [hStorage, Storage.isKept] at hKept
      | scripted s => simp [hStorage, Storage.isKept] at hKept
      | directory codec place =>
        simp only [begin, hb, hStorage, Directory.begin] at h
        split at h
        · cases h
          exact Outcome.suits_failed _ _
        · simp at h
      | gateway codec peer => simp [begin, hb, hStorage] at h

/-- What a call answers that is finished suits what was asked. -/
theorem suits_finish {held : Held} (h : w.Keeps position r held) : (w.finish position held).2.Suits r := by
  by_cases hWrite : r.isWrite = true
  · exact (follows_finish h).suits hWrite
  have hRead := Bool.eq_false_iff.mpr hWrite
  obtain ⟨b, hb, hKeeps⟩ := h
  by_cases hKept : b.storage.isKept = true
  · obtain ⟨hOutcome, -⟩ := finish_of_isKept hb hKept hKeeps
    rw [hOutcome]
    exact Storage.suits_finish hRead hKeeps
  · cases hStorage : b.storage with
    | memory codec m => simp [hStorage, Storage.isKept] at hKept
    | scripted s => simp [hStorage, Storage.isKept] at hKept
    | directory codec place =>
      rw [hStorage] at hKeeps
      cases hKeeps
      simp only [finish, hb, hStorage]
      exact place.suits_call codec w.supply w.disk hRead
    | gateway codec peer =>
      rw [hStorage] at hKeeps
      cases hKeeps
      simp only [finish, hb, hStorage]
      split
      · exact Outcome.suits_failed _ _
      · rename_i message hMessage
        exact Gateway.suits_outcome hRead hMessage _

end World

end ReplicatedStore

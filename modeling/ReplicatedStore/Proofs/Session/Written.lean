import Mathlib.Data.List.Nodup
import ReplicatedStore.Proofs.Backend.Likeness
import ReplicatedStore.Proofs.Session.Tally

/-!
# What a write does to a world

A fan-out over the mains calls each main once, whatever order the calls come in: until a branch begins
its main is as it was before the write, and once it is finished the main has been called. When all are
finished, each main shows the payload or the absence that its outcome tells, and nothing else has
changed anywhere.

Main results:

* `World.branchAt_setState` — one branch goes on, and all the others stand where they stood.
* `World.Written.shownAt?_eq`, `World.Written.offerAt?_eq` — what backends show after a write.
* `World.Written.alike` — the same write in worlds that are alike.
-/

namespace ReplicatedStore

namespace World

/-- Where a branch of a write stands: its main is as it was, it has begun a call, or it has been called
and the outcome is among those that are known. -/
inductive BranchAt (w v : World) (r : Request) (outs : List (Nat × Outcome)) (j : Nat) (b : Branch) : Prop
  | queued (h : b.state = .queued) (same : v.backends[b.backend]? = w.backends[b.backend]?)
  | running {due delay : Duration} {held : Held} {c : Backend} {st : Storage} {nonces : Nat → Nonce}
      (h : b.state = .running due held) (before : w.backends[b.backend]? = some c)
      (begun : c.storage.begin nonces r = (st, .waiting delay held))
      (now : v.backends[b.backend]? = some { c with storage := st })
  | finished {o : Outcome} {c c' : Backend} (h : b.state = .finished) (mem : (j, o) ∈ outs)
      (before : w.backends[b.backend]? = some c) (now : v.backends[b.backend]? = some c')
      (call : c.storage.Calls r o c'.storage)

/-- The world after a write whose branches have come to outcomes: each main was called, and nobody
else. -/
structure Written (w : World) (r : Request) (outs : List (Nat × Outcome)) (v : World) : Prop where
  frame : v.frame = w.frame
  perm : (outs.map (·.1)).Perm (List.range w.mains.length)
  calls : ∀ (j i : Nat), w.mains[j]? = some i → ∃ o c c', (j, o) ∈ outs ∧
    w.backends[i]? = some c ∧ v.backends[i]? = some c' ∧ c.storage.Calls r o c'.storage
  others : ∀ i, i ∉ w.mains → v.backends[i]? = w.backends[i]?

variable {u v w w' v' : World} {r : Request} {outs outs' : List (Nat × Outcome)} {j : Nat} {b : Branch}
  {f : FanOut}

theorem BranchAt.of_same (h : BranchAt w u r outs j b)
    (hSame : v.backends[b.backend]? = u.backends[b.backend]?) (hOuts : outs ⊆ outs') :
    BranchAt w v r outs' j b := by
  cases h with
  | queued hState same => exact .queued hState (hSame.trans same)
  | running hState before begun now => exact .running hState before begun (hSame.trans now)
  | finished hState mem before now call =>
    exact .finished hState (hOuts mem) before (hSame.trans now) call

/-- A branch goes on by a step of its own main, which is nobody else's. -/
theorem branchAt_setState {state : BranchState} (hNodup : (f.branches.map (·.backend)).Nodup)
    (hb : f.branches[j]? = some b)
    (hOthers : ∀ i, b.backend ≠ i → v.backends[i]? = u.backends[i]?) (hOuts : outs ⊆ outs')
    (hNew : BranchAt w v r outs' j { b with state })
    (h : ∀ k c, f.branches[k]? = some c → BranchAt w u r outs k c) :
    ∀ k c, (f.setState j state).branches[k]? = some c → BranchAt w v r outs' k c := by
  intro k c hc
  -- two branches are never of the same main
  rcases FanOut.setState_cases_of_nodup hNodup hb hc with ⟨rfl, rfl⟩ | ⟨hNe, hc⟩
  · exact hNew
  · exact (h k c hc).of_same (hOthers c.backend hNe) hOuts

/-! ## Effects -/

/-- Each outcome is that of a call of its main. -/
theorem Written.call_of_mem (h : w.Written r outs v) {o : Outcome} (hMem : (j, o) ∈ outs) :
    ∃ i c c', w.mains[j]? = some i ∧ w.backends[i]? = some c ∧ v.backends[i]? = some c' ∧
      c.storage.Calls r o c'.storage := by
  have hLt : j < w.mains.length :=
    List.mem_range.mp (h.perm.mem_iff.mp (List.mem_map.mpr ⟨_, hMem, rfl⟩))
  have hMain : w.mains[j]? = some w.mains[j] := List.getElem?_eq_getElem hLt
  obtain ⟨o', c, c', hMem', hBefore, hAfter, hCall⟩ := h.calls j _ hMain
  -- each branch has one outcome only
  have hNodup : (outs.map (·.1)).Nodup := h.perm.nodup_iff.mpr List.nodup_range
  have hPair := List.inj_on_of_nodup_map hNodup hMem hMem' rfl
  rw [(Prod.mk.inj hPair).2]
  exact ⟨_, c, c', hMain, hBefore, hAfter, hCall⟩

theorem Written.steady (h : w.Written r outs v) (hw : w.Steady) : v.Steady := by
  intro c hc
  obtain ⟨i, hi⟩ := List.mem_iff_getElem?.mp hc
  -- a main has been called, all others are as they were
  by_cases hMain : i ∈ w.mains
  · obtain ⟨j, hj⟩ := List.mem_iff_getElem?.mp hMain
    obtain ⟨o, c₀, c₁, -, hBefore, hAfter, hCall⟩ := h.calls j i hj
    rw [hi, Option.some.injEq] at hAfter
    rw [hAfter]
    exact (hw.at hBefore).of_calls hCall
  · rw [h.others i hMain] at hi
    exact hw.at hi

/-- A main shows what its outcome tells. -/
theorem Written.shownAt?_eq (h : w.Written r outs v) (hw : w.Steady) (hWrite : r.isWrite = true)
    {i : Nat} (hj : w.mains[j]? = some i) : ∃ o, (j, o) ∈ outs ∧
      v.shownAt? i = if o.isAnswered then r.after (w.shownAt? i) else w.shownAt? i := by
  obtain ⟨o, c, c', hMem, hBefore, hAfter, hCall⟩ := h.calls j i hj
  refine ⟨o, hMem, ?_⟩
  have hShown := Storage.shown?_of_calls (hw.at hBefore) hWrite hCall
  have hOld : w.shownAt? i = c.storage.shown? := by
    funext a
    rw [shownAt?, hBefore]
    rfl
  have hNew : v.shownAt? i = c'.storage.shown? := by
    funext a
    rw [shownAt?, hAfter]
    rfl
  rw [hOld, hNew]
  exact hShown

/-- A write that was done nowhere, or is about another address, leaves what is offered. -/
theorem Written.offerAt?_eq (h : w.Written r outs v) (hw : w.Steady) (hWrite : r.isWrite = true)
    {a : Address} (hSame : a ≠ r.address ∨ ∀ p ∈ outs, p.2.isAnswered = false) (i : Nat) :
    v.offerAt? i a = w.offerAt? i a := by
  by_cases hMain : i ∈ w.mains
  · obtain ⟨j, hj⟩ := List.mem_iff_getElem?.mp hMain
    obtain ⟨o, c, c', hMem, hBefore, hAfter, hCall⟩ := h.calls j i hj
    have hShown := congrFun (Storage.shown?_of_calls (hw.at hBefore) hWrite hCall) a
    have hDeaf := Storage.isDeaf_of_calls (hw.at hBefore) hCall
    -- the write is about another address, or this main did not take it
    have hStays : c'.storage.shown? a = c.storage.shown? a := by
      rcases hSame with hNe | hNone
      · rw [hShown]
        split
        · exact Request.after_of_ne hNe _
        · rfl
      · rw [hShown, hNone _ hMem]
        rfl
    rw [offerAt?, offerAt?, hBefore, hAfter]
    show c'.storage.offer? a = c.storage.offer? a
    rw [Storage.offer?, Storage.offer?, hDeaf, hStays]
  · rw [offerAt?, offerAt?, h.others i hMain]

theorem Written.fetch?_eq (h : w.Written r outs v) (hw : w.Steady) (hWrite : r.isWrite = true)
    {a : Address} (hSame : a ≠ r.address ∨ ∀ p ∈ outs, p.2.isAnswered = false) :
    v.fetch? a = w.fetch? a := by
  have hOffer : (fun i => v.offerAt? i a) = fun i => w.offerAt? i a :=
    funext (h.offerAt?_eq hw hWrite hSame)
  rw [fetch?, fetch?, readGroups_of_frame_eq h.frame, hOffer]

/-! ## Two writes -/

/-- The outcome of a main is the same in worlds that are alike. -/
theorem Written.mem_of_mem (h : w.Written r outs v) (h' : w'.Written r outs' v') (hw : w.Steady)
    (hw' : w'.Steady) (hAlike : w.Alike w') (hWrite : r.isWrite = true) {p : Nat × Outcome}
    (hp : p ∈ outs) : p ∈ outs' := by
  obtain ⟨j, o⟩ := p
  obtain ⟨i, c, c₁, hMain, hBefore, -, hCall⟩ := h.call_of_mem hp
  rw [mains_of_frame_eq hAlike.frame] at hMain
  obtain ⟨o', d, d₁, hMem', hBefore', -, hCall'⟩ := h'.calls j i hMain
  have hSame := Storage.alike_of_write (hw.at hBefore) (hw'.at hBefore')
    (hAlike.storages i c d hBefore hBefore') hWrite hCall hCall'
  rw [hSame.1]
  exact hMem'

/-- The same write in worlds that are alike comes to the same outcomes, in some order, and leaves the
worlds alike. -/
theorem Written.alike (h : w.Written r outs v) (h' : w'.Written r outs' v') (hw : w.Steady)
    (hw' : w'.Steady) (hAlike : w.Alike w') (hWrite : r.isWrite = true) :
    outs.Perm outs' ∧ v.Alike v' := by
  have hMains := mains_of_frame_eq hAlike.frame
  refine ⟨?_, h.frame.trans (hAlike.frame.trans h'.frame.symm), fun i c d hc hd => ?_⟩
  · -- neither list says anything twice, so it is enough that both say the same
    have hNodup : outs.Nodup := List.Nodup.of_map _ (h.perm.nodup_iff.mpr List.nodup_range)
    have hNodup' : outs'.Nodup := List.Nodup.of_map _ (h'.perm.nodup_iff.mpr List.nodup_range)
    rw [List.perm_ext_iff_of_nodup hNodup hNodup']
    intro p
    exact ⟨h.mem_of_mem h' hw hw' hAlike hWrite, h'.mem_of_mem h hw' hw hAlike.symm hWrite⟩
  · by_cases hMain : i ∈ w.mains
    · obtain ⟨j, hj⟩ := List.mem_iff_getElem?.mp hMain
      obtain ⟨o, c₀, c₁, -, hBefore, hAfter, hCall⟩ := h.calls j i hj
      obtain ⟨o', d₀, d₁, -, hBefore', hAfter', hCall'⟩ := h'.calls j i (hMains ▸ hj)
      rw [hc, Option.some.injEq] at hAfter
      rw [hd, Option.some.injEq] at hAfter'
      rw [hAfter, hAfter']
      exact (Storage.alike_of_write (hw.at hBefore) (hw'.at hBefore')
        (hAlike.storages i c₀ d₀ hBefore hBefore') hWrite hCall hCall').2
    · rw [h.others i hMain] at hc
      rw [h'.others i (hMains ▸ hMain)] at hd
      exact hAlike.storages i c d hc hd

end World

end ReplicatedStore

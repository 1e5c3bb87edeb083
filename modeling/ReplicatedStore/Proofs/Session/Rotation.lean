import Mathlib.Data.List.Rotate
import ReplicatedStore.Proofs.Session.Reads

/-!
# Taking turns

A fetch that turns to backends claims their order at once, whatever happens to it later, and nothing
else moves the order on. So the fetches of a run are numbered by their claims, in whatever way they are
interleaved. Where turns are taken, the number of a fetch says where its order starts in the first
group, and in as many rounds of turns each backend of the first group comes first equally often.

Main results:

* `Session.readOrder_of_move?` — the order of reads moves on with each claim, and only then.
* `Session.claims_of_run?` — the orders that the fetches of a run claim are the turns, one by one.
* `ReadOrder.countP_turns` — turns are fair.
-/

namespace ReplicatedStore

namespace ReadOrder

/-- The group in which turns are taken. -/
def leading (groups : List (List Nat)) : List Nat := groups.headD []

@[simp] theorem leading_nil : leading [] = [] := rfl

@[simp] theorem leading_cons (first : List Nat) (rest : List (List Nat)) :
    leading (first :: rest) = first := rfl

/-- The order of the turn with a number: the first group from its turn on, then the other groups. -/
def turn (groups : List (List Nat)) (k : Nat) : List Nat :=
  (leading groups).rotate k ++ groups.tail.flatten

/-- Whether turns are taken over groups and the next one has a number. -/
structure IsAt (o : ReadOrder) (groups : List (List Nat)) (k : Nat) : Prop where
  strategy : o.strategy = .roundRobin
  among : o.groups = groups
  cursor : (leading groups).rotate o.cursor = (leading groups).rotate k

variable {o : ReadOrder} {groups : List (List Nat)} {k : Nat}

theorem rotate_eq (l : List Nat) (start : Nat) : rotate l (start % l.length) = l.rotate start :=
  (List.rotate_eq_drop_append_take_mod).symm

/-- The order of a turn that is claimed, and what the next one finds. -/
theorem IsAt.claim (h : o.IsAt groups k) :
    o.claim.1 = turn groups k ∧ o.claim.2.IsAt groups (k + 1) := by
  obtain ⟨hStrategy, rfl, hCursor⟩ := h
  unfold ReadOrder.claim turn
  rw [hStrategy]
  cases hGroups : o.groups with
  | nil => exact ⟨rfl, hStrategy, hGroups, rfl⟩
  | cons first rest =>
    rw [hGroups] at hCursor
    simp only [leading_cons, List.tail_cons] at hCursor ⊢
    by_cases hEmpty : first.length = 0
    · -- nothing to rotate
      obtain rfl := List.length_eq_zero_iff.mp hEmpty
      exact ⟨rfl, hStrategy, hGroups, rfl⟩
    · rw [if_neg hEmpty]
      refine ⟨?_, rfl, rfl, ?_⟩
      · simp only
        rw [rotate_eq, hCursor]
      · -- the next turn starts one place further, from wherever this one has started
        simp only [leading_cons]
        rw [List.rotate_mod, ← List.rotate_rotate, List.rotate_mod, hCursor, List.rotate_rotate]

/-- In every turn each backend is tried as often as it stands in the groups. -/
theorem perm_turn (groups : List (List Nat)) (k : Nat) : (turn groups k).Perm groups.flatten := by
  cases groups with
  | nil => exact .refl _
  | cons first rest => exact (List.rotate_perm first k).append_right rest.flatten

/-- The first group comes first in every turn, from its own turn on and around. -/
theorem getElem?_turn {i : Nat} (h : i < (leading groups).length) :
    (turn groups k)[i]? = (leading groups)[(k + i) % (leading groups).length]? := by
  have hRotated : i < ((leading groups).rotate k).length := by simpa using h
  rw [turn, List.getElem?_append_left hRotated, List.getElem?_rotate h, Nat.add_comm]

/-- After the first group the others follow as they stand. -/
theorem drop_turn (groups : List (List Nat)) (k : Nat) :
    (turn groups k).drop (leading groups).length = groups.tail.flatten := by
  rw [turn, List.drop_left' (List.length_rotate ..)]

/-- Without a first group to rotate the turns are the groups as they stand. -/
theorem turn_of_head_eq_nil (h : leading groups = []) (k : Nat) : turn groups k = groups.flatten := by
  cases groups with
  | nil => rfl
  | cons first rest =>
    obtain rfl : first = [] := h
    rfl

/-- The backend that comes first in a turn. -/
theorem head?_turn (h : leading groups ≠ []) (k : Nat) :
    (turn groups k).head? = (leading groups)[k % (leading groups).length]? := by
  have hPos : 0 < (leading groups).length := List.length_pos_iff.mpr h
  have hSome : (leading groups).rotate k ≠ [] := by simpa using h
  rw [turn, List.head?_append_of_ne_nil _ hSome, ← List.rotate_mod]
  exact List.head?_rotate (Nat.mod_lt k hPos)

/-- A stretch of numbers in a range. -/
theorem take_drop_range' {start length skipped taken : Nat} (h : skipped + taken ≤ length) :
    ((List.range' start length).drop skipped).take taken = List.range' (start + skipped) taken := by
  refine List.ext_getElem ?_ fun i hi hi' => ?_
  · simp only [List.length_take, List.length_drop, List.length_range']
    omega
  · simp

/-- In one round of turns each place of a list comes up once. -/
theorem countP_round (l : List Nat) (k b : Nat) :
    (List.range' k l.length).countP (fun i => l[i % l.length]? == some b) = l.count b := by
  -- the places that come up are those of the list rotated by `k`
  have hRound : (List.range' k l.length).map (fun i => l[i % l.length]?) = (l.rotate k).map some := by
    refine List.ext_getElem (by simp) fun i hi hi' => ?_
    have hLt : i < l.length := by simpa using hi
    have hMod : (k + i) % l.length < l.length := Nat.mod_lt _ (by omega)
    simp [List.getElem_rotate, Nat.add_comm i k, List.getElem?_eq_getElem hMod]
  calc (List.range' k l.length).countP (fun i => l[i % l.length]? == some b)
      = ((List.range' k l.length).map fun i => l[i % l.length]?).countP (· == some b) := by
        rw [List.countP_map]
        rfl
    _ = (l.rotate k).count b := by
        rw [hRound, List.countP_map]
        simp [List.count, Function.comp_def]
    _ = l.count b := (List.rotate_perm l k).count_eq b

/-- **Turns are fair:** in as many turns as there are in some rounds, each backend of the first group
comes first once a round. -/
theorem countP_turns (groups : List (List Nat)) (k rounds b : Nat) :
    ((List.range' k (rounds * (leading groups).length)).map (turn groups)).countP
        (fun order => order.head? == some b) =
      rounds * (leading groups).count b := by
  by_cases hEmpty : leading groups = []
  · simp [hEmpty]
  rw [List.countP_map]
  have hHeads : (fun order : List Nat => order.head? == some b) ∘ turn groups =
      fun i => (leading groups)[i % (leading groups).length]? == some b := by
    funext i
    simp only [Function.comp, head?_turn hEmpty]
  rw [hHeads]
  -- one round after the other
  induction rounds generalizing k with
  | zero => simp
  | succ rounds ih =>
    have hSplit : List.range' k ((rounds + 1) * (leading groups).length) =
        List.range' k (leading groups).length ++
          List.range' (k + (leading groups).length) (rounds * (leading groups).length) := by
      rw [List.range'_append_1, Nat.succ_mul, Nat.add_comm]
    rw [hSplit, List.countP_append, ih, countP_round, Nat.succ_mul, Nat.add_comm]

end ReadOrder

namespace Session

/-- The order of backends that a move claims, if it asks for a fetch that turns to them. -/
def claimed? (s : Session) : Move → Option (List Nat)
  | .submit (.request (.get a)) => (s.walk? (.get a)).map (·.todo)
  | _ => none

/-- The orders that the fetches of a run claim, in the order of their claims. -/
def claims (s : Session) (moves : List Move) : List (List Nat) := s.noted claimed? moves

variable {s t : Session} {m : Move} {moves : List Move} {a : Address} {start : Walk}
  {groups : List (List Nat)} {k : Nat}

theorem claimed?_get {order : List Nat} (h : s.claimed? m = some order) :
    order = s.readOrder.claim.1 := by
  unfold claimed? at h
  split at h
  · obtain ⟨start, hWalk, rfl⟩ := Option.map_eq_some_iff.mp h
    rw [walk?_get hWalk]
    rfl
  · contradiction

/-! ## Claims move the order on -/

theorem readOrder_settle (s : Session) (a : Address) (result : Except StoreError Answer) :
    (s.settle a result).readOrder = s.readOrder := by
  unfold settle
  split
  · rfl
  · split <;> rfl

theorem readOrder_replicate (s : Session) (r : Request) (backends : List Nat) :
    (s.replicate r backends).readOrder = s.readOrder := by
  unfold replicate
  split <;> rfl

theorem readOrder_endWalk (s : Session) (ticket : Nat) (r : Request) (e : WalkEnd) :
    (s.endWalk ticket r e).readOrder = s.readOrder := by
  unfold endWalk
  split
  · rfl
  · cases r with
    | put a data => exact readOrder_settle ..
    | get a => rfl
    | remove a => rfl
    | holds a => rfl
  · split
    · rfl
    · exact (readOrder_settle ..).trans (readOrder_replicate ..)
    · rfl

theorem readOrder_followWalk (s : Session) (ticket : Nat) (r : Request) (deadline : Option Duration)
    (state : World × WalkState) : (s.followWalk ticket r deadline state).readOrder = s.readOrder := by
  rcases state with ⟨v, e | ⟨walk, delay, held⟩⟩
  · exact readOrder_endWalk ..
  · rfl

theorem readOrder_endDrain (s : Session) (ticket : Nat) (order : Order) :
    (s.endDrain ticket order).readOrder = s.readOrder := by
  cases order <;> rfl

theorem readOrder_put (s : Session) (a : Address) (data : Bytes) :
    (s.submit (.request (.put a data))).readOrder = s.readOrder := by
  simp only [submit, startRequest]
  split
  · rfl
  · split
    · rfl
    · exact readOrder_followWalk ..

theorem readOrder_startDrain (s : Session) (ticket : Nat) (order : Order) :
    (s.startDrain ticket order).readOrder = s.readOrder := by
  unfold startDrain
  simp only
  split
  · exact readOrder_endDrain ..
  · rfl

/-- The order of reads after an order was submitted. -/
theorem readOrder_submit (s : Session) (order : Order) : (s.submit order).readOrder =
    if (s.claimed? (.submit order)).isSome then s.readOrder.claim.2 else s.readOrder := by
  cases order with
  | wait => exact readOrder_startDrain ..
  | shutdown => exact readOrder_startDrain ..
  | request r =>
    cases r with
    | put a data => exact readOrder_put s a data
    | remove a =>
      simp only [submit, startRequest]
      split <;> rfl
    | holds a =>
      simp only [submit, startRequest, lookup, WatchedCache.lookup]
      cases (s.watched.cache.lookup s.now a.key).1 with
      | some data => rfl
      | none =>
        simp only
        split
        · rfl
        · exact readOrder_followWalk ..
    | get a =>
      -- it is claimed exactly if the walk starts
      rw [submit_get]
      cases hLookup : (s.watched.cache.lookup s.now a.key).1 with
      | some data => simp [claimed?, walk?, Request.address, hLookup, return_, finish, looked]
      | none =>
        by_cases hEmpty : s.world.backends.isEmpty = true
        · simp [claimed?, walk?, Request.address, hLookup, hEmpty, return_, finish, looked]
        · simp [claimed?, walk?, Request.address, hLookup, hEmpty, readOrder_followWalk]

/-- The order of reads moves on with each claim, and only then. -/
theorem readOrder_of_move? (hMove : s.move? m = some t) :
    t.readOrder = if (s.claimed? m).isSome then s.readOrder.claim.2 else s.readOrder := by
  cases m with
  | submit order =>
    cases hMove
    exact readOrder_submit s order
  | submitStream a input failure =>
    cases hMove
    simp only [submitStream]
    split
    · rfl
    · split
      · rfl
      · exact readOrder_put s a _
  | tick time =>
    cases hMove
    unfold tick
    split <;> rfl
  | cache order =>
    cases hMove
    rfl
  | fill key data =>
    cases hMove
    rfl
  | event e =>
    cases e with
    | resume ticket =>
      obtain ⟨r, request, walk, due, held, -, -, -, -, rfl⟩ := resume?_eq_some hMove
      exact readOrder_followWalk ..
    | expire ticket =>
      obtain ⟨r, deadline, request, after, -, -, -, -, rfl⟩ := expire?_eq_some hMove
      rw [giveUp_eq]
      rfl
    | start fan branch =>
      obtain ⟨world, change, -, rfl⟩ := start?_eq_modifyFan hMove
      rfl
    | complete fan branch =>
      obtain ⟨world, change, -, rfl⟩ := complete?_eq_modifyFan hMove
      rfl
    | join ticket =>
      obtain ⟨r, -, ⟨request, fan, f, -, -, -, -, rfl⟩ | ⟨fans, -, -, rfl⟩⟩ := join?_eq_some hMove
      · exact readOrder_settle ..
      · exact readOrder_endDrain ..

/-- A claim is the next turn, and any other move leaves the turns alone. -/
theorem isAt_of_move? (h : s.readOrder.IsAt groups k) (hMove : s.move? m = some t) :
    (s.claimed? m = none ∧ t.readOrder.IsAt groups k) ∨
      (s.claimed? m = some (ReadOrder.turn groups k) ∧ t.readOrder.IsAt groups (k + 1)) := by
  have hOrder := readOrder_of_move? hMove
  obtain ⟨hTurn, hNext⟩ := h.claim
  cases hClaimed : s.claimed? m with
  | none =>
    rw [hClaimed] at hOrder
    exact .inl ⟨rfl, hOrder ▸ h⟩
  | some order =>
    rw [hClaimed] at hOrder
    refine .inr ⟨?_, hOrder ▸ hNext⟩
    rw [claimed?_get hClaimed, hTurn]

/-- The orders that the fetches of a run claim are the turns, one by one. -/
theorem claims_of_run? (h : s.readOrder.IsAt groups k) (hRun : s.run? moves = some t) :
    s.claims moves = (List.range' k (s.claims moves).length).map (ReadOrder.turn groups) ∧
      t.readOrder.IsAt groups (k + (s.claims moves).length) := by
  induction moves generalizing s k with
  | nil =>
    rw [run?, Option.some.injEq] at hRun
    exact ⟨rfl, hRun ▸ h⟩
  | cons m rest ih =>
    obtain ⟨u, hMove, hRest⟩ := run?_cons_eq_some.mp hRun
    have hSplit : s.claims (m :: rest) = (s.claimed? m).toList ++ u.claims rest := by
      rw [claims, noted, hMove]
      rfl
    rw [hSplit]
    rcases isAt_of_move? h hMove with ⟨hNone, hNext⟩ | ⟨hSome, hNext⟩
    · -- no claim, so the turn is still the same
      rw [hNone]
      exact ih hNext hRest
    · obtain ⟨hTurns, hEnd⟩ := ih hNext hRest
      rw [hSome, Option.toList_some, List.singleton_append, List.length_cons, List.range'_succ,
        List.map_cons, ← hTurns]
      refine ⟨rfl, ?_⟩
      rwa [show k + ((u.claims rest).length + 1) = k + 1 + (u.claims rest).length by omega]

end Session

end ReplicatedStore

import ReplicatedStore.Proofs.Backend.Frame

/-!
# What calls do to objects

Each backend of a world holds an object at an address or none, wherever it keeps it: in the world
itself, in files, or behind a gateway, where the server has it. A write that a backend answers has been
done there. A read leaves every object of every backend alone; so does the beginning of a call that is to
be finished later, and so does a call that crashes. A write that fails does so at a faithful backend. A file
can be open already when the disk fails, and a server can have done what it does not reply to, so
directories are faithful on a sound disk only, and gateways if their server is faithful.

Main results:

* `World.follows_begin`, `World.follows_finish` — outcome and objects of the world go together.
* `World.pauses_begin` — a call that is to be finished later has not touched any object yet.
-/

namespace ReplicatedStore

/-- The object at an address in a storage of a world. -/
def Storage.object? (w : World) (a : Address) : Storage → Option Bytes
  | memory _ content => content.objects.get? a
  | directory _ place =>
    match place.objectPath a with
    | .ok path => w.disk.content? path
    | .error _ => none
  | gateway _ peer => w.server.kept w.sent (peer.objectUrl a)
  | scripted script => script.objects.get? a

/-- Whether a storage of a world leaves all objects alone when it does not answer a write. -/
def Storage.IsFaithful (w : World) : Storage → Prop
  | memory .. | scripted _ => True
  | directory .. => w.disk.IsSound
  | gateway .. => w.server.IsFaithful

theorem Storage.isFaithful_blank (w : World) (st : Storage) :
    st.blank.IsFaithful w ↔ st.IsFaithful w := by
  cases st <;> rfl

/-- Whether a storage is faithful is up to the disk and the server, of which calls change nothing that
matters to it. -/
theorem Storage.IsFaithful.of_frame_eq {v w : World} {st : Storage} (h : st.IsFaithful w)
    (hFrame : v.frame = w.frame) : st.IsFaithful v := by
  have hMishaps : v.disk.mishapAt = w.disk.mishapAt := congrArg Frame.mishapAt hFrame
  have hServer : v.server = w.server := congrArg Frame.server hFrame
  cases st with
  | memory codec content => trivial
  | directory codec place => exact fun n => (congrFun hMishaps n).trans (h n)
  | gateway codec peer => exact (congrArg Server.IsFaithful hServer).mpr h
  | scripted script => trivial

namespace World

/-- Whether a backend leaves all objects alone when it does not answer a write. -/
def IsFaithful (w : World) (position : Nat) : Prop :=
  ∀ b, w.backends[position]? = some b → b.storage.IsFaithful w

/-- The object that a backend holds at an address, as it is stored. -/
def objectAt? (w : World) (position : Nat) (a : Address) : Option Bytes :=
  match w.backends[position]? with
  | none => none
  | some b => b.storage.object? w a

/-- Whether a call of a request may hold on to something between its two moments. -/
def Keeps (w : World) (position : Nat) (r : Request) (held : Held) : Prop :=
  ∃ b, w.backends[position]? = some b ∧ b.storage.Keeps r held

/-- Whether a write has been done at a backend. -/
def HasTaken (w : World) (position : Nat) : Request → Prop
  | .put a data => ∃ b content, w.backends[position]? = some b ∧ b.storage.Encodes data content ∧
      w.objectAt? position a = some content
  | .remove a => w.objectAt? position a = none
  | .get _ | .holds _ => True

/-- Whether an outcome of a call tells that all objects were left alone: it is that of a read, or of a
write that has crashed, or has failed at a faithful backend. -/
inductive Spares (w : World) (position : Nat) (r : Request) : Outcome → Prop
  | read {o : Outcome} (h : r.isWrite = false) : Spares w position r o
  | crashed (reason : String) : Spares w position r (.crashed reason)
  | failed (f : Failure) (h : w.IsFaithful position) : Spares w position r (.failed f)

/-- The world after a call and the call's outcome go together. -/
structure Follows (w : World) (position : Nat) (r : Request) (o : Outcome) (v : World) : Prop where
  frame : v.frame = w.frame
  taken : o.isAnswered = true → v.HasTaken position r
  done : r.isWrite = true → ∀ answer, o = .answered answer → answer = .done
  quiet : w.Spares position r o → v.objectAt? = w.objectAt?

/-- The world after the beginning of a call that is to be finished later. -/
structure Pauses (w : World) (position : Nat) (r : Request) (held : Held) (v : World) : Prop where
  frame : v.frame = w.frame
  keeps : v.Keeps position r held
  quiet : v.objectAt? = w.objectAt?

theorem Keeps.of_frame_eq {v w : World} {position : Nat} {r : Request} {held : Held}
    (h : w.Keeps position r held) (hFrame : v.frame = w.frame) : v.Keeps position r held := by
  obtain ⟨b, hb, hKeeps⟩ := h
  obtain ⟨b', hb', hBlank⟩ := exists_of_frame_eq hFrame hb
  exact ⟨b', hb', hKeeps.of_blank_eq (congrArg Backend.storage hBlank)⟩

theorem IsFaithful.of_frame_eq {v w : World} {position : Nat} (h : w.IsFaithful position)
    (hFrame : v.frame = w.frame) : v.IsFaithful position := by
  intro b hb
  obtain ⟨c, hc, hBlank⟩ := exists_of_frame_eq hFrame.symm hb
  have hStorage : c.storage.blank = b.storage.blank := congrArg Backend.storage hBlank
  rw [← Storage.isFaithful_blank, ← hStorage, Storage.isFaithful_blank]
  exact (h c hc).of_frame_eq hFrame

theorem Spares.of_frame_eq {v w : World} {position : Nat} {r : Request} {o : Outcome}
    (h : w.Spares position r o) (hFrame : v.frame = w.frame) : v.Spares position r o := by
  cases h with
  | read hRead => exact .read hRead
  | crashed reason => exact .crashed reason
  | failed f hFaithful => exact .failed f (hFaithful.of_frame_eq hFrame)

/-- Only an answer tells of a write that something has changed at a faithful backend. -/
theorem IsFaithful.spares {w : World} {position : Nat} {o : Outcome} (h : w.IsFaithful position)
    (r : Request) (ho : o.isAnswered = false) : w.Spares position r o := by
  cases o with
  | answered x => contradiction
  | failed f => exact .failed f h
  | crashed reason => exact .crashed reason

/-! ## Objects of a changed world -/

theorem objectAt?_of_eq {v w : World} (hBackends : v.backends = w.backends)
    (hDisk : w.disk.SameFiles v.disk) (hServer : v.server = w.server)
    (hSent : w.server.kept v.sent = w.server.kept w.sent) :
    v.objectAt? = w.objectAt? := by
  -- an object is in the backend itself, in a file or at the server
  funext position a
  unfold objectAt?
  rw [hBackends]
  split
  · rfl
  · rename_i b hb
    cases b.storage with
    | memory codec m => rfl
    | directory codec place =>
      simp only [Storage.object?]
      split
      · exact hDisk.content?_eq _
      · rfl
    | gateway codec peer =>
      rw [Storage.object?, Storage.object?, hServer, hSent]
    | scripted s => rfl

theorem objectAt?_of_isKept {w : World} {position : Nat} {b : Backend}
    (h : w.backends[position]? = some b) (hKept : b.storage.isKept = true) (a : Address) :
    w.objectAt? position a = b.storage.objects.get? a := by
  unfold objectAt?
  rw [h]
  cases hStorage : b.storage with
  | memory codec m => simp [hStorage, Storage.object?, Storage.objects]
  | scripted s => simp [hStorage, Storage.object?, Storage.objects]
  | directory codec place => simp [hStorage, Storage.isKept] at hKept
  | gateway codec peer => simp [hStorage, Storage.isKept] at hKept

/-- A write that was done at a storage that keeps its objects itself has been done as long as the
backend stays as it is. -/
theorem HasTaken.of_backend_eq {w v : World} {position : Nat} {r : Request}
    (h : w.HasTaken position r) {b : Backend} (hb : w.backends[position]? = some b)
    (hKept : b.storage.isKept = true) (hSame : v.backends[position]? = w.backends[position]?) :
    v.HasTaken position r := by
  have hObject (a : Address) : v.objectAt? position a = w.objectAt? position a := by
    rw [objectAt?_of_isKept (hSame.trans hb) hKept, objectAt?_of_isKept hb hKept]
  cases r with
  | put a data =>
    obtain ⟨b', content, hb', hEncodes, hAt⟩ := h
    exact ⟨b', content, hSame.trans hb', hEncodes, (hObject a).trans hAt⟩
  | remove a => exact (hObject a).trans h
  | get a => trivial
  | holds a => trivial

/-- A storage that keeps its objects itself may change whatever else it has. -/
theorem objectAt?_store {w : World} {position : Nat} {b : Backend} {st : Storage}
    (h : w.backends[position]? = some b) (hKept : b.storage.isKept = true)
    (hBlank : st.blank = b.storage.blank) (hObjects : st.objects = b.storage.objects) :
    (w.store position b st).objectAt? = w.objectAt? := by
  funext i a
  by_cases hi : position = i
  · have hSt : st.isKept = true := by rw [Storage.isKept_eq_of_blank_eq hBlank, hKept]
    rw [← hi, objectAt?_of_isKept h hKept, objectAt?_of_isKept (getElem?_store_self st h) hSt,
      hObjects]
  · unfold objectAt?
    rw [store, List.getElem?_set_ne hi]
    rfl

/-- A call of a storage that keeps its objects itself does to the world what it does there. -/
theorem follows_store {w : World} {position : Nat} {b : Backend} {st : Storage} {r : Request}
    {o : Outcome} (h : w.backends[position]? = some b) (hKept : b.storage.isKept = true)
    (hBlank : st.blank = b.storage.blank) (hReflects : Storage.Reflects r o b.storage st) :
    w.Follows position r o (w.store position b st) := by
  have hSt : st.isKept = true := by rw [Storage.isKept_eq_of_blank_eq hBlank, hKept]
  have hSelf := getElem?_store_self st h
  refine ⟨frame_store h hBlank, ?_, ?_, fun hQuiet => ?_⟩
  · intro hAnswered
    cases o with
    | failed f => simp [Outcome.isAnswered] at hAnswered
    | crashed reason => simp [Outcome.isAnswered] at hAnswered
    | answered answer =>
      cases r with
      | put a data =>
        obtain ⟨-, content, hEncodes, hObjects⟩ := hReflects
        refine ⟨_, content, hSelf, hEncodes.of_blank_eq hBlank, ?_⟩
        rw [objectAt?_of_isKept hSelf hSt, hObjects, Objects.get?_insert_self]
      | remove a =>
        obtain ⟨-, hObjects⟩ := hReflects
        rw [HasTaken, objectAt?_of_isKept hSelf hSt, hObjects, Objects.get?_erase_self]
      | get a => trivial
      | holds a => trivial
  · -- the answer to a write carries nothing
    intro hWrite answer hAnswer
    subst hAnswer
    cases r with
    | put a data => exact hReflects.1
    | remove a => exact hReflects.1
    | get a => simp [Request.isWrite] at hWrite
    | holds a => simp [Request.isWrite] at hWrite
  · -- a storage that keeps its objects itself has changed them only if it has answered
    refine objectAt?_store h hKept hBlank (hReflects.objects_eq ?_)
    cases hQuiet with
    | read hRead => exact .inr hRead
    | crashed reason => exact .inl rfl
    | failed f hFaithful => exact .inl rfl

theorem follows_of_failed {w v : World} {position : Nat} {r : Request} (f : Failure)
    (hFrame : v.frame = w.frame)
    (hQuiet : r.isWrite = false ∨ w.IsFaithful position → v.objectAt? = w.objectAt?) :
    w.Follows position r (.failed f) v := by
  refine ⟨hFrame, nofun, nofun, fun h => ?_⟩
  cases h with
  | read hRead => exact hQuiet (.inl hRead)
  | failed f hFaithful => exact hQuiet (.inr hFaithful)

theorem follows_of_done {w v : World} {position : Nat} {r : Request} (hWrite : r.isWrite = true)
    (hFrame : v.frame = w.frame) (hTaken : v.HasTaken position r) :
    w.Follows position r (.answered .done) v := by
  refine ⟨hFrame, fun _ => hTaken, ?_, ?_⟩
  · intro _ answer h
    exact (Outcome.answered.inj h).symm
  · intro h
    cases h with
    | read hRead =>
      rw [hWrite] at hRead
      contradiction

theorem follows_of_read {w v : World} {position : Nat} {r : Request} {o : Outcome}
    (hRead : r.isWrite = false) (hFrame : v.frame = w.frame) (hQuiet : v.objectAt? = w.objectAt?) :
    w.Follows position r o v := by
  refine ⟨hFrame, ?_, ?_, fun _ => hQuiet⟩
  · intro _
    cases r with
    | put a data => simp [Request.isWrite] at hRead
    | remove a => simp [Request.isWrite] at hRead
    | get a => trivial
    | holds a => trivial
  · intro hWrite
    rw [hRead] at hWrite
    contradiction

end World

/-! ## Gateways -/

namespace Gateway

/-- A write is answered if it was replied to with success, and has failed if not. -/
theorem outcome_of_write {codec : Codec} {message : HttpRequest}
    (hMethod : message.method = .put ∨ message.method = .delete) (reply : Exchange) :
    (reply.any (·.isSuccess) = true ∧ outcome codec message reply = .answered .done) ∨
      (reply.any (·.isSuccess) = false ∧ ∃ f, outcome codec message reply = .failed f) := by
  cases reply with
  | none => exact .inr ⟨rfl, _, rfl⟩
  | some reply =>
    by_cases hSuccess : reply.isSuccess = true
    · refine .inl ⟨by simp [hSuccess], ?_⟩
      rcases hMethod with hMethod | hMethod <;> simp [outcome, hMethod, hSuccess]
    · refine .inr ⟨by simp [hSuccess], ?_⟩
      rcases hMethod with hMethod | hMethod <;> simp [outcome, hMethod, hSuccess, unwelcome]

end Gateway

/-! ## Calls -/

namespace World

theorem objectAt?_recounted (w : World) (draws : Nat) (calls : List ScriptedCall) :
    { w with draws, calls }.objectAt? = w.objectAt? :=
  objectAt?_of_eq rfl (Disk.SameFiles.refl _) rfl rfl

/-- How much was drawn and called so far does not matter to what has become of the objects. -/
theorem Follows.recounted {w v : World} {position : Nat} {r : Request} {o : Outcome}
    (h : w.Follows position r o v) (draws : Nat) (calls : List ScriptedCall) :
    w.Follows position r o { v with draws, calls } := by
  have hObjects := objectAt?_recounted v draws calls
  refine ⟨h.frame, fun hAnswered => ?_, h.done, fun hQuiet => hObjects.trans (h.quiet hQuiet)⟩
  have hTaken := h.taken hAnswered
  cases r with
  | put a data =>
    obtain ⟨b, content, hb, hEncodes, hAt⟩ := hTaken
    exact ⟨b, content, hb, hEncodes, by rw [hObjects, hAt]⟩
  | remove a =>
    rw [HasTaken] at hTaken ⊢
    rw [hObjects, hTaken]
  | get a => trivial
  | holds a => trivial

/-- A call that is over at once. -/
theorem follows_begin {w v : World} {position : Nat} {r : Request} {o : Outcome}
    (h : w.begin position r = (v, .over o)) : w.Follows position r o v := by
  cases hb : w.backends[position]? with
  | none =>
    simp only [begin, hb, nobody, Prod.mk.injEq, Begun.over.injEq] at h
    obtain ⟨rfl, rfl⟩ := h
    exact follows_of_failed _ rfl fun _ => rfl
  | some b =>
    by_cases hKept : b.storage.isKept = true
    · obtain ⟨hBegun, draws, calls, hWorld⟩ := begin_of_isKept hb hKept r
      rw [h] at hBegun hWorld
      rw [show v = _ from hWorld]
      refine (follows_store hb hKept (Storage.blank_begin ..) ?_).recounted draws calls
      exact Storage.reflects_begin (Prod.ext rfl hBegun.symm)
    · cases hStorage : b.storage with
      | memory codec m => simp [hStorage, Storage.isKept] at hKept
      | scripted s => simp [hStorage, Storage.isKept] at hKept
      | directory codec place =>
        -- the only call of a directory that is over at once is one that failed
        simp only [begin, hb, hStorage, Directory.begin] at h
        split at h
        · cases h
          exact follows_of_failed _ rfl fun _ => rfl
        · simp at h
      | gateway codec peer => simp [begin, hb, hStorage] at h

/-- A call that is to be finished later. -/
theorem pauses_begin {w v : World} {position : Nat} {r : Request} {delay : Duration} {held : Held}
    (h : w.begin position r = (v, .waiting delay held)) : w.Pauses position r held v := by
  cases hb : w.backends[position]? with
  | none => simp [begin, hb] at h
  | some b =>
    by_cases hKept : b.storage.isKept = true
    · obtain ⟨hBegun, draws, calls, hWorld⟩ := begin_of_isKept hb hKept r
      rw [h] at hBegun hWorld
      have hBlank := Storage.blank_begin w.supply r b.storage
      obtain ⟨hKeeps, hObjects⟩ := Storage.keeps_begin (Prod.ext rfl hBegun.symm)
      rw [show v = _ from hWorld]
      refine ⟨frame_store hb hBlank, ⟨_, getElem?_store_self _ hb, hKeeps.of_blank_eq hBlank⟩, ?_⟩
      exact (objectAt?_recounted _ draws calls).trans (objectAt?_store hb hKept hBlank hObjects)
    · cases hStorage : b.storage with
      | memory codec m => simp [hStorage, Storage.isKept] at hKept
      | scripted s => simp [hStorage, Storage.isKept] at hKept
      | directory codec place =>
        simp only [begin, hb, hStorage, Directory.begin] at h
        split at h
        · simp at h
        · cases h
          refine ⟨rfl, ⟨b, hb, ?_⟩, rfl⟩
          rw [hStorage]
          rfl
      | gateway codec peer =>
        simp only [begin, hb, hStorage, Prod.mk.injEq, Begun.waiting.injEq] at h
        obtain ⟨rfl, -, rfl⟩ := h
        refine ⟨rfl, ⟨b, hb, ?_⟩, rfl⟩
        rw [hStorage]
        rfl

theorem follows_directory {w : World} {position : Nat} {b : Backend} {codec : Codec}
    {place : Directory} (h : w.backends[position]? = some b)
    (hStorage : b.storage = .directory codec place) (r : Request) :
    w.Follows position r (place.call codec w.supply w.disk r).2
      ({ w with disk := (place.call codec w.supply w.disk r).1 }.drawn codec.write) := by
  have hQuiet {disk : Disk} (hFiles : w.disk.SameFiles disk) :
      ({ w with disk }.drawn codec.write).objectAt? = w.objectAt? :=
    objectAt?_of_eq rfl hFiles rfl rfl
  have hFrame : ({ w with disk := (place.call codec w.supply w.disk r).1 }.drawn codec.write).frame =
      w.frame := frame_disk (place.mishapAt_call codec w.supply w.disk r)
  cases r with
  | get a => exact follows_of_read rfl rfl (hQuiet (Disk.SameFiles.refl _))
  | holds a => exact follows_of_read rfl rfl (hQuiet (Disk.SameFiles.refl _))
  | put a data =>
    have hPuts := place.puts codec w.supply w.disk a data
    simp only [Directory.call] at hFrame ⊢
    generalize place.put codec w.supply w.disk a data = result at hPuts hFrame
    cases hPuts with
    | unopened hFiles => exact follows_of_failed _ hFrame fun _ => hQuiet hFiles
    | @spoilt above after path content m hFiles hPath hWrite =>
      refine follows_of_failed _ hFrame fun hFaithful => ?_
      -- nothing comes in the way on a sound disk
      have hSound : w.disk.IsSound := by
        have hHere := hFaithful.resolve_left (by simp [Request.isWrite]) b h
        rwa [hStorage] at hHere
      have hFill := (Disk.write_eq_ok hWrite).2
      rw [Disk.fill_of_isSound fun n => (congrFun hFiles.mishapAt n).trans (hSound n)] at hFill
      cases hFill
    | @written above after path content hFiles hPath hEncode hWrite =>
      refine follows_of_done rfl hFrame ⟨b, content, h, ?_, ?_⟩
      · rw [hStorage]
        exact ⟨_, hEncode⟩
      · simpa [objectAt?, drawn, h, hStorage, Storage.object?, hPath] using
          Disk.content?_write hWrite
  | remove a =>
    simp only [Directory.call] at hFrame ⊢
    rcases place.remove_cases w.disk a with ⟨f, hFailed⟩ | ⟨hOutcome, path, hPath, hRemove⟩
    · rw [hFailed]
      exact follows_of_failed _ rfl fun _ => hQuiet (Disk.SameFiles.refl _)
    · rw [hOutcome]
      refine follows_of_done rfl hFrame ?_
      simpa [HasTaken, objectAt?, drawn, h, hStorage, Storage.object?, hPath] using
        Disk.content?_remove hRemove

/-- An exchange that changes nothing behind a gateway. -/
theorem objectAt?_exchange {w : World} {message : HttpRequest} {draws : Nat}
    (h : w.server.kept (message :: w.sent) = w.server.kept w.sent) :
    { w with draws, sent := message :: w.sent }.objectAt? = w.objectAt? :=
  objectAt?_of_eq rfl (Disk.SameFiles.refl _) rfl h

/-- A write of a gateway that has failed. -/
theorem follows_exchange_of_failed {w : World} {position : Nat} {b : Backend} {codec : Codec}
    {peer : Gateway} (h : w.backends[position]? = some b) (hStorage : b.storage = .gateway codec peer)
    {r : Request} (hWrite : r.isWrite = true) {message : HttpRequest} (f : Failure)
    (hReply : (w.server.reply w.sent message).any (·.isSuccess) = false) :
    w.Follows position r (.failed f) ((w.drawn codec.write).exchange message).1 := by
  refine follows_of_failed f rfl fun hFaithful => objectAt?_exchange ?_
  have hHere := hFaithful.resolve_left (by simp [hWrite]) b h
  rw [hStorage] at hHere
  exact hHere _ _ hReply

/-- A call of a gateway, with what is sent for it. -/
theorem follows_gateway {w : World} {position : Nat} {b : Backend} {codec : Codec} {peer : Gateway}
    (h : w.backends[position]? = some b) (hStorage : b.storage = .gateway codec peer) {r : Request}
    {message : HttpRequest} (hMessage : peer.message codec w.supply r = .ok message) :
    w.Follows position r (Gateway.outcome codec message (w.server.reply w.sent message))
      ((w.drawn codec.write).exchange message).1 := by
  cases r with
  | get a =>
    cases hMessage
    exact follows_of_read rfl rfl (objectAt?_exchange (w.server.kept_look _ _ (.inl rfl)))
  | holds a =>
    cases hMessage
    exact follows_of_read rfl rfl (objectAt?_exchange (w.server.kept_look _ _ (.inr rfl)))
  | put a data =>
    unfold Gateway.message at hMessage
    cases hEncode : (codec.write.encode w.supply data).result with
    | error e => simp [hEncode] at hMessage
    | ok body =>
      simp only [hEncode, Except.ok.injEq] at hMessage
      -- the message carries what was made of the payload to the URL of the object
      have hMethod : message.method = .put := by rw [← hMessage]; rfl
      have hUrl : message.url = peer.objectUrl a := by rw [← hMessage]; rfl
      have hBody : message.body = body := by rw [← hMessage]
      -- a promise that the server has the body is in the status of its reply
      rcases Gateway.outcome_of_write (.inl hMethod) (w.server.reply w.sent message) with
        ⟨hReply, hOutcome⟩ | ⟨hReply, f, hFailed⟩
      · rw [hOutcome]
        refine follows_of_done rfl rfl ⟨b, body, h, ?_, ?_⟩
        · rw [hStorage]
          exact ⟨_, hEncode⟩
        · have hKept := w.server.kept_put w.sent message hMethod hReply
          rw [hUrl, hBody] at hKept
          simpa [objectAt?, exchange, drawn, h, hStorage, Storage.object?] using hKept
      · rw [hFailed]
        exact follows_exchange_of_failed h hStorage rfl f hReply
  | remove a =>
    simp only [Gateway.message, Except.ok.injEq] at hMessage
    have hMethod : message.method = .delete := by rw [← hMessage]; rfl
    have hUrl : message.url = peer.objectUrl a := by rw [← hMessage]; rfl
    rcases Gateway.outcome_of_write (.inr hMethod) (w.server.reply w.sent message) with
      ⟨hReply, hOutcome⟩ | ⟨hReply, f, hFailed⟩
    · rw [hOutcome]
      refine follows_of_done rfl rfl ?_
      have hKept := w.server.kept_delete w.sent message hMethod hReply
      rw [hUrl] at hKept
      simpa [HasTaken, objectAt?, exchange, drawn, h, hStorage, Storage.object?] using hKept
    · rw [hFailed]
      exact follows_exchange_of_failed h hStorage rfl f hReply

/-- A call that is finished with what it held on to. -/
theorem follows_finish {w : World} {position : Nat} {r : Request} {held : Held}
    (h : w.Keeps position r held) :
    w.Follows position r (w.finish position held).2 (w.finish position held).1 := by
  obtain ⟨b, hb, hKeeps⟩ := h
  by_cases hKept : b.storage.isKept = true
  · obtain ⟨hOutcome, hWorld⟩ := finish_of_isKept hb hKept hKeeps
    rw [hOutcome, hWorld]
    exact follows_store hb hKept (Storage.blank_finish ..) (Storage.reflects_finish hKeeps)
  · cases hStorage : b.storage with
    | memory codec m => simp [hStorage, Storage.isKept] at hKept
    | scripted s => simp [hStorage, Storage.isKept] at hKept
    | directory codec place =>
      rw [hStorage] at hKeeps
      cases hKeeps
      simp only [finish, hb, hStorage]
      exact follows_directory hb hStorage r
    | gateway codec peer =>
      rw [hStorage] at hKeeps
      cases hKeeps
      simp only [finish, hb, hStorage]
      split
      · exact follows_of_failed _ rfl fun _ => rfl
      · rename_i message hMessage
        exact follows_gateway hb hStorage hMessage

end World

end ReplicatedStore

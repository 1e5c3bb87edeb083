import ReplicatedStore.Backend.Request
import ReplicatedStore.Http
import ReplicatedStore.Pipeline.Codec
import ReplicatedStore.Url.Reading

/-!
# Backends behind a gateway

A gateway keeps each object under its own URL: below the base, one segment for the container and one
for each part of the name between slashes. Writes, reads, removals and checks are PUT, GET, DELETE and
HEAD of that URL, and what its replies mean is told by their status.
-/

namespace ReplicatedStore

/-- A gateway, and the token that it asks for. -/
structure Gateway where
  base : Url
  token : Option String := none
  deriving DecidableEq, Repr

namespace Gateway

/-- Whether a text can be sent as a token: no control characters but tabs. -/
def isToken (token : String) : Bool :=
  token.toList.all fun c => c = '\t' || (32 ≤ c.toNat && c.toNat ≠ 127)

/-- The gateway of a backend at a URL. -/
def ofSettings (name url : String) (token : Option String) : Except StoreError Gateway :=
  let refuse (text : String) : Except StoreError Gateway := .error (.invalidConfig (.said text))
  match Url.parse url with
  | .error e => refuse s!"invalid url '{url}' for backend '{name}': {e.message}"
  | .ok base =>
    if !base.isDivided then refuse s!"url '{url}' for backend '{name}' cannot carry object paths"
    else if token.any fun t => !isToken t then refuse s!"invalid API token for backend '{name}'"
    else .ok { base, token }

def objectUrl (g : Gateway) (a : Address) : Url :=
  g.base.extend (a.container :: Text.split '/' a.name)

def bare (g : Gateway) (method : HttpMethod) (url : Url) : HttpRequest :=
  { method, url, authorization := g.token.map ("Bearer " ++ ·) }

/-- What is sent for a store request, or why nothing can be. -/
def message (g : Gateway) (codec : Codec) (nonces : Nat → Nonce) :
    Request → Except EncodingError HttpRequest
  | .get a => .ok (g.bare .get (g.objectUrl a))
  | .remove a => .ok (g.bare .delete (g.objectUrl a))
  | .holds a => .ok (g.bare .head (g.objectUrl a))
  | .put a data =>
    match (codec.write.encode nonces data).result with
    | .error e => .error e
    | .ok body =>
      .ok { g.bare .put (g.objectUrl a) with body, contentType := some "application/octet-stream" }

/-- What a check of the gateway sends. -/
def checkMessage (g : Gateway) : HttpRequest := g.bare .get g.base

/-- The failure that a reply with an unwelcome status means. -/
def unwelcome (sent : HttpRequest) (reply : HttpReply) : Outcome :=
  let head := s!"{sent.method.word} {sent.url.text} failed with status {reply.statusText}"
  .failed (.said (if sent.method = .head then head else s!"{head}: {reply.bodyText}"))

def outcome (codec : Codec) (sent : HttpRequest) : Exchange → Outcome
  | none => .failed ⟨[.said "Failed to send request", .exchange]⟩
  | some reply =>
    match sent.method with
    | .put | .delete => if reply.isSuccess then .answered .done else unwelcome sent reply
    | .head =>
      if reply.isSuccess then .answered (.presence true)
      else if reply.status = 404 then .answered (.presence false)
      else unwelcome sent reply
    | .get =>
      if !reply.isSuccess then unwelcome sent reply
      -- a welcome status says nothing of the body, which may break off
      else if !reply.complete then .failed ⟨[.said "Failed to read response body", .exchange]⟩
      else
        match (codec.read.decode reply.body).result with
        | .ok data => .answered (.content data)
        | .error e => .failed (.encoding e)

/-- Whether a gateway is well by the reply to a check. -/
def isWell : Exchange → Bool
  | none => false
  | some reply => !reply.isServerError

end Gateway

end ReplicatedStore

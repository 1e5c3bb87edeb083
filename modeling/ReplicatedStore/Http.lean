import ReplicatedStore.Bytes
import ReplicatedStore.Url.Basic

/-!
# Exchanges over HTTP

What is sent to a gateway, and what comes of it: the exchange breaks off, or there is a reply, whose
body may be cut short. What replies, and keeps contents, is a server. A reply of success is a promise about
what it keeps; without one it may have done what it was asked, or a part of it, or nothing.
-/

namespace ReplicatedStore

/-- What is asked of a resource. -/
inductive HttpMethod
  | get
  | put
  | delete
  | head
  deriving DecidableEq, Repr

def HttpMethod.word : HttpMethod → String
  | get => "GET"
  | put => "PUT"
  | delete => "DELETE"
  | head => "HEAD"

/-- What is sent. -/
structure HttpRequest where
  method : HttpMethod
  url : Url
  authorization : Option String := none
  contentType : Option String := none
  body : Bytes := []
  deriving DecidableEq, Repr

/-- What is received. -/
structure HttpReply where
  status : Nat
  body : Bytes
  /-- whether the body came to its announced end -/
  complete : Bool := true
  deriving DecidableEq, Repr

/-- How an exchange ends; without a reply if it breaks off. -/
abbrev Exchange := Option HttpReply

namespace HttpReply

/-- The phrases that belong to statuses. -/
def phrases : List (Nat × String) :=
  [(100, "Continue"), (101, "Switching Protocols"), (102, "Processing"), (200, "OK"),
    (201, "Created"), (202, "Accepted"), (203, "Non Authoritative Information"),
    (204, "No Content"), (205, "Reset Content"), (206, "Partial Content"), (207, "Multi-Status"),
    (208, "Already Reported"), (226, "IM Used"), (300, "Multiple Choices"),
    (301, "Moved Permanently"), (302, "Found"), (303, "See Other"), (304, "Not Modified"),
    (305, "Use Proxy"), (307, "Temporary Redirect"), (308, "Permanent Redirect"),
    (400, "Bad Request"), (401, "Unauthorized"), (402, "Payment Required"), (403, "Forbidden"),
    (404, "Not Found"), (405, "Method Not Allowed"), (406, "Not Acceptable"),
    (407, "Proxy Authentication Required"), (408, "Request Timeout"), (409, "Conflict"),
    (410, "Gone"), (411, "Length Required"), (412, "Precondition Failed"),
    (413, "Payload Too Large"), (414, "URI Too Long"), (415, "Unsupported Media Type"),
    (416, "Range Not Satisfiable"), (417, "Expectation Failed"), (418, "I'm a teapot"),
    (421, "Misdirected Request"), (422, "Unprocessable Entity"), (423, "Locked"),
    (424, "Failed Dependency"), (425, "Too Early"), (426, "Upgrade Required"),
    (428, "Precondition Required"), (429, "Too Many Requests"),
    (431, "Request Header Fields Too Large"), (451, "Unavailable For Legal Reasons"),
    (500, "Internal Server Error"), (501, "Not Implemented"), (502, "Bad Gateway"),
    (503, "Service Unavailable"), (504, "Gateway Timeout"), (505, "HTTP Version Not Supported"),
    (506, "Variant Also Negotiates"), (507, "Insufficient Storage"), (508, "Loop Detected"),
    (510, "Not Extended"), (511, "Network Authentication Required")]

def statusText (r : HttpReply) : String :=
  toString r.status ++ " " ++ (phrases.lookup r.status).getD "<unknown status code>"

def isSuccess (r : HttpReply) : Bool := 200 ≤ r.status && r.status < 300

/-- Whether a reply reports a fault of the gateway. -/
def isServerError (r : HttpReply) : Bool := 500 ≤ r.status && r.status < 600

/-- The body as a text; nothing of one that was cut short. -/
def bodyText (r : HttpReply) : String := if r.complete then Bytes.toTextLossy r.body else ""

end HttpReply

/-- What is behind gateways. It may go by all that was sent before, which is listed the last one first. -/
structure Server where
  reply : (earlier : List HttpRequest) → HttpRequest → Exchange
  /-- what is kept at a URL after all that was sent -/
  kept : (sent : List HttpRequest) → Url → Option Bytes
  /-- a content is kept if its PUT was replied to with success -/
  kept_put : ∀ earlier message, message.method = .put →
    (reply earlier message).any (·.isSuccess) = true →
      kept (message :: earlier) message.url = some message.body
  /-- nothing is kept if a DELETE was replied to with success -/
  kept_delete : ∀ earlier message, message.method = .delete →
    (reply earlier message).any (·.isSuccess) = true → kept (message :: earlier) message.url = none
  /-- nothing changes by a GET or a HEAD -/
  kept_look : ∀ earlier message, message.method = .get ∨ message.method = .head →
    kept (message :: earlier) = kept earlier

namespace Server

/-- No network is connected: all exchanges break off. -/
def unreachable : Server where
  reply _ _ := none
  kept _ _ := none
  kept_put _ _ _ h := nomatch h
  kept_delete _ _ _ h := nomatch h
  kept_look _ _ _ := rfl

/-- Whether a request changes nothing that is not replied to with success. -/
def IsFaithful (s : Server) : Prop :=
  ∀ earlier message, (s.reply earlier message).any (·.isSuccess) = false →
    s.kept (message :: earlier) = s.kept earlier

end Server

end ReplicatedStore

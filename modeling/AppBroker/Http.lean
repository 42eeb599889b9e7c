import AppBroker.Plugin
import AppBroker.Url.Request

/-!
# Requests to the routing service

A request has a method, a URL, an authorisation and possibly endpoints for its body. The service
answers with a status, or the connection is refused or times out. Every status outside of 200 to
299 is a failure, worded by the class that it belongs to.
-/

namespace AppBroker

/-- How the routing service answers. -/
inductive HttpReply where
  | status (code : Nat)
  | refused
  | timedOut
  deriving DecidableEq, Repr

/-- A request as it was sent. -/
structure HttpRequest where
  method : String
  url : String
  authorization : Option String
  endpoints : Option (List Endpoint)
  deriving DecidableEq, Repr

namespace HttpReply

/-- The standard phrases for statuses. -/
def phrases : List (Nat × String) :=
  [(100, "Continue"), (101, "Switching Protocols"), (102, "Processing"), (103, "Early Hints"),
   (200, "OK"), (201, "Created"), (202, "Accepted"), (203, "Non-Authoritative Information"),
   (204, "No Content"), (205, "Reset Content"), (206, "Partial Content"), (207, "Multi-Status"),
   (208, "Already Reported"), (226, "IM Used"), (300, "Multiple Choices"),
   (301, "Moved Permanently"), (302, "Found"), (303, "See Other"), (304, "Not Modified"),
   (305, "Use Proxy"), (307, "Temporary Redirect"), (308, "Permanent Redirect"),
   (400, "Bad Request"), (401, "Unauthorized"), (402, "Payment Required"), (403, "Forbidden"),
   (404, "Not Found"), (405, "Method Not Allowed"), (406, "Not Acceptable"),
   (407, "Proxy Authentication Required"), (408, "Request Timeout"), (409, "Conflict"),
   (410, "Gone"), (411, "Length Required"), (412, "Precondition Failed"),
   (413, "Request Entity Too Large"), (414, "Request-URI Too Long"),
   (415, "Unsupported Media Type"), (416, "Requested Range Not Satisfiable"),
   (417, "Expectation Failed"), (418, "I'm a teapot"), (421, "Misdirected Request"),
   (422, "Unprocessable Entity"), (423, "Locked"), (424, "Failed Dependency"), (425, "Too Early"),
   (426, "Upgrade Required"), (428, "Precondition Required"), (429, "Too Many Requests"),
   (431, "Request Header Fields Too Large"), (451, "Unavailable For Legal Reasons"),
   (500, "Internal Server Error"), (501, "Not Implemented"), (502, "Bad Gateway"),
   (503, "Service Unavailable"), (504, "Gateway Timeout"), (505, "HTTP Version Not Supported"),
   (506, "Variant Also Negotiates"), (507, "Insufficient Storage"), (508, "Loop Detected"),
   (510, "Not Extended"), (511, "Network Authentication Required")]

/-- The name of a class of statuses that are failures. -/
def className (code : Nat) : String :=
  match code / 100 with
  | 1 => "Informational response"
  | 3 => "Redirect response"
  | 4 => "Client error"
  | 5 => "Server error"
  | _ => "Invalid status code"

/-- Whether a status is a success. -/
def isSuccess (code : Nat) : Bool := 200 ≤ code && code ≤ 299

/-- The wording of a failure status. -/
def statusText (code : Nat) (url : String) : String :=
  className code ++ " '" ++ toString code ++ " " ++ (phrases.lookup code).getD "" ++ "' for url '"
    ++ url ++ "'"

/-- Why a reply is a failure, if it is one. -/
def failure? (url : String) : HttpReply → Option String
  | refused => some "refused"
  | timedOut => some "timed out"
  | status code => if isSuccess code then none else some (statusText code url)

end HttpReply

end AppBroker

import HttpFraming.Bytes

/-!
# Start lines

What the start lines of messages are made of: versions, methods, statuses and request
targets. Each is a value that can be written as it stands; what cannot be read has none.
-/

namespace HttpFraming

open Bytes

/-! ## Versions -/

/-- Five versions can be named; only the two of the 1.x family can be read or written. -/
inductive Version
  | http09
  | http10
  | http11
  | http2
  | http3
deriving DecidableEq, Repr

namespace Version

/-- Major and minor number as one, ten times the major one. -/
def rank : Version → Nat
  | http09 => 9
  | http10 => 10
  | http11 => 11
  | http2 => 20
  | http3 => 30

/-- From 1.1 on connections persist by default and expectations are honoured. -/
def isPersistent (version : Version) : Bool :=
  http11.rank ≤ version.rank

def written? : Version → Option Bytes
  | http10 => some (Bytes.ascii "HTTP/1.0")
  | http11 => some (Bytes.ascii "HTTP/1.1")
  | _ => none

end Version

/-! ## Methods -/

/-- A token, compared with its case. -/
structure Method where
  bytes : Bytes
  valid : (!bytes.isEmpty && bytes.all Bytes.isToken) = true
deriving DecidableEq

namespace Method

def ofBytes? (bytes : Bytes) : Option Method :=
  if h : (!bytes.isEmpty && bytes.all Bytes.isToken) = true then some ⟨bytes, h⟩ else none

def get : Method :=
  ⟨Bytes.ascii "GET", by decide⟩

def head : Method :=
  ⟨Bytes.ascii "HEAD", by decide⟩

def connect : Method :=
  ⟨Bytes.ascii "CONNECT", by decide⟩

end Method

/-! ## Statuses -/

structure Status where
  code : Nat
  three_digits : 100 ≤ code ∧ code ≤ 999 := by decide
deriving DecidableEq

namespace Status

def ofNat? (code : Nat) : Option Status :=
  if h : 100 ≤ code ∧ code ≤ 999 then some ⟨code, h⟩ else none

def proceed : Status :=
  ⟨100, by decide⟩

def switchingProtocols : Status :=
  ⟨101, by decide⟩

def ok : Status :=
  ⟨200, by decide⟩

def noContent : Status :=
  ⟨204, by decide⟩

def resetContent : Status :=
  ⟨205, by decide⟩

def notModified : Status :=
  ⟨304, by decide⟩

def badRequest : Status :=
  ⟨400, by decide⟩

def payloadTooLarge : Status :=
  ⟨413, by decide⟩

def expectationFailed : Status :=
  ⟨417, by decide⟩

def internalServerError : Status :=
  ⟨500, by decide⟩

def isInformational (status : Status) : Bool :=
  status.code < 200

def isSuccess (status : Status) : Bool :=
  200 ≤ status.code && status.code < 300

/-- An interim response is followed by another response to the same request. -/
def isInterim (status : Status) : Bool :=
  status.isInformational && status != switchingProtocols

/-- Statuses whose responses never have a body, whatever the request was. -/
def isBodiless (status : Status) : Bool :=
  status.isInformational || status == noContent || status == notModified

def digits (status : Status) : Bytes :=
  Numeral.write 10 status.code

def reason (status : Status) : String :=
  match status.code with
  | 100 => "Continue"
  | 101 => "Switching Protocols"
  | 102 => "Processing"
  | 103 => "Early Hints"
  | 200 => "OK"
  | 201 => "Created"
  | 202 => "Accepted"
  | 203 => "Non Authoritative Information"
  | 204 => "No Content"
  | 205 => "Reset Content"
  | 206 => "Partial Content"
  | 207 => "Multi-Status"
  | 208 => "Already Reported"
  | 226 => "IM Used"
  | 300 => "Multiple Choices"
  | 301 => "Moved Permanently"
  | 302 => "Found"
  | 303 => "See Other"
  | 304 => "Not Modified"
  | 305 => "Use Proxy"
  | 307 => "Temporary Redirect"
  | 308 => "Permanent Redirect"
  | 400 => "Bad Request"
  | 401 => "Unauthorized"
  | 402 => "Payment Required"
  | 403 => "Forbidden"
  | 404 => "Not Found"
  | 405 => "Method Not Allowed"
  | 406 => "Not Acceptable"
  | 407 => "Proxy Authentication Required"
  | 408 => "Request Timeout"
  | 409 => "Conflict"
  | 410 => "Gone"
  | 411 => "Length Required"
  | 412 => "Precondition Failed"
  | 413 => "Payload Too Large"
  | 414 => "URI Too Long"
  | 415 => "Unsupported Media Type"
  | 416 => "Range Not Satisfiable"
  | 417 => "Expectation Failed"
  | 418 => "I'm a teapot"
  | 421 => "Misdirected Request"
  | 422 => "Unprocessable Entity"
  | 423 => "Locked"
  | 424 => "Failed Dependency"
  | 425 => "Too Early"
  | 426 => "Upgrade Required"
  | 428 => "Precondition Required"
  | 429 => "Too Many Requests"
  | 431 => "Request Header Fields Too Large"
  | 451 => "Unavailable For Legal Reasons"
  | 500 => "Internal Server Error"
  | 501 => "Not Implemented"
  | 502 => "Bad Gateway"
  | 503 => "Service Unavailable"
  | 504 => "Gateway Timeout"
  | 505 => "HTTP Version Not Supported"
  | 506 => "Variant Also Negotiates"
  | 507 => "Insufficient Storage"
  | 508 => "Loop Detected"
  | 510 => "Not Extended"
  | 511 => "Network Authentication Required"
  | _ => ""

end Status

/-! ## Request targets

A target names a resource (`/path?query`, or `*`), an authority (`host:80`), or
both behind a scheme. Reading splits the bytes at their delimiters and then checks
each part on its own; a fragment is dropped unchecked. -/

namespace Target

/-- A path with an optional query. After a scheme the path may be empty. -/
structure Resource where
  path : Bytes
  query? : Option Bytes
deriving DecidableEq

inductive Form
  | resource (r : Resource)
  | authority (a : Bytes)
  | absolute (scheme a : Bytes) (r : Resource)
deriving DecidableEq

def slash : UInt8 := 47

def question : UInt8 := 63

def hash : UInt8 := 35

def colon : UInt8 := 58

/-! ### Parts -/

def maxScheme : Nat :=
  64

def isSchemeByte (b : UInt8) : Bool :=
  isLetter b || isDigit b || (ascii "+-.~").contains b

def isScheme (scheme : Bytes) : Bool :=
  scheme.length ≤ maxScheme && scheme.all isSchemeByte

def isAuthorityByte (b : UInt8) : Bool :=
  isLetter b || isDigit b || (ascii "!#$&'()*+,-./:;=?@[]_~").contains b

/-- What a scan of an authority remembers: the colons since the last user or
bracket part, the brackets seen, a percent sign that no `@` or `]` has closed,
and whether the last byte was an `@`. -/
structure AuthorityScan where
  colons : Nat := 0
  opened : Bool := false
  closed : Bool := false
  percent : Bool := false
  atEnd : Bool := false

/-- The most colons in one part: an address of eight groups has seven, and a number may follow. -/
def maxColons : Nat :=
  8

def AuthorityScan.step (scan : AuthorityScan) (b : UInt8) : Option AuthorityScan :=
  let scan := { scan with atEnd := false }
  if b = colon then
    if scan.colons < maxColons then some { scan with colons := scan.colons + 1 } else none
  else if b = 91 then
    if scan.percent || scan.opened then none else some { scan with opened := true }
  else if b = 93 then
    if !scan.opened || scan.closed then none
    else some { scan with closed := true, colons := 0, percent := false }
  else if b = 64 then
    some { scan with colons := 0, percent := false, atEnd := true }
  else if b = 37 then
    some { scan with percent := true }
  else if isAuthorityByte b then some scan
  else none

def AuthorityScan.accepts (scan : AuthorityScan) : Bool :=
  scan.opened == scan.closed && scan.colons ≤ 1 && !scan.atEnd && !scan.percent

def endsAuthority (b : UInt8) : Bool :=
  b == slash || b == question || b == hash

def isAuthority (authority : Bytes) : Bool :=
  !authority.isEmpty && !authority.any endsAuthority &&
    (authority.foldlM AuthorityScan.step {}).any AuthorityScan.accepts

def isPathByte (b : UInt8) : Bool :=
  b == 0x21 || (0x24 ≤ b && b ≤ 0x3B) || b == 0x3D || (0x40 ≤ b && b ≤ 0x5F) ||
    (0x61 ≤ b && b ≤ 0x7A) || (ascii "|~\"\x7b\x7d").contains b || 0x80 ≤ b

def isQueryByte (b : UInt8) : Bool :=
  b == 0x21 || (0x24 ≤ b && b ≤ 0x3B) || b == 0x3D || (0x3F ≤ b && b ≤ 0x7E) || 0x80 ≤ b

def Resource.render (resource : Resource) : Bytes :=
  resource.path ++ resource.query?.elim [] (question :: ·)

def Resource.isWellFormed (resource : Resource) : Bool :=
  resource.path.all isPathByte && resource.query?.all (·.all isQueryByte) &&
    Utf8.isWellFormed resource.render

/-- Splits at the first hash, which is dropped, and then at the first question mark. -/
def Resource.split (bytes : Bytes) : Resource :=
  let kept := bytes.takeWhile (· != hash)
  ⟨kept.takeWhile (· != question), (kept.dropWhile (· != question)).tail?⟩

/-- A path begins with a slash; the asterisk stands for the server as a whole. -/
def startsResource (bytes : Bytes) : Bool :=
  bytes.head? == some slash || bytes == ascii "*"

def Form.isWellFormed : Form → Bool
  | .resource r => startsResource r.path && r.isWellFormed
  | .authority a => isAuthority a
  | .absolute s a r =>
      isScheme s && isAuthority a && r.isWellFormed &&
        (r.path.isEmpty || r.path.head? == some slash)

/-- The scheme before `://`. The two schemes of the web are kept in small letters. -/
def splitScheme? (bytes : Bytes) : Option (Bytes × Bytes) :=
  let scheme := bytes.takeWhile isSchemeByte
  let rest := bytes.dropWhile isSchemeByte
  if rest.take 3 == ascii "://" then
    let small := scheme.map lower
    let known := small == ascii "http" || small == ascii "https"
    some (if known then small else scheme, rest.drop 3)
  else none

def Form.split (bytes : Bytes) : Form :=
  if startsResource bytes then .resource (Resource.split bytes)
  else
    match splitScheme? bytes with
    | none => .authority bytes
    | some (scheme, rest) =>
        .absolute scheme (rest.takeWhile fun b => !endsAuthority b)
          (Resource.split (rest.dropWhile fun b => !endsAuthority b))

/-- The text of a target; an empty path after an authority is written as a slash. -/
def Form.render : Form → Bytes
  | .resource r => r.render
  | .authority a => a
  | .absolute s a r =>
      let path := if r.path.isEmpty then [slash] else r.path
      s ++ ascii "://" ++ a ++ { r with path }.render

end Target

structure Target where
  form : Target.Form
  valid : form.isWellFormed = true
deriving DecidableEq

namespace Target

def maxLength : Nat :=
  65534

def root : Target :=
  ⟨.resource ⟨[slash], none⟩, by decide⟩

def read? (bytes : Bytes) : Option Target :=
  let form := Form.split bytes
  if h : bytes.length ≤ maxLength ∧ form.isWellFormed = true then some ⟨form, h.2⟩ else none

def render (target : Target) : Bytes :=
  target.form.render

end Target

end HttpFraming

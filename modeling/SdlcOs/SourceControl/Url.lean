/-
The URL of a request (source-control: github_client.py, `_send`).

A path is spliced into the URL as it is, a query is encoded. `urlopen`
takes the blanks from both ends of a URL, and what comes after its last
`#` from what it sends; it sends nothing where a character of the rest
is not one of ASCII that is printed. A URL here begins with `http`, so
that nothing else is unwrapped.

What a URL says is read from its front: the fragment is what comes after
the first `#`, the query what comes after the first `?` before it.
-/
import SdlcOs.Gates.Service
import SdlcOs.SourceControl.Service

namespace SdlcOs.SourceControl

variable {φ : Type}

-- ==== query

/-- A character that is never quoted. -/
def unquoted (c : Char) : Bool :=
  c.isAlphanum || c = '_' || c = '.' || c = '-' || c = '~'

def hexDigit (n : Nat) : Char :=
  if n < 10 then Char.ofNat (48 + n) else Char.ofNat (55 + n)

/-- A byte, quoted. -/
def percent (b : UInt8) : List Char :=
  ['%', hexDigit (b.toNat / 16), hexDigit (b.toNat % 16)]

def quoteChar (c : Char) : List Char :=
  if unquoted c then [c]
  else if c = ' ' then ['+']
  else (String.utf8EncodeChar c).flatMap percent

/-- `quote_plus`. -/
def quotePlus (s : String) : List Char := s.toList.flatMap quoteChar

/-- `urlencode`. -/
def urlencode (query : List (String × String)) : List Char :=
  ['&'].intercalate
    (query.map fun kv => quotePlus kv.1 ++ ['='] ++ quotePlus kv.2)

/-- A query, if there is one. -/
def builtQuery (query : List (String × String)) : Option (List Char) :=
  if query.isEmpty then none else some (urlencode query)

/-- `url`, as `_send` builds it. -/
def Request.builtUrl (r : Request φ) : List Char :=
  r.url.toList ++ (builtQuery r.query).elim [] ('?' :: ·)

-- ==== wire

/-- A character that a request line may have. -/
def printed (c : Char) : Bool := 0x21 ≤ c.toNat && c.toNat ≤ 0x7e

/-- What comes before the last `#`. -/
def cutTag : List Char → List Char
  | [] => []
  | c :: s => if c = '#' && !s.contains '#' then [] else c :: cutTag s

/-- What comes after the host. -/
def afterHost (url : List Char) : List Char :=
  ((url.dropWhile (· ≠ ':')).drop 3).dropWhile fun c =>
    c ≠ '/' && c ≠ '?' && c ≠ '#'

/-- The URL that a request is sent to, if it is sent. -/
def Request.sentUrl (r : Request φ) : Option (List Char) :=
  let url := (Gates.strip (.ofList r.builtUrl)).toList
  if (afterHost (cutTag url)).all printed then some url else none

/-- What comes before the first `#`. -/
def cutFragment (url : List Char) : List Char := url.takeWhile (· ≠ '#')

/-- The path of a URL. -/
def urlPath (url : List Char) : List Char :=
  afterHost ((cutFragment url).takeWhile (· ≠ '?'))

/-- The query of a URL, if it has one. -/
def urlQuery (url : List Char) : Option (List Char) :=
  ((cutFragment url).dropWhile (· ≠ '?')).tail?

end SdlcOs.SourceControl

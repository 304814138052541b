import MuseCodex.Gateway.Validator
import MuseCodex.Headers

/-!
# Answers and errors of the transports

What the two transports of `crates/codex-transport` return for a request: an answer of the upstream
whose body has not been read, or one of the errors of `error.rs`. An error of the operating system,
of the keyring, or of the HTTP client is its text.

Names of headers are in lower case, as the HTTP library keeps them.
-/

namespace MuseCodex.Transport

open Text

/-! ## Statuses and headers -/

/-- Whether a status is one of success. -/
def isSuccess (status : ℕ) : Bool := 200 ≤ status && status < 300

/-- Whether a status puts the fault with the client. -/
def isClientError (status : ℕ) : Bool := 400 ≤ status && status < 500

/-- The headers of a request or of an answer. -/
abbrev HeaderMap := Headers String Bytes

/-- The text of a header value, which must be printable ASCII. -/
def headerText (value : Bytes) : Option String :=
  if value.all fun b => b = 9 || (0x20 ≤ b && b < 0x7f) then fromUtf8 value else none

/-- The text of the first value of a header. -/
def headerStr (headers : HeaderMap) (name : String) : Option String :=
  (headers.get name).bind headerText

/-- A header value with a text: no control character but a tab may stand in it. -/
def headerValue (text : String) : Option Bytes :=
  if (toUtf8 text).all fun b => b = 9 || (0x20 ≤ b && b ≠ 0x7f) then some (toUtf8 text) else none

/-! ## Errors and answers -/

/-- The errors of the transports. -/
inductive Error where
  | dataDirectoryUnavailable
  | invalidAuthHome (reason : String)
  | authentication (reason : String)
  | notAuthenticated
  | zaiNotAuthenticated
  | keyring (reason : String)
  | providerUnsupported (feature : String)
  | unsupportedAuthMode
  | customBaseUrlRequiresApiKey
  | invalidBaseUrl
  | emptyApiKey
  | apiKeyTooLong (limit : ℕ)
  | apiKeyNotUtf8
  | apiKeyContainsWhitespace
  | apiKeyContainsControlCharacters
  | invalidRequest (reason : String)
  | fastModeUnavailable
  | invalidHeader (reason : String)
  | provider (reason : String)
  | http (reason : String)
  | httpClient (reason : String)
  | credentialRefreshLock (reason : String)
  | upstream (status : ℕ) (summary : String)
  | invalidUpstreamResponse (reason : String)
  | io (reason : String)
deriving DecidableEq

/-- An answer of the upstream. The body is what polling it returns. -/
structure RawResponse where
  status : ℕ
  headers : HeaderMap
  body : List Gateway.Poll

end MuseCodex.Transport

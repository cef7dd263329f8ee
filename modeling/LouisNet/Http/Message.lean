import LouisNet.Lib.CLib
import LouisNet.Lib.SortedMap

set_option relaxedAutoImplicit false
set_option autoImplicit false

/-!
# HTTP requests and responses

The structure `HttpRequest` (`src/net/http/HttpRequest.h`) and the class `HttpResponse`
(`src/net/http/HttpResponse.h`, `src/net/http/HttpResponse.cc`). The `std::map` of response
headers is a sorted map, since `toString` visits it in key order; the `std::unordered_map` of
request headers, which is only looked up, has the same representation.

## Main definitions

* `LouisNet.Http.HttpRequest`, `LouisNet.Http.HttpResponse` — the two messages.
* `LouisNet.Http.HttpResponse.toString` — the bytes of a response.
-/

namespace LouisNet.Http

open Lib

/-- The line terminator `\r\n`. -/
def crlf : Bytes := [13, 10]

/-- The headers of a message. -/
abbrev HeaderMap : Type := SortedMap Bytes Bytes

/-! ## Requests -/

/-- `HttpRequest`. -/
structure HttpRequest where
  method_ : Bytes := []
  path_ : Bytes := []
  version_ : Bytes := []
  headers_ : HeaderMap := .empty
  body_ : Bytes := []
  deriving DecidableEq

/-- `HttpRequest::reset`. -/
def HttpRequest.reset (r : HttpRequest) : HttpRequest :=
  { r with method_ := [], path_ := [], version_ := [], headers_ := .empty, body_ := [] }

/-! ## Responses -/

/-- The text of a status code. -/
def getStatusMessage (code : ℤ) : Bytes :=
  if code = 200 then ascii "OK"
  else if code = 400 then ascii "Bad Request"
  else if code = 404 then ascii "Not Found"
  else if code = 500 then ascii "Internal Server Error"
  else ascii "Unknown"

/-- `HttpResponse`, with the initialisers of its members. -/
structure HttpResponse where
  version_ : Bytes := ascii "HTTP/1.1"
  statusCode_ : ℤ := 200
  headers_ : HeaderMap := .empty
  body_ : Bytes := []
  deriving DecidableEq

namespace HttpResponse

/-- `HttpResponse::setVersion`. -/
def setVersion (r : HttpResponse) (version : Bytes) : HttpResponse := { r with version_ := version }

/-- `HttpResponse::setStatusCode`. -/
def setStatusCode (r : HttpResponse) (statusCode : ℤ) : HttpResponse :=
  { r with statusCode_ := statusCode }

/-- `HttpResponse::setHeader`. -/
def setHeader (r : HttpResponse) (key value : Bytes) : HttpResponse :=
  { r with headers_ := r.headers_.insert key value }

/-- `HttpResponse::setBody`, in its three overloads. -/
def setBody (r : HttpResponse) (body : Bytes) : HttpResponse := { r with body_ := body }

/-- `HttpResponse::reset`. -/
def reset (r : HttpResponse) : HttpResponse :=
  { r with version_ := [], statusCode_ := 200, headers_ := .empty, body_ := [] }

/-- The status line, without its terminator. -/
def statusLine (r : HttpResponse) : Bytes :=
  r.version_ ++ ascii " " ++ Lib.toString r.statusCode_ ++ ascii " " ++
    getStatusMessage r.statusCode_

/-- A header line, without its terminator. -/
def headerLine (e : Bytes × Bytes) : Bytes := e.1 ++ ascii ": " ++ e.2

/-- `HttpResponse::toString`. -/
def toString (r : HttpResponse) : Bytes :=
  r.statusLine ++ crlf ++ (r.headers_.entries.flatMap fun e => headerLine e ++ crlf) ++ crlf ++
    r.body_

end HttpResponse

example : ({} : HttpResponse).toString = ascii "HTTP/1.1 200 OK\r\n\r\n" := by decide

end LouisNet.Http

import Nanofish.Protocol

/-! Status codes and request methods: status_code.rs and method.rs. -/
namespace Nanofish.Codes
open Rust Rust.Utf8 Rust.Text
open Protocol (Error)

inductive StatusCode where
  | continue | switchingProtocols
  | ok | created | accepted | nonAuthoritativeInformation | noContent | resetContent | partialContent
  | multipleChoices | movedPermanently | found | seeOther | notModified | useProxy | temporaryRedirect
  | badRequest | unauthorized | paymentRequired | forbidden | notFound | methodNotAllowed | notAcceptable
  | proxyAuthenticationRequired | requestTimeout | conflict | gone | lengthRequired | preconditionFailed
  | requestEntityTooLarge | requestUriTooLong | unsupportedMediaType | requestedRangeNotSatisfiable
  | expectationFailed
  | internalServerError | notImplemented | badGateway | serviceUnavailable | gatewayTimeout
  | httpVersionNotSupported
  | other (code : UInt16)
  deriving DecidableEq, Repr

def StatusCode.asU16 : StatusCode → UInt16
  | .continue => 100
  | .switchingProtocols => 101
  | .ok => 200
  | .created => 201
  | .accepted => 202
  | .nonAuthoritativeInformation => 203
  | .noContent => 204
  | .resetContent => 205
  | .partialContent => 206
  | .multipleChoices => 300
  | .movedPermanently => 301
  | .found => 302
  | .seeOther => 303
  | .notModified => 304
  | .useProxy => 305
  | .temporaryRedirect => 307
  | .badRequest => 400
  | .unauthorized => 401
  | .paymentRequired => 402
  | .forbidden => 403
  | .notFound => 404
  | .methodNotAllowed => 405
  | .notAcceptable => 406
  | .proxyAuthenticationRequired => 407
  | .requestTimeout => 408
  | .conflict => 409
  | .gone => 410
  | .lengthRequired => 411
  | .preconditionFailed => 412
  | .requestEntityTooLarge => 413
  | .requestUriTooLong => 414
  | .unsupportedMediaType => 415
  | .requestedRangeNotSatisfiable => 416
  | .expectationFailed => 417
  | .internalServerError => 500
  | .notImplemented => 501
  | .badGateway => 502
  | .serviceUnavailable => 503
  | .gatewayTimeout => 504
  | .httpVersionNotSupported => 505
  | .other code => code

def StatusCode.text : StatusCode → Str
  | .continue => "Continue".toList
  | .switchingProtocols => "Switching Protocols".toList
  | .ok => "OK".toList
  | .created => "Created".toList
  | .accepted => "Accepted".toList
  | .nonAuthoritativeInformation => "Non-Authoritative Information".toList
  | .noContent => "No Content".toList
  | .resetContent => "Reset Content".toList
  | .partialContent => "Partial Content".toList
  | .multipleChoices => "Multiple Choices".toList
  | .movedPermanently => "Moved Permanently".toList
  | .found => "Found".toList
  | .seeOther => "See Other".toList
  | .notModified => "Not Modified".toList
  | .useProxy => "Use Proxy".toList
  | .temporaryRedirect => "Temporary Redirect".toList
  | .badRequest => "Bad Request".toList
  | .unauthorized => "Unauthorized".toList
  | .paymentRequired => "Payment Required".toList
  | .forbidden => "Forbidden".toList
  | .notFound => "Not Found".toList
  | .methodNotAllowed => "Method Not Allowed".toList
  | .notAcceptable => "Not Acceptable".toList
  | .proxyAuthenticationRequired => "Proxy Authentication Required".toList
  | .requestTimeout => "Request Timeout".toList
  | .conflict => "Conflict".toList
  | .gone => "Gone".toList
  | .lengthRequired => "Length Required".toList
  | .preconditionFailed => "Precondition Failed".toList
  | .requestEntityTooLarge => "Request Entity Too Large".toList
  | .requestUriTooLong => "Request-URI Too Long".toList
  | .unsupportedMediaType => "Unsupported Media Type".toList
  | .requestedRangeNotSatisfiable => "Requested Range Not Satisfiable".toList
  | .expectationFailed => "Expectation Failed".toList
  | .internalServerError => "Internal Server Error".toList
  | .notImplemented => "Not Implemented".toList
  | .badGateway => "Bad Gateway".toList
  | .serviceUnavailable => "Service Unavailable".toList
  | .gatewayTimeout => "Gateway Timeout".toList
  | .httpVersionNotSupported => "HTTP Version Not Supported".toList
  | .other _ => "Other".toList

-- `From<u16>`
def StatusCode.fromU16 (code : UInt16) : StatusCode := match code.toNat with
  | 100 => .continue
  | 101 => .switchingProtocols
  | 200 => .ok
  | 201 => .created
  | 202 => .accepted
  | 203 => .nonAuthoritativeInformation
  | 204 => .noContent
  | 205 => .resetContent
  | 206 => .partialContent
  | 300 => .multipleChoices
  | 301 => .movedPermanently
  | 302 => .found
  | 303 => .seeOther
  | 304 => .notModified
  | 305 => .useProxy
  | 307 => .temporaryRedirect
  | 400 => .badRequest
  | 401 => .unauthorized
  | 402 => .paymentRequired
  | 403 => .forbidden
  | 404 => .notFound
  | 405 => .methodNotAllowed
  | 406 => .notAcceptable
  | 407 => .proxyAuthenticationRequired
  | 408 => .requestTimeout
  | 409 => .conflict
  | 410 => .gone
  | 411 => .lengthRequired
  | 412 => .preconditionFailed
  | 413 => .requestEntityTooLarge
  | 414 => .requestUriTooLong
  | 415 => .unsupportedMediaType
  | 416 => .requestedRangeNotSatisfiable
  | 417 => .expectationFailed
  | 500 => .internalServerError
  | 501 => .notImplemented
  | 502 => .badGateway
  | 503 => .serviceUnavailable
  | 504 => .gatewayTimeout
  | 505 => .httpVersionNotSupported
  | _ => .other code

theorem asU16FromU16 (code : UInt16) : (StatusCode.fromU16 code).asU16 = code := by
  unfold StatusCode.fromU16
  split
  all_goals first
    | rfl
    | (rename_i known; exact UInt16.toNat_inj.mp known.symm)

def maxU16 : Nat := 65535

-- `TryFrom<&str>`
def StatusCode.tryFrom (value : Str) : Except Error StatusCode := match fromStrRadix 10 maxU16 value with
  | some code => .ok (.fromU16 (UInt16.ofNat code))
  | none => .error .invalidStatusCode

theorem tryFromDecimal (code : UInt16) :
    StatusCode.tryFrom (decimal code.toNat) = .ok (.fromU16 code) := by
  have bound : code.toNat ≤ maxU16 := Nat.le_of_lt_succ code.toNat_lt
  rw [StatusCode.tryFrom, parseDecimal _ bound]
  simp only [UInt16.ofNat_toNat]

theorem textPlain (status : StatusCode) : ∀ c ∈ status.text, c ≠ '\r' ∧ c ≠ '\n' := by
  suffices h : status.text.all (fun c => c != '\r' && c != '\n') = true by simpa using h
  cases status with
  | other code => rfl
  | _ => decide +kernel

inductive HttpMethod where
  | GET | POST | PUT | DELETE | PATCH | CONNECT | OPTIONS | TRACE | HEAD
  deriving DecidableEq, Repr

def HttpMethod.asStr : HttpMethod → Str
  | GET => "GET".toList
  | POST => "POST".toList
  | PUT => "PUT".toList
  | DELETE => "DELETE".toList
  | PATCH => "PATCH".toList
  | CONNECT => "CONNECT".toList
  | OPTIONS => "OPTIONS".toList
  | TRACE => "TRACE".toList
  | HEAD => "HEAD".toList

-- `TryFrom<&str>`
def HttpMethod.tryFrom (value : Str) : Option HttpMethod :=
  if value = "GET".toList then some GET
  else if value = "POST".toList then some POST
  else if value = "PUT".toList then some PUT
  else if value = "DELETE".toList then some DELETE
  else if value = "PATCH".toList then some PATCH
  else if value = "HEAD".toList then some HEAD
  else if value = "OPTIONS".toList then some OPTIONS
  else if value = "TRACE".toList then some TRACE
  else if value = "CONNECT".toList then some CONNECT
  else none

theorem methodTryFrom {value : Str} {method : HttpMethod} :
    HttpMethod.tryFrom value = some method ↔ value = method.asStr := by
  constructor
  · intro h
    unfold HttpMethod.tryFrom at h
    repeat' split at h
    all_goals first
      | (cases Option.some.inj h; rename_i same; exact same)
      | cases h
  · rintro rfl
    cases method <;> decide

end Nanofish.Codes

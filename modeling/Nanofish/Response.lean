import Nanofish.Codes

/-! Responses and their serialiser: response.rs without the builder. The capacity of
the output vector is a parameter, as in the source. -/
namespace Nanofish.Response
open Rust Rust.Utf8 Rust.Text
open Protocol Codes

inductive ResponseBody where
  | text (s : Str)
  | binary (bytes : Bytes)
  | empty
  deriving DecidableEq, Repr

def ResponseBody.asBytes : ResponseBody → Bytes
  | text s => Utf8.asBytes s
  | binary bytes => bytes
  | empty => []

structure HttpResponse where
  statusCode : StatusCode
  headers : Vec HttpHeader maxHeaders
  body : ResponseBody
  deriving DecidableEq, Repr

def HttpResponse.getHeader (r : HttpResponse) (name : Str) : Option Str :=
  (r.headers.items.find? fun h => eqIgnoreAsciiCase h.name name).map HttpHeader.value

def HttpResponse.contentType (r : HttpResponse) : Option Str := r.getHeader contentTypeName

def HttpResponse.contentLength (t : Target) (r : HttpResponse) : Option Nat := do
  let value ← r.getHeader contentLengthName
  fromStrRadix 10 t.usizeMax value

-- "HTTP/1.1 "
def httpVersionPrefix : Bytes := [72,84,84,80,47,49,46,49,32]

section Writer
variable {N : Nat}

def pushSlice (bytes : Vec UInt8 N) (data : Bytes) : Outcome Error (Vec UInt8 N) :=
  Outcome.ofOption .bufferOverflow (bytes.extend data)

def pushByte (bytes : Vec UInt8 N) (b : UInt8) : Outcome Error (Vec UInt8 N) :=
  Outcome.ofOption .bufferOverflow (bytes.push b)

/- The digit loop writes into a scratch array from its start; an index behind the
array panics, so the array's length bounds the number of turns. -/
def fillDigits : Nat → Nat → List UInt8 → Nat → Outcome Error (List UInt8 × Nat)
  | 0, _, _, _ => .pending
  | fuel+1, num, digits, i =>
    if 0 < num then
      if i < digits.length then
        fillDigits fuel (num / 10) (digits.set i (UInt8.ofNat (num % 10) + 48)) (i + 1)
      else .panic
    else .ok (digits,i)

def pushDigits (digits : List UInt8) : Nat → Vec UInt8 N → Outcome Error (Vec UInt8 N)
  | 0, bytes => .ok bytes
  | j+1, bytes => match digits[j]? with
    | none => .panic
    | some digit => do
      let bytes ← pushByte bytes digit
      pushDigits digits j bytes

def scratchDigits : Nat := 10

def writeDecimalToBuffer (bytes : Vec UInt8 N) (num : Nat) : Outcome Error (Vec UInt8 N) :=
  if num = 0 then pushByte bytes 48 else do
    let (digits,i) ← fillDigits (scratchDigits + 1) num (List.replicate scratchDigits 0) 0
    pushDigits digits i bytes

def writeStatusLine (bytes : Vec UInt8 N) (statusCode : StatusCode) : Outcome Error (Vec UInt8 N) := do
  let bytes ← pushSlice bytes httpVersionPrefix
  let bytes ← writeDecimalToBuffer bytes statusCode.asU16.toNat
  let bytes ← pushByte bytes 32
  let bytes ← pushSlice bytes (asBytes statusCode.text)
  pushSlice bytes crlf

def writeHeaders : List HttpHeader → Vec UInt8 N → Bool → Outcome Error (Vec UInt8 N × Bool)
  | [], bytes, hasContentLength => .ok (bytes,hasContentLength)
  | header :: rest, bytes, hasContentLength => do
    let bytes ← pushSlice bytes (asBytes header.name)
    let bytes ← pushSlice bytes (asBytes headerSeparator)
    let bytes ← pushSlice bytes (asBytes header.value)
    let bytes ← pushSlice bytes crlf
    writeHeaders rest bytes (hasContentLength || eqIgnoreAsciiCase header.name contentLengthName)

def HttpResponse.writeHeadBytes (r : HttpResponse) (bytes : Vec UInt8 N)
    (includeAutoContentLength : Bool) :
    Outcome Error (Vec UInt8 N) := do
  let bytes ← writeStatusLine bytes r.statusCode
  let (bytes,hasContentLength) ← writeHeaders r.headers.items bytes false
  let bodyBytes := r.body.asBytes
  let bytes ←
    if includeAutoContentLength && !hasContentLength && !bodyBytes.isEmpty then do
      let bytes ← pushSlice bytes (asBytes contentLengthName)
      let bytes ← pushSlice bytes (asBytes headerSeparator)
      let bytes ← writeDecimalToBuffer bytes bodyBytes.length
      pushSlice bytes crlf
    else .ok bytes
  pushSlice bytes crlf

end Writer

def HttpResponse.buildBytes (N : Nat) (r : HttpResponse) : Outcome Error (Vec UInt8 N) := do
  let bytes ← r.writeHeadBytes Vec.new true
  pushSlice bytes r.body.asBytes

def HttpResponse.buildHeadBytes (N : Nat) (r : HttpResponse) : Outcome Error (Vec UInt8 N) :=
  r.writeHeadBytes Vec.new false

end Nanofish.Response

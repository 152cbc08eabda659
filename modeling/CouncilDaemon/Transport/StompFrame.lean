import CouncilDaemon.Lib.InsertionMap
import CouncilDaemon.Lib.Separator

/-!
# STOMP frames

The text of a frame and back. A string is the list of its characters; `codeUnits` is its length in
UTF-16 code units.
-/

namespace CouncilDaemon

namespace StompFrame

abbrev Headers := InsertionMap String String

end StompFrame

structure StompFrame where
  command : String
  headers : StompFrame.Headers
  body : String

namespace StompFrame

/-! ## Marshalling -/

/-- `FRAME_BYTE`. -/
def LF : Char := '\n'

def NULL : Char := Char.ofNat 0

def codeUnits (text : String) : ℕ :=
  (text.toList.map fun c => if c.toNat < 0x10000 then 1 else 2).sum

def headerLine (header : String × String) : List Char := header.1.toList ++ ':' :: header.2.toList

/-- The headers in the order of their lines. A `content-length` that is given suppresses the line. -/
def sentHeaders (headers : Headers) (body : String) : List (String × String) :=
  headers.entries.filter (fun header => header.1 ≠ "content-length") ++
    if (headers.get? "content-length").isSome then []
    else [("content-length", ToString.toString (codeUnits body))]

protected def toString (frame : StompFrame) : String :=
  String.ofList ([LF].intercalate (frame.command.toList ::
    (sentHeaders frame.headers frame.body).map headerLine ++ [LF :: frame.body.toList]))

def marshall (command : String) (headers : Headers) (body : String) : String :=
  (StompFrame.mk command headers body).toString ++ String.ofList [NULL]

/-! ## Unmarshalling -/

/-- `typeError` is the error of the language where a line is read that is not there. -/
inductive UnmarshallError where
  | stompFrameException (message : String)
  | typeError
  deriving DecidableEq

/-- The characters that `\s` matches. -/
def isWhitespace (c : Char) : Bool :=
  c.toNat ∈ [0x09, 0x0A, 0x0B, 0x0C, 0x0D, 0x20, 0xA0, 0x1680, 0x2028, 0x2029, 0x202F, 0x205F, 0x3000,
    0xFEFF] || (0x2000 ≤ c.toNat && c.toNat ≤ 0x200A)

def strip (line : List Char) : List Char :=
  ((line.dropWhile isWhitespace).reverse.dropWhile isWhitespace).reverse

/-- `headers[key] = value`. A header without a value reads as one that is not there, and a string is
no prototype. -/
def setHeader (headers : Headers) (key : String) (value : Option String) : Headers :=
  if key = "__proto__" then headers
  else match value with
    | none => headers.erase key
    | some value => headers.set key value

/-- A header line, split at its colons: what stands behind the second one is dropped. -/
def readHeader (headers : Headers) (line : List Char) : Headers :=
  match line.splitOn ':' with
  | [] => headers
  | key :: values => setHeader headers (String.ofList key) (values.head?.map String.ofList)

/-- The loop over the header lines, up to the first empty line; `none` when it runs past the last
line. -/
def readHeaders (headers : Headers) : List (List Char) → Option (Headers × List (List Char))
  | [] => none
  | line :: lines => if line = [] then some (headers, lines) else readHeaders (readHeader headers line) lines

/-- The body is the line behind the empty one, without its last character. -/
def readBody (line : List Char) : String :=
  if line = [NULL] then "" else String.ofList line.dropLast

def unmarshallSingle (data : String) : Except UnmarshallError StompFrame :=
  if data = String.ofList [LF] then .error (.stompFrameException "Empty frame")
  else
    match data.toList.splitOn LF with
    | [] => .error .typeError
    | command :: lines =>
      match readHeaders InsertionMap.empty lines with
      | none => .error .typeError
      | some (_, []) => .error .typeError
      | some (headers, line :: _) => .ok ⟨String.ofList (strip command), headers, readBody line⟩

end StompFrame

end CouncilDaemon

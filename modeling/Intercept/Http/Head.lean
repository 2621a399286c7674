import Intercept.Http.Grammar
import Intercept.Stream.Fault
import Intercept.Text.Blank
import Intercept.Text.Numeral

/-!
# Message heads

What the proxy needs to know of a head: for a request its method, its target, the host it is meant
for and how its body is framed, for a response its status and the framing.

* `headEnd?` cuts a buffer behind the first empty line.
* `Request.ofRaw?` and `Response.ofRaw?` read a head; `raw` keeps its bytes.
* `framing?` is the rule for fields: a transfer coding decides, then a content length.
-/

namespace Intercept.Http

/-- Why an exchange fails (`HttpError`). -/
inductive Error
  | io (fault : Fault)
  | noHost
  | invalidRequest
  | invalidResponse
  | headTooLarge
  | timeout
deriving DecidableEq, Repr

/-- The most that a head may hold (`MAX_HEAD_SIZE`). -/
def mostInHead : Nat := 32768

/-- The text of an error. -/
def Error.message : Error → String
  | io fault => "IO error: " ++ fault.message
  | noHost => "No Host header found"
  | invalidRequest => "Invalid HTTP request"
  | invalidResponse => "Invalid HTTP response"
  | headTooLarge => "HTTP head exceeds " ++ toString mostInHead ++ " bytes"
  | timeout => "Operation timed out"

/-- How the end of a body is found (`BodyLength`). -/
inductive Framing
  | empty
  | length (n : Nat)
  | chunked
  /-- The body runs to the end of the stream. -/
  | untilClose
deriving DecidableEq, Repr

/-- A byte in lower case, for ASCII letters. -/
def lowerByte (b : UInt8) : UInt8 := if 65 ≤ b && b ≤ 90 then b + 32 else b

/-- Whether two byte strings are equal but for the case of ASCII letters. -/
def sameWord (a b : Bytes) : Bool := a.map lowerByte = b.map lowerByte

/-- Whether a text is a word, but for the case of ASCII letters. -/
def isWord (t : Text) (word : String) : Bool := t.map Char.toLower = word.toList.map Char.toLower

/-- How many bytes come before the end of the first empty line; `seen` is how many were passed. -/
def headEndFrom (seen : Nat) : Bytes → Option Nat
  | [] => none
  | c :: r =>
    if c = lf then
      match r with
      | [] => none
      | d :: r' =>
        if d = lf then some (seen + 2)
        else if d = cr ∧ r'.head? = some lf then some (seen + 3)
        else headEndFrom (seen + 1) r
    else headEndFrom (seen + 1) r

/-- The length of the head in front of a buffer: up to the first line feed with an empty line behind
it (`find_headers_end`). -/
def headEnd? (b : Bytes) : Option Nat := headEndFrom 0 b

theorem headEndFrom_bounds {b : Bytes} {seen n : Nat} (h : headEndFrom seen b = some n) :
    seen + 2 ≤ n ∧ n ≤ seen + b.length := by
  induction b generalizing seen n with
  | nil => simp [headEndFrom] at h
  | cons c r ih =>
    have step {m : Nat} (h : headEndFrom (seen + 1) r = some m) :
        seen + 2 ≤ m ∧ m ≤ seen + (c :: r).length := by
      have := ih h
      simp only [List.length_cons]
      omega
    unfold headEndFrom at h
    split at h
    · cases r with
      | nil => simp at h
      | cons d r =>
        simp only at h
        split at h
        · simp only [Option.some.injEq] at h
          simp only [List.length_cons]
          omega
        · split at h
          · rename_i hd
            cases r with
            | nil => simp at hd
            | cons e r =>
              simp only [Option.some.injEq] at h
              simp only [List.length_cons]
              omega
          · exact step h
    · exact step h

/-- A head has at least two bytes and lies in the buffer. -/
theorem headEnd?_bounds {b : Bytes} {n : Nat} (h : headEnd? b = some n) : 2 ≤ n ∧ n ≤ b.length := by
  have := headEndFrom_bounds h
  omega

/-- The first field of a name, if it is UTF-8, without the blanks around it (`header_value`). -/
def fieldText? (fields : List Field) (name : String) : Option Text :=
  ((fields.find? fun f => sameWord f.name (ascii name)).bind fun f => Utf8.decode? f.value).map
    Text.trim

/-- The length that the content length fields give: nothing without such a field (`content_length`);
`none` when one is no number below 2^64 or two differ. -/
def contentLength? (fields : List Field) : Option (Option Nat) :=
  let found := fields.filter fun f => sameWord f.name (ascii "content-length")
  let numbers := found.mapM fun f =>
    (Utf8.decode? f.value).bind fun t => Numeral.read? 10 UInt64.size (Text.trim t)
  match numbers with
  | none => none
  | some [] => some none
  | some (n :: r) => if r.all (· = n) then some (some n) else none

/-- Whether the last of the codings is `chunked` (`is_chunked`). -/
def isChunked (codings : Text) : Bool :=
  let last := ((cutLast ',' codings).map (·.2)).getD codings
  isWord (Text.trim last) "chunked"

/-- What the fields say about the body. -/
inductive Told
  | chunked
  /-- There is a transfer coding, and the last one is not `chunked`. -/
  | otherCoding
  | length (n : Nat)
  | nothing
deriving DecidableEq, Repr

/-- What the fields say about the body; `none` when the content lengths make no sense. -/
def told? (fields : List Field) : Option Told :=
  match fieldText? fields "transfer-encoding" with
  | some codings => some (if isChunked codings then .chunked else .otherCoding)
  | none => (contentLength? fields).map fun
    | some n => .length n
    | none => .nothing

/-- The authority of a target in absolute form: what stands behind the scheme, before the path, and
behind any user information (`absolute_form_authority`). -/
def authority? (target : Text) : Option Text := do
  let rest ← (dropFront "http://".toList target).orElse
    fun _ => dropFront "https://".toList target
  let part := rest.takeWhile fun c => c ≠ '/' && c ≠ '?' && c ≠ '#'
  let host := ((cutLast '@' part).map (·.2)).getD part
  if host.isEmpty then none else some host

/-- A request head that was accepted (`RequestHead`). -/
structure Request where
  /-- The bytes of the head as they came. -/
  raw : Bytes
  method : Text
  target : Text
  host : Option Text
  framing : Framing
deriving DecidableEq, Repr

/-- A response head that was accepted (`ResponseHead`). -/
structure Response where
  raw : Bytes
  status : Nat
  framing : Framing
deriving DecidableEq, Repr

namespace Request

/-- Whether the answer to the request has no body (`RequestHead::is_head`). -/
def isHead (r : Request) : Bool := isWord r.method "head"

/-- How the body of a request is framed: a coding that does not end in `chunked` is refused. -/
def framing? (fields : List Field) : Option Framing :=
  match told? fields with
  | none => none
  | some .otherCoding => none
  | some .chunked => some .chunked
  | some (.length n) => some (if n = 0 then .empty else .length n)
  | some .nothing => some .empty

/-- The host that a request is meant for: the authority of its target, or else its first host field
if that is not empty. -/
def hostOf (target : Text) (fields : List Field) : Option Text :=
  (authority? target).orElse fun _ => (fieldText? fields "host").filter (!·.isEmpty)

/-- Reads a request head (`parse_request`). -/
def ofRaw? (raw : Bytes) : Option Request :=
  match scanRequest (fieldSlots raw) raw with
  | .done lines _ => do
    let method ← Utf8.decode? lines.method
    let target ← Utf8.decode? lines.target
    let framing ← framing? lines.fields
    return ⟨raw, method, target, hostOf target lines.fields, framing⟩
  | _ => none

theorem raw_of_ofRaw? {raw : Bytes} {r : Request} (h : ofRaw? raw = some r) : r.raw = raw := by
  unfold ofRaw? at h
  split at h
  · simp only [Option.bind_eq_bind, Option.bind_eq_some_iff, Option.pure_def,
      Option.some.injEq] at h
    obtain ⟨_, _, _, _, _, _, rfl⟩ := h
    rfl
  · simp at h

end Request

namespace Response

/-- Whether a status announces another response to the same request. -/
def isInterim (status : Nat) : Bool := 100 ≤ status && status < 200

/-- How the body of a response is framed. -/
def framing? (headRequest : Bool) (status : Nat) (fields : List Field) : Option Framing :=
  if headRequest || isInterim status || status = 204 || status = 304 then some .empty
  else match told? fields with
    | none => none
    | some .otherCoding => some .untilClose
    | some .chunked => some .chunked
    | some (.length n) => some (if n = 0 then .empty else .length n)
    | some .nothing => some .untilClose

/-- Reads a response head, given whether it answers a HEAD request (`parse_response`). -/
def ofRaw? (headRequest : Bool) (raw : Bytes) : Option Response :=
  match scanResponse (fieldSlots raw) raw with
  | .done lines _ => (framing? headRequest lines.status lines.fields).map (⟨raw, lines.status, ·⟩)
  | _ => none

theorem raw_of_ofRaw? {headRequest : Bool} {raw : Bytes} {r : Response}
    (h : ofRaw? headRequest raw = some r) : r.raw = raw := by
  unfold ofRaw? at h
  split at h
  · obtain ⟨_, _, rfl⟩ := Option.map_eq_some_iff.1 h
    rfl
  · simp at h

/-- The answer to a HEAD request has no body, and neither has one of status 204 or 304. -/
theorem framing_of_bodiless {headRequest : Bool} {raw : Bytes} {r : Response}
    (h : ofRaw? headRequest raw = some r)
    (hb : headRequest = true ∨ r.status = 204 ∨ r.status = 304) : r.framing = .empty := by
  unfold ofRaw? at h
  split at h
  · obtain ⟨framing, hf, rfl⟩ := Option.map_eq_some_iff.1 h
    unfold framing? at hf
    rw [if_pos (by rcases hb with hb | hb | hb <;> simp_all)] at hf
    exact (Option.some.inj hf).symm
  · simp at h

end Response

/-- The size that a chunk's first line gives: a hexadecimal number below 2^64, with blanks around
it, before any semicolon (`parse_chunk_size`). -/
def chunkSize? (line : Bytes) : Option Nat :=
  (Utf8.decode? line).bind fun t =>
    Numeral.read? 16 UInt64.size (Text.trim (t.takeWhile (· ≠ ';')))

end Intercept.Http

import Atlas.Lib.Chunks
import Atlas.Runtime.Evidence

/-! The exchange of a call with an MCP server over the pipes of a process or over a socket: the
handshake, one request, and the lines of the server, which arrive in chunks of any size. -/
namespace Atlas
namespace Integrations

open JsonText Evidence

/-- The floats of the messages: the integer that one is equal to, if any. -/
class McpRuntime (F : Type) extends FloatText F where
  whole : F → Option ℤ

/-- A runtime to evaluate the model with; its only float is zero. -/
@[reducible] def plainMcp : McpRuntime Unit where
  repr _ := "0.0".toList
  read _ := ()
  isFloat_repr := isFloat_zero
  read_repr _ := rfl
  whole _ := some 0

inductive Transport where
  | stdio
  | socket
  deriving Repr, DecidableEq

/-- What comes after the last chunk: nothing within the wait, the end of the stream, or a read that
fails. -/
inductive Ending where
  | silent
  | closed
  | broken
  deriving Repr, DecidableEq

/-- The text layer of a transport: the text that was read and is not used up, and the texts that the
reads to come will add, line ends translated as the transport translates them. -/
structure Reader where
  buffer : List Char := []
  chunks : List (List Char) := []
  ending : Ending := .silent

def Reader.size (r : Reader) : ℕ := r.buffer.length + (r.chunks.map List.length).sum

inductive LineRead where
  | line (text : List Char) (r : Reader)
  | waiting (r : Reader)
  | failed (r : Reader)

/-- What is read of a last line that nothing completes. -/
def readEnd (buffer : List Char) : Ending → LineRead
  | .silent => .waiting ⟨buffer,[],.silent⟩
  | .closed => .line buffer ⟨[],[],.closed⟩
  | .broken => .failed ⟨buffer,[],.broken⟩

/-- `readline()`: the text is read on until it holds a line. -/
def readFrom (ending : Ending) : List Char → List (List Char) → LineRead
  | buffer,[] =>
      match Chunks.takeLine '\n' buffer with
      | some (line,rest) => .line line ⟨rest,[],ending⟩
      | none => readEnd buffer ending
  | buffer,chunk :: chunks =>
      match Chunks.takeLine '\n' buffer with
      | some (line,rest) => .line line ⟨rest,chunk :: chunks,ending⟩
      | none => readFrom ending (buffer ++ chunk) chunks

def readline (r : Reader) : LineRead := readFrom r.ending r.buffer r.chunks

/-- `select` on the raw pipe: bytes that were not read, or its end. -/
def Reader.selects (r : Reader) : Bool := !r.chunks.isEmpty || r.ending != .silent

theorem readFrom_size (ending : Ending) (chunks : List (List Char)) : ∀ {buffer line : List Char}
    {r : Reader}, readFrom ending buffer chunks = .line line r → line ≠ [] →
    r.size < (Reader.mk buffer chunks ending).size := by
  induction chunks with
  | nil =>
    intro buffer line r h hne
    have hpos := List.length_pos_of_ne_nil hne
    rw [readFrom] at h
    split at h
    · next hline =>
      obtain ⟨rfl,rfl⟩ := LineRead.line.inj h
      have heq := congrArg List.length (Chunks.takeLine_eq hline).1
      rw [List.length_append] at heq
      simp only [Reader.size,List.map_nil,List.sum_nil]
      omega
    · cases ending with
      | silent => cases h
      | closed =>
        obtain ⟨rfl,rfl⟩ := LineRead.line.inj h
        simpa [Reader.size] using hpos
      | broken => cases h
  | cons chunk chunks ih =>
    intro buffer line r h hne
    have hpos := List.length_pos_of_ne_nil hne
    rw [readFrom] at h
    split at h
    · next hline =>
      obtain ⟨rfl,rfl⟩ := LineRead.line.inj h
      have heq := congrArg List.length (Chunks.takeLine_eq hline).1
      rw [List.length_append] at heq
      simp only [Reader.size]
      omega
    · have hlt := ih h hne
      simp only [Reader.size,List.length_append,List.map_cons,List.sum_cons] at hlt ⊢
      omega

section

variable {F : Type} [McpRuntime F]

/-- Whether a value is equal to an integer. -/
def equalsInt : Value F → ℤ → Bool
  | .int n,k => n == k
  | .bool b,k => (if b then 1 else 0) == k
  | .float f,k => McpRuntime.whole f == some k
  | _,_ => false

def truthy : Value F → Bool
  | .null => false
  | .bool b => b
  | .int n => n != 0
  | .float f => McpRuntime.whole f != some 0
  | .constant _ => true
  | .str s => !s.isEmpty
  | .arr items => !items.isEmpty
  | .obj fields => !fields.isEmpty

variable (F) in
/-- `_parse_line`. -/
def parseLine (line : List Char) (expectedId : ℤ) : Option (List (String × Value F)) :=
  match parse (F := F) line with
  | some (.obj fields) =>
      if (fieldAt fields "id").any (equalsInt · expectedId) then some fields else none
  | _ => none

/-- How a call ends without a result. -/
inductive Stop (F : Type) where
  | unavailable
  | timedOut (awaited : ℤ)
  | closed
  | readFailed
  | writeFailed
  | blocked
  | serverError (error : Value F)
  | unexpected

variable (F) in
/-- `receive`. Over stdio a line is read once the pipe has bytes, and reading it then waits for
its end without a limit; over a socket each read has the limit. -/
def receive (transport : Transport) (expectedId : ℤ) (r : Reader) :
    Except (Stop F) (List (String × Value F)) × Reader :=
  if transport = .stdio ∧ r.selects = false then (.error (.timedOut expectedId),r)
  else
    match _hline : readline r with
    | .waiting r' =>
        (.error (if transport = .stdio then .blocked else .timedOut expectedId),r')
    | .failed r' => (.error .readFailed,r')
    | .line line r' =>
        if _hne : line = [] then (.error .closed,r')
        else
          match parseLine F line expectedId with
          | some payload => (.ok payload,r')
          | none => receive transport expectedId r'
termination_by r.size
decreasing_by exact readFrom_size _ _ (by assumption) (by assumption)

def protocolVersion : String := "2025-06-18"

def initializeMessage : Value F := .obj [
  ("jsonrpc",.str "2.0"),("id",.int 1),("method",.str "initialize"),
  ("params",.obj [("protocolVersion",.str protocolVersion),("capabilities",.obj []),
    ("clientInfo",.obj [("name",.str "atlas-v5"),("version",.str "0.1.0")])])]

def initializedMessage : Value F :=
  .obj [("jsonrpc",.str "2.0"),("method",.str "notifications/initialized"),("params",.obj [])]

def requestMessage (method : String) (params : List (String × Value F)) : Value F :=
  .obj [("jsonrpc",.str "2.0"),("id",.int 2),("method",.str method),("params",.obj params)]

/-- The error of a message, where it counts. -/
def errorOf (message : List (String × Value F)) : Option (Value F) :=
  (fieldAt message "error").filter truthy

/-- What `exchange` makes of the response. -/
def resultOf (response : List (String × Value F)) : Except (Stop F) (List (String × Value F)) :=
  match errorOf response with
  | some error => .error (.serverError error)
  | none =>
      match fieldAt response "result" with
      | none => .ok []
      | some (.obj result) => .ok result
      | some _ => .error .unexpected

/-- `exchange`, with the messages that the transport takes. -/
def exchange (transport : Transport) (takes : Value F → Bool) (method : String)
    (params : List (String × Value F)) (r : Reader) :
    Except (Stop F) (List (String × Value F)) × Reader :=
  if takes initializeMessage = false then (.error .writeFailed,r)
  else
    match receive F transport 1 r with
    | (.error stop,r) => (.error stop,r)
    | (.ok started,r) =>
        match errorOf started with
        | some error => (.error (.serverError error),r)
        | none =>
            if takes initializedMessage = false ∨ takes (requestMessage method params) = false then
              (.error .writeFailed,r)
            else
              match receive F transport 2 r with
              | (.error stop,r) => (.error stop,r)
              | (.ok response,r) => (resultOf response,r)

/-- `_request`: a server that cannot be reached is sent nothing. -/
def request (transport : Transport) (reachable : Bool) (takes : Value F → Bool) (method : String)
    (params : List (String × Value F)) (r : Reader) :
    Except (Stop F) (List (String × Value F)) × Reader :=
  if reachable then exchange transport takes method params r else (.error .unavailable,r)

end

end Integrations
end Atlas

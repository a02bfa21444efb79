import CueShell.ToMathlib.ByteStream

/-! # Framing of messages

A message travels as a 32-bit length, the highest byte first, and that many bytes of JSON. The JSON
codec is not part of the repository: it is a parameter, and what is relied on is `Codec.Lawful`. The
gateway and the client read frames alike and differ in the texts of their errors.
-/

namespace CueShell

open ByteStream (Piece content readExact toBeBytes fromBeBytes)

structure Codec (Message : Type) where
  toVec : Message → Except String (List UInt8)
  fromSlice : List UInt8 → Except String Message

/-- JSON decodes what it encodes, and a message is an object: what is cut off before its closing brace
is no message. -/
structure Codec.Lawful {Message : Type} (codec : Codec Message) : Prop where
  decodes : ∀ message body, codec.toVec message = .ok body → codec.fromSlice body = .ok message
  whole : ∀ message body part, codec.toVec message = .ok body → part <+: body → part ≠ body →
    ∃ error, codec.fromSlice part = .error error

def maxMessageSize : ℕ := 16 * 1024 * 1024

variable {Message : Type} (codec : Codec Message)

/-- A body behind its length, which is cast to 32 bits. -/
def frame (body : List UInt8) : List UInt8 := toBeBytes (.ofNat body.length) ++ body

def encodeMessage (message : Message) : Except String (List UInt8) := do
  let json ← codec.toVec message
  return frame json

/-- The texts of a reader's errors. -/
structure ReadErrors where
  tooLarge : UInt32 → String
  body : String

/-- Read one message; what is left of the stream comes with it. -/
def readFrame (errors : ReadErrors) (stream : List Piece) : Except String (Message × List Piece) :=
  match readExact 4 stream with
  | none => .error "read length prefix"
  | some (lenBuf, stream) =>
      let len := fromBeBytes lenBuf
      if len.toNat > maxMessageSize then .error (errors.tooLarge len)
      else match readExact len.toNat stream with
        | none => .error errors.body
        | some (body, stream) =>
            match codec.fromSlice body with
            | .error error => .error ("deserialize message: " ++ error)
            | .ok message => .ok (message, stream)

def Gateway.readMessage (stream : List Piece) : Except String (Message × List Piece) :=
  readFrame codec ⟨fun len => "message too large: " ++ toString len ++ " bytes", "read body"⟩ stream

def Client.readMessage (stream : List Piece) : Except String (Message × List Piece) :=
  readFrame codec
    ⟨fun len => "message too large: " ++ toString len ++ " bytes (max " ++ toString maxMessageSize ++ ")",
      "read message body"⟩ stream

/-- Read message after message until there is an error, in at most the given number of rounds. -/
def readLoop (read : List Piece → Except String (Message × List Piece)) :
    ℕ → List Piece → Option (List Message × String)
  | 0, _ => none
  | rounds + 1, stream =>
      match read stream with
      | .error error => some ([], error)
      | .ok (message, stream) =>
          (readLoop read rounds stream).map fun (messages, error) => (message :: messages, error)

/-- Read a stream to its end or to its first error. Every message takes bytes, so there are fewer
messages than bytes. -/
def readAll (read : List Piece → Except String (Message × List Piece)) (stream : List Piece) :
    Option (List Message × String) :=
  readLoop read ((content stream).length + 1) stream

end CueShell

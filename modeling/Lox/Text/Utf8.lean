import Lox.Text.Hex

/-!
Texts from bytes. The encoding is read strictly: each character has exactly one encoding, and the
first place that is none is an error.
-/
namespace Lox.Text

inductive DecodeCause where
  | invalidStart
  | invalidContinuation
  | unexpectedEnd
  deriving DecidableEq

structure DecodeError where
  position : Nat
  byte : Nat
  count : Nat
  cause : DecodeCause
  deriving DecidableEq

def DecodeCause.message : DecodeCause → String
  | invalidStart => "invalid start byte"
  | invalidContinuation => "invalid continuation byte"
  | unexpectedEnd => "unexpected end of data"

def DecodeError.message (error : DecodeError) : String :=
  let place :=
    if error.count = 1 then
      "byte 0x" ++ String.ofList (hex error.byte 2) ++ " in position " ++ toString error.position
    else
      "bytes in position " ++ toString error.position ++ "-" ++
        toString (error.position + error.count - 1)
  "'utf-8' codec can't decode " ++ place ++ ": " ++ error.cause.message

def continues (byte : UInt8) : Bool := 0x80 ≤ byte && byte < 0xc0

/-- Whether a byte continues a character of three bytes after the first: no shorter encoding would
do, and the character is no surrogate. -/
def continuesThree (start byte : UInt8) : Bool :=
  continues byte && (start != 0xe0 || 0xa0 ≤ byte) && (start != 0xed || byte < 0xa0)

def continuesFour (start byte : UInt8) : Bool :=
  continues byte && (start != 0xf0 || 0x90 ≤ byte) && (start != 0xf4 || byte < 0x90)

def ofBits (start : Nat) (more : List UInt8) : Char :=
  Char.ofNat (more.foldl (fun code byte => code * 64 + byte.toNat % 64) start)

def decodeFrom (position : Nat) : List UInt8 → Except DecodeError (List Char)
  | [] => .ok []
  | start :: rest =>
    let fault (count : Nat) (cause : DecodeCause) : Except DecodeError (List Char) :=
      .error ⟨position, start.toNat, count, cause⟩
    if start < 0x80 then
      (decodeFrom (position + 1) rest).map (Char.ofNat start.toNat :: ·)
    else if start < 0xc2 || 0xf5 ≤ start then fault 1 .invalidStart
    else if start < 0xe0 then
      match rest with
      | [] => fault 1 .unexpectedEnd
      | second :: rest =>
        if continues second then
          (decodeFrom (position + 2) rest).map (ofBits (start.toNat % 32) [second] :: ·)
        else fault 1 .invalidContinuation
    else if start < 0xf0 then
      match rest with
      | [] => fault 1 .unexpectedEnd
      | second :: rest =>
        if continuesThree start second then
          match rest with
          | [] => fault 2 .unexpectedEnd
          | third :: rest =>
            if continues third then
              (decodeFrom (position + 3) rest).map
                (ofBits (start.toNat % 16) [second, third] :: ·)
            else fault 2 .invalidContinuation
        else fault 1 .invalidContinuation
    else
      match rest with
      | [] => fault 1 .unexpectedEnd
      | second :: rest =>
        if continuesFour start second then
          match rest with
          | [] => fault 2 .unexpectedEnd
          | third :: rest =>
            if continues third then
              match rest with
              | [] => fault 3 .unexpectedEnd
              | fourth :: rest =>
                if continues fourth then
                  (decodeFrom (position + 4) rest).map
                    (ofBits (start.toNat % 8) [second, third, fourth] :: ·)
                else fault 3 .invalidContinuation
            else fault 2 .invalidContinuation
        else fault 1 .invalidContinuation

def decode (bytes : List UInt8) : Except DecodeError (List Char) := decodeFrom 0 bytes

/-- A text whose lines all end in a line feed, instead of a carriage return or both. -/
def unifyLines : List Char → List Char
  | [] => []
  | '\r' :: '\n' :: rest => '\n' :: unifyLines rest
  | '\r' :: rest => '\n' :: unifyLines rest
  | c :: rest => c :: unifyLines rest

end Lox.Text

import VerticalSlice.Text.Basic

/-!
# Bytes and characters

Files hold bytes, and the bytes of a text are its UTF-8 encoding. Reading is strict: the first
byte that cannot belong to an encoded character is a fault, and the fault says where it stands
and what is wrong there.
-/

namespace VerticalSlice.Text

/-- What is wrong with a run of bytes that encodes no character. -/
inductive Utf8Problem
  | invalidStart
  | invalidContinuation
  | unexpectedEnd
deriving DecidableEq, Repr

/-- The first run of bytes that encodes no character: its position, its bytes and its problem. -/
structure Utf8Fault where
  position : Nat
  bytes : List UInt8
  problem : Utf8Problem
deriving DecidableEq, Repr

namespace Utf8

/-- The lead byte and the continuation bytes of a code point. -/
def encodeCode (n : Nat) : List Nat :=
  if n < 0x80 then [n]
  else if n < 0x800 then [0xc0 + n / 0x40, 0x80 + n % 0x40]
  else if n < 0x10000 then [0xe0 + n / 0x1000, 0x80 + n / 0x40 % 0x40, 0x80 + n % 0x40]
  else [0xf0 + n / 0x40000, 0x80 + n / 0x1000 % 0x40, 0x80 + n / 0x40 % 0x40, 0x80 + n % 0x40]

/-- The bytes of one character. -/
def encodeChar (c : Char) : List UInt8 := (encodeCode c.toNat).map UInt8.ofNat

/-- The bytes of a text. -/
def encode (text : Text) : List UInt8 := text.flatMap encodeChar

/-- The range of the second byte after a lead byte of several. It keeps out overlong forms,
surrogates and code points beyond the last. -/
def secondByte (lead : UInt8) : UInt8 × UInt8 :=
  if lead = 0xe0 then (0xa0, 0xbf)
  else if lead = 0xed then (0x80, 0x9f)
  else if lead = 0xf0 then (0x90, 0xbf)
  else if lead = 0xf4 then (0x80, 0x8f)
  else (0x80, 0xbf)

/-- How many continuation bytes a lead byte asks for, if it is one. -/
def continuations (lead : UInt8) : Option Nat :=
  if lead < 0x80 then some 0
  else if lead < 0xc2 then none
  else if lead < 0xe0 then some 1
  else if lead < 0xf0 then some 2
  else if lead < 0xf5 then some 3
  else none

/-- How many bytes a character takes that begins with the lead byte. -/
def width (lead : UInt8) : Nat := (continuations lead).getD 0 + 1

/-- The code point bits of a lead byte that asks for `count` more bytes. -/
def leadBits (lead : UInt8) (count : Nat) : Nat :=
  match count with
  | 0 => lead.toNat
  | 1 => lead.toNat - 0xc0
  | 2 => lead.toNat - 0xe0
  | _ => lead.toNat - 0xf0

/-- Reads `count` continuation bytes, the first of them within `range`, and gives the code point
and the bytes after it. Otherwise it gives the problem and how many continuation bytes were good. -/
def readContinuations (range : UInt8 × UInt8) (code good : Nat) :
    Nat → List UInt8 → Except (Utf8Problem × Nat) (Nat × List UInt8)
  | 0, rest => .ok (code, rest)
  | _ + 1, [] => .error (.unexpectedEnd, good)
  | count + 1, byte :: rest =>
    if range.1 ≤ byte && byte ≤ range.2 then
      readContinuations (0x80, 0xbf) (code * 0x40 + (byte.toNat - 0x80)) (good + 1) count rest
    else .error (.invalidContinuation, good)

/-- One character from the front of the bytes, and the bytes after it. -/
def readChar (position : Nat) (lead : UInt8) (rest : List UInt8) :
    Except Utf8Fault (Char × List UInt8) :=
  match continuations lead with
  | none => .error ⟨position, [lead], .invalidStart⟩
  | some count =>
    match readContinuations (secondByte lead) (leadBits lead count) 0 count rest with
    | .ok (code, rest) => .ok (Char.ofNat code, rest)
    | .error (problem, good) => .error ⟨position, lead :: rest.take good, problem⟩

theorem length_of_readContinuations {range : UInt8 × UInt8} {code good count : Nat}
    {bytes : List UInt8} {result : Nat × List UInt8}
    (h : readContinuations range code good count bytes = .ok result) :
    result.2.length ≤ bytes.length := by
  induction count generalizing range code good bytes with
  | zero => simp only [readContinuations, Except.ok.injEq] at h; subst h; simp
  | succ count ih =>
    cases bytes with
    | nil => simp [readContinuations] at h
    | cons byte rest =>
      simp only [readContinuations] at h
      split at h
      · have := ih h
        simp only [List.length_cons]
        omega
      · simp at h

theorem length_of_readChar {position : Nat} {lead : UInt8} {rest : List UInt8}
    {result : Char × List UInt8} (h : readChar position lead rest = .ok result) :
    result.2.length ≤ rest.length := by
  unfold readChar at h
  split at h
  · simp at h
  · split at h
    · next hr =>
      simp only [Except.ok.injEq] at h
      subst h
      exact length_of_readContinuations hr
    · simp at h

/-- The text that the bytes from `position` on encode. -/
def decodeFrom (position : Nat) : List UInt8 → Except Utf8Fault (Text)
  | [] => .ok []
  | lead :: rest =>
    match h : readChar position lead rest with
    | .error fault => .error fault
    | .ok (c, after) =>
      have : after.length < rest.length + 1 := Nat.lt_succ_of_le (length_of_readChar h)
      match decodeFrom (position + width lead) after with
      | .ok text => .ok (c :: text)
      | .error fault => .error fault
termination_by bytes => bytes.length

/-- The text that the bytes encode. -/
def decode (bytes : List UInt8) : Except Utf8Fault (Text) := decodeFrom 0 bytes

end Utf8

/-- The reason, in words. -/
def Utf8Problem.reason : Utf8Problem → Text
  | .invalidStart => "invalid start byte"
  | .invalidContinuation => "invalid continuation byte"
  | .unexpectedEnd => "unexpected end of data"

/-- Two lower-case hexadecimal digits. -/
def hexByte (byte : UInt8) : Text :=
  [Nat.digitChar (byte.toNat / 16), Nat.digitChar (byte.toNat % 16)]

/-- A single byte is shown; of several only the positions of the first and the last are. -/
def Utf8Fault.message (fault : Utf8Fault) : Text :=
  let place : Text :=
    match fault.bytes with
    | [byte] => Text.concat ["byte 0x", hexByte byte, " in position ", Text.ofNat fault.position]
    | bytes => Text.concat ["bytes in position ", Text.ofNat fault.position, "-",
        Text.ofNat (fault.position + bytes.length - 1)]
  Text.concat ["'utf-8' codec can't decode ", place, ": ", fault.problem.reason]

end VerticalSlice.Text

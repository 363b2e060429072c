/-
  UTF-8 — bytes that are text, and where other bytes stop being text.

  * `Utf8.decode`: the text that bytes encode, or where and how they fail to;
  * `Utf8.decodeLossy`: the text, with a replacement character for each fault.
-/
namespace Scriptling.Utf8

/-- The place where bytes stop being UTF-8. -/
structure Malformed where
  /-- How many bytes before it are text. -/
  validUpTo : Nat
  /-- How many bytes the fault takes; none if more bytes could make it right. -/
  length : Option Nat
deriving DecidableEq

/-- A fault in words. -/
def Malformed.message (e : Malformed) : String :=
  match e.length with
  | some n =>
    "invalid utf-8 sequence of " ++ toString n ++ " bytes from index " ++ toString e.validUpTo
  | none => "incomplete utf-8 byte sequence from index " ++ toString e.validUpTo

/-- The byte continues a sequence. -/
def isContinuation (b : UInt8) : Bool := 0x80 ≤ b && b ≤ 0xbf

/-- The range of second bytes after a first byte of a longer sequence, and the number of
    bytes after the first; shorter encodings, surrogates and what is past the last code
    point are left out by the ranges. -/
def lead? (b : UInt8) : Option (UInt8 × UInt8 × Nat) :=
  if 0xc2 ≤ b && b ≤ 0xdf then some (0x80, 0xbf, 1)
  else if b = 0xe0 then some (0xa0, 0xbf, 2)
  else if b = 0xed then some (0x80, 0x9f, 2)
  else if 0xe1 ≤ b && b ≤ 0xef then some (0x80, 0xbf, 2)
  else if b = 0xf0 then some (0x90, 0xbf, 3)
  else if 0xf1 ≤ b && b ≤ 0xf3 then some (0x80, 0xbf, 3)
  else if b = 0xf4 then some (0x80, 0x8f, 3)
  else none

/-- What stands at the front of a list of bytes. -/
inductive Front where
  /-- A sequence for one code point. -/
  | sequence (length : Nat)
  /-- Bytes that cannot be part of a text. -/
  | invalid (length : Nat)
  /-- The beginning of a sequence at the end of the bytes. -/
  | incomplete

/-- Looks at the first byte and those after it. -/
def front (b : UInt8) (bs : List UInt8) : Front :=
  if b < 0x80 then .sequence 1
  else match lead? b with
    | none => .invalid 1
    | some (low, high, count) =>
      match bs with
      | [] => .incomplete
      | c :: cs =>
        if low ≤ c && c ≤ high then
          let more := (cs.take (count - 1)).takeWhile isContinuation
          if more.length = count - 1 then .sequence (count + 1)
          else if more.length = cs.length then .incomplete
          else .invalid (more.length + 2)
        else .invalid 1

/-- The first fault in bytes of which `index` come before. -/
def fault? (index : Nat) : List UInt8 → Option Malformed
  | [] => none
  | b :: bs =>
    match front b bs with
    | .invalid n => some ⟨index, some n⟩
    | .incomplete => some ⟨index, none⟩
    | .sequence n => fault? (index + n) (bs.drop (n - 1))
termination_by bs => bs.length
decreasing_by simp only [List.length_drop, List.length_cons]; omega

/-- The text that bytes encode. -/
def decode (bytes : ByteArray) : Except Malformed String :=
  match String.fromUTF8? bytes with
  | some text => .ok text
  | none => .error ((fault? 0 bytes.toList).getD ⟨0, none⟩)

/-- The text that bytes encode, with a replacement character for each fault; at most
    `rounds` faults are replaced. -/
def decodeLossy (bytes : ByteArray) : String :=
  go bytes.size bytes
where
  go : Nat → ByteArray → String
    | 0, _ => ""
    | rounds + 1, bytes =>
      match decode bytes with
      | .ok text => text
      | .error e =>
        let valid := (String.fromUTF8? (bytes.extract 0 e.validUpTo)).getD ""
        match e.length with
        | none => valid ++ "\ufffd"
        | some n => valid ++ "\ufffd" ++ go rounds (bytes.extract (e.validUpTo + n) bytes.size)

end Scriptling.Utf8

/-!
# UTF-8

Source files arrive as bytes. `Utf8.decode` turns them into characters, or says
how many bytes of the input are the longest prefix that is well formed. One
character is read at a time by `Utf8.decodeChar`, which admits exactly the
well-formed sequences: shortest form only, no surrogates, nothing above
`U+10FFFF`.
-/

namespace TolerantSql.Utf8

/-- A continuation byte carries six bits behind the marker `10`. -/
def isTail (b : Nat) : Bool := 0x80 ≤ b && b ≤ 0xBF

/-- The range that the second byte of a sequence has to lie in, given the
first: it is what keeps out overlong forms, surrogates and code points above
`U+10FFFF`. -/
def secondRange (lead : Nat) : Nat × Nat :=
  if lead = 0xE0 then (0xA0, 0xBF)
  else if lead = 0xED then (0x80, 0x9F)
  else if lead = 0xF0 then (0x90, 0xBF)
  else if lead = 0xF4 then (0x80, 0x8F)
  else (0x80, 0xBF)

/-- Whether `b` may stand behind the lead byte. -/
def isSecond (lead b : Nat) : Bool :=
  (secondRange lead).1 ≤ b && b ≤ (secondRange lead).2

/-- **One character from the front of the bytes**, with the number of bytes it
took and the bytes left; none if the bytes do not start with a well-formed
sequence. -/
def decodeChar : List Nat → Option (Char × Nat × List Nat)
  | [] => none
  | a :: rest =>
    if a ≤ 0x7F then some (Char.ofNat a, 1, rest)
    else if 0xC2 ≤ a && a ≤ 0xDF then
      match rest with
      | b :: rest =>
        if isTail b then
          some (Char.ofNat ((a - 0xC0) * 64 + (b - 0x80)), 2, rest)
        else none
      | _ => none
    else if 0xE0 ≤ a && a ≤ 0xEF then
      match rest with
      | b :: c :: rest =>
        if isSecond a b && isTail c then
          some (Char.ofNat ((a - 0xE0) * 4096 + (b - 0x80) * 64 + (c - 0x80)), 3, rest)
        else none
      | _ => none
    else if 0xF0 ≤ a && a ≤ 0xF4 then
      match rest with
      | b :: c :: d :: rest =>
        if isSecond a b && isTail c && isTail d then
          some (Char.ofNat ((a - 0xF0) * 262144 + (b - 0x80) * 4096 + (c - 0x80) * 64
            + (d - 0x80)), 4, rest)
        else none
      | _ => none
    else none

/-- Reading a character leaves fewer bytes. -/
theorem length_lt_of_decodeChar {bytes : List Nat} {c : Char} {n : Nat} {rest : List Nat}
    (h : decodeChar bytes = some (c, n, rest)) : rest.length < bytes.length := by
  unfold decodeChar at h
  grind

/-- Reads on from `offset`, with the characters before it most recent
first. -/
def decodeFrom (bytes : List Nat) (offset : Nat) (read : List Char) : Except Nat (List Char) :=
  match _h : decodeChar bytes with
  | some (c, n, rest) => decodeFrom rest (offset + n) (c :: read)
  | none => if bytes.isEmpty then .ok read.reverse else .error offset
termination_by bytes.length
decreasing_by exact length_lt_of_decodeChar _h

/-- **The characters of a byte sequence**, or the length of its longest
well-formed prefix when it is not UTF-8. -/
def decode (bytes : List Nat) : Except Nat (List Char) := decodeFrom bytes 0 []

end TolerantSql.Utf8

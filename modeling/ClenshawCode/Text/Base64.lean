/-!
# Bytes as letters

Three bytes are written as four letters, each of which stands for six bits; what is missing from the
last three bytes is marked by equal signs. Lines hold 57 bytes each and end with a line feed. The
reader takes no notice of any other character, and of nothing behind equal signs that complete a
group.

## Main definitions

* `Base64.encode`: bytes as lines of letters
* `Base64.decode?`: the bytes that letters stand for, unless a group is left incomplete
-/

namespace ClenshawCode.Base64

/-- The letter for six bits. -/
def letter (n : Nat) : Char :=
  if n < 26 then Char.ofNat (65 + n)
  else if n < 52 then Char.ofNat (71 + n)
  else if n < 62 then Char.ofNat (n - 4)
  else if n = 62 then '+'
  else '/'

/-- The six bits that a letter stands for. -/
def sixBits? (c : Char) : Option Nat :=
  if 'A' ≤ c && c ≤ 'Z' then some (c.toNat - 65)
  else if 'a' ≤ c && c ≤ 'z' then some (c.toNat - 71)
  else if '0' ≤ c && c ≤ '9' then some (c.toNat + 4)
  else if c = '+' then some 62
  else if c = '/' then some 63
  else none

/-- Bytes as letters, without line ends. -/
def letters : List UInt8 → List Char
  | [] => []
  | [a] =>
    let n := a.toNat * 16
    [letter (n / 64), letter (n % 64), '=', '=']
  | [a, b] =>
    let n := (a.toNat * 256 + b.toNat) * 4
    [letter (n / 4096), letter (n / 64 % 64), letter (n % 64), '=']
  | a :: b :: c :: rest =>
    let n := (a.toNat * 256 + b.toNat) * 256 + c.toNat
    letter (n / 262144) :: letter (n / 4096 % 64) :: letter (n / 64 % 64) :: letter (n % 64) ::
      letters rest

/-- The largest number of bytes on a line. -/
def lineBytes : Nat := 57

/-- Bytes as lines of letters. -/
def encode (bs : List UInt8) : List Char :=
  if _h : bs.isEmpty then []
  else letters (bs.take lineBytes) ++ '\n' :: encode (bs.drop lineBytes)
termination_by bs.length
decreasing_by
  have nonempty : 0 < bs.length := by
    cases bs <;> simp_all
  simp only [List.length_drop, lineBytes]
  omega

/-- The bytes that letters stand for. First come the number of letters of the current group that
have been read, the bits of the last one that have not been used, and the number of equal signs
since. -/
def decodeGroup? : (count bits signs : Nat) → List Char → Option (List UInt8)
  | count, _, _, [] => if count = 0 then some [] else none
  | count, bits, signs, c :: rest =>
    if c = '=' then
      -- Equal signs in front of the third letter of a group count for nothing.
      if count < 2 then decodeGroup? count bits signs rest
      else if 3 ≤ count + signs then some []
      else decodeGroup? count bits (signs + 1) rest
    else
      match sixBits? c with
      | none => decodeGroup? count bits signs rest
      | some d =>
        match count with
        | 0 => decodeGroup? 1 d 0 rest
        | 1 => (decodeGroup? 2 (d % 16) 0 rest).map (UInt8.ofNat (bits * 4 + d / 16) :: ·)
        | 2 => (decodeGroup? 3 (d % 4) 0 rest).map (UInt8.ofNat (bits * 16 + d / 4) :: ·)
        | _ => (decodeGroup? 0 0 0 rest).map (UInt8.ofNat (bits * 64 + d) :: ·)

/-- The bytes that letters stand for, unless a group is left incomplete. -/
def decode? (cs : List Char) : Option (List UInt8) := decodeGroup? 0 0 0 cs

end ClenshawCode.Base64

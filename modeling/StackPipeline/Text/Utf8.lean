/-!
UTF-8: strict reading, and reading in which each malformed part becomes U+FFFD.
-/

namespace StackPipeline.Text.Utf8

def encode (text : String) : List UInt8 :=
  text.toUTF8.data.toList

/-- The text with these bytes, if they are well formed. -/
def decode? (bytes : List UInt8) : Option String :=
  String.fromUTF8? ⟨bytes.toArray⟩

/-- Whether a byte continues a character: `10xxxxxx`. -/
def isContinuation (byte : UInt8) : Bool :=
  0x80 ≤ byte && byte ≤ 0xBF

/-- The bytes that may follow the first byte of a longer character: how many in all, and the
range of the next one, which shuts out overlong forms, surrogates and values above U+10FFFF. -/
def followers? (first : UInt8) : Option (Nat × UInt8 × UInt8) :=
  if 0xC2 ≤ first && first ≤ 0xDF then some (1, 0x80, 0xBF)
  else if first == 0xE0 then some (2, 0xA0, 0xBF)
  else if first == 0xED then some (2, 0x80, 0x9F)
  else if 0xE1 ≤ first && first ≤ 0xEF then some (2, 0x80, 0xBF)
  else if first == 0xF0 then some (3, 0x90, 0xBF)
  else if 0xF1 ≤ first && first ≤ 0xF3 then some (3, 0x80, 0xBF)
  else if first == 0xF4 then some (3, 0x80, 0x8F)
  else none

/-- The value of a byte's low bits, those below `modulus`. -/
def lowBits (modulus : Nat) (byte : UInt8) : Nat :=
  byte.toNat % modulus

/-- One character or one malformed part at the front, and the number of bytes it takes after the
first.  A malformed part is the longest start of a well-formed character, or a single byte. -/
def front (first : UInt8) (rest : List UInt8) : Option Char × Nat :=
  if first < 0x80 then (some (Char.ofNat first.toNat), 0)
  else match followers? first, rest with
    | none, _ => (none, 0)
    | some _, [] => (none, 0)
    | some (count, low, high), second :: rest =>
      if !(low ≤ second && second ≤ high) then (none, 0)
      else match count, rest with
        | 1, _ => (some (Char.ofNat (lowBits 32 first * 64 + lowBits 64 second)), 1)
        | _, [] => (none, 1)
        | 2, third :: _ =>
          if isContinuation third then
            (some (Char.ofNat
              (lowBits 16 first * 4096 + lowBits 64 second * 64 + lowBits 64 third)), 2)
          else (none, 1)
        | _, third :: rest =>
          if !isContinuation third then (none, 1)
          else match rest with
            | [] => (none, 2)
            | fourth :: _ =>
              if isContinuation fourth then
                (some (Char.ofNat (lowBits 8 first * 262144 + lowBits 64 second * 4096 +
                  lowBits 64 third * 64 + lowBits 64 fourth)), 3)
              else (none, 2)

def replacement : Char :=
  Char.ofNat 0xFFFD

/-- Read bytes as text, with U+FFFD for each malformed part. -/
def decodeLossy : List UInt8 → List Char
  | [] => []
  | first :: rest =>
    (front first rest).1.getD replacement :: decodeLossy (rest.drop (front first rest).2)
termination_by bytes => bytes.length
decreasing_by simp only [List.length_drop, List.length_cons]; omega

end StackPipeline.Text.Utf8

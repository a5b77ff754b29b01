/-
Where a program's output goes: a record of the bytes written, which may be
limited in length.

* `Console`: the bytes so far and the limit;
* `Console.writeLine`: writes a line, of which a full console keeps the bytes
  that still fit;
* `Console.textFrom`: what was written after a given number of bytes.
-/

namespace Ember

/-- The bytes written so far, and how many there may be in all. -/
structure Console where
  bytes : ByteArray
  limit : Option Nat

namespace Console

/-- A console that nothing has been written to. -/
def empty (limit : Option Nat) : Console := ⟨.empty, limit⟩

/-- Writes a text and the end of its line. The answer says whether all of it
fitted; if not, the bytes that did are kept. -/
def writeLine (text : String) (c : Console) : Bool × Console :=
  let line := (text ++ "\n").toUTF8
  match c.limit with
  | none => (true, { c with bytes := c.bytes ++ line })
  | some limit =>
    let room := limit - c.bytes.size
    if line.size ≤ room then (true, { c with bytes := c.bytes ++ line })
    else (false, { c with bytes := c.bytes ++ line.extract 0 room })

/-- The characters of bytes that end within a character, with a replacement
character for the rest of it. The rest is shorter than `cut` bytes. -/
def decodeCut (bytes : ByteArray) : Nat → String
  | 0 => "\uFFFD"
  | cut + 1 =>
    match String.fromUTF8? bytes with
    | some s => s ++ "\uFFFD"
    | none => decodeCut (bytes.extract 0 (bytes.size - 1)) cut

/-- The characters of bytes whose last character may be cut short. -/
def decode (bytes : ByteArray) : String :=
  match String.fromUTF8? bytes with
  | some s => s
  | none => decodeCut (bytes.extract 0 (bytes.size - 1)) 3

/-- What was written after the first `start` bytes. -/
def textFrom (c : Console) (start : Nat) : String :=
  decode (c.bytes.extract start c.bytes.size)

end Console

end Ember

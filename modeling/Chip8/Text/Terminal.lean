/-! # Text without control sequences

A terminal takes an escape character and what follows it for a command and not
for text. What is left of a text without such sequences is what can be seen of
it: printable characters and white space.
-/

namespace Chip8.Terminal

inductive Position where
  | outside
  | escape
  | escapeIntermediate
  | control
  | deviceEntry
  | deviceParameters
  | deviceIntermediate
  | string
  | command
  deriving DecidableEq, Repr

/-- White space that a sequence does not take in. -/
def isBlank (c : Char) : Bool := c = '\t' || c = '\n' || c = '\x0c' || c = '\r'

def within (low high : Nat) (c : Char) : Bool := low ≤ c.toNat && c.toNat ≤ high

/-- A string of the device ends at the byte 0x9C, be it a character or a part of one. -/
def endsString (c : Char) : Bool := (String.utf8EncodeChar c).contains 0x9C

namespace Position

/-- Where the reader stands after a character. An escape character starts a new sequence
everywhere, and a cancelling character ends the current one. -/
def next (p : Position) (c : Char) : Position :=
  if c = '\x1b' then escape
  else if c = '\x18' || c = '\x1a' then outside
  else match p with
    | outside => outside
    | escape =>
      if c = '[' then control
      else if c = ']' then command
      else if c = 'P' then deviceEntry
      else if c = 'X' || c = '^' || c = '_' then string
      else if within 0x20 0x2F c then escapeIntermediate
      else if within 0x30 0x7E c then outside
      else escape
    | escapeIntermediate => if within 0x30 0x7E c then outside else escapeIntermediate
    | control => if within 0x40 0x7E c then outside else control
    | deviceEntry =>
      if within 0x20 0x2F c then deviceIntermediate
      else if within 0x30 0x3F c then deviceParameters
      else if within 0x40 0x7E c then string
      else deviceEntry
    | deviceParameters =>
      if within 0x20 0x2F c then deviceIntermediate
      else if within 0x3C 0x7E c then string
      else deviceParameters
    | deviceIntermediate => if within 0x30 0x7E c then string else deviceIntermediate
    | string => if endsString c then outside else string
    | command => if c = '\x07' then outside else command

def shows (p : Position) (c : Char) : Bool :=
  match p with
  | outside => isBlank c || (0x20 ≤ c.toNat && c ≠ '\x7f')
  | escape | escapeIntermediate | control => isBlank c
  | _ => false

end Position

/-- What is seen from a position on. White space interrupts a sequence: what follows is seen as
if it stood outside, and the sequence goes on with the next character that would not be seen
there. A character beyond ASCII ends an interrupted sequence. -/
def visibleFrom (p : Position) (interrupted : Bool) : List Char → List Char
  | [] => []
  | c :: cs =>
    if interrupted && Position.outside.shows c then
      c :: visibleFrom (if c.toNat < 0x80 then p else .outside) true cs
    else if p.shows c then c :: visibleFrom (p.next c) true cs
    else visibleFrom (p.next c) false cs

def visible (s : String) : String := String.ofList (visibleFrom .outside false s.toList)

end Chip8.Terminal

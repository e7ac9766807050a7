/-!
# Reading UTF-8

`next` reads one character off a list of bytes. Where there is none it says how many bytes are
spoilt: the longest start of some character's encoding, one byte at least; or that the list ends
inside a character. `decode?` refuses the first fault, `decodeLossy` puts one replacement
character in the place of each.
-/

namespace Ember.Text.Utf8

/-- What stands at the start of a byte list. -/
inductive Next where
  | char (c : Char) (rest : List UInt8)
  /-- `size` bytes begin no character, although more follow or the fault is in the last. -/
  | spoilt (size : Nat) (rest : List UInt8)
  /-- The list ends inside a character. -/
  | cut

def isContinuation (b : UInt8) : Bool := 0x80 ≤ b && b ≤ 0xbf

/-- The low six bits of a continuation byte. -/
def payload (b : UInt8) : Nat := b.toNat % 64

/-- The second bytes that may follow a lead byte: no overlong form, no surrogate, nothing beyond
the last code point. -/
def secondFits (lead b : UInt8) : Bool :=
  if lead = 0xe0 then 0xa0 ≤ b && b ≤ 0xbf
  else if lead = 0xed then 0x80 ≤ b && b ≤ 0x9f
  else if lead = 0xf0 then 0x90 ≤ b && b ≤ 0xbf
  else if lead = 0xf4 then 0x80 ≤ b && b ≤ 0x8f
  else isContinuation b

def next2 (lead : UInt8) : List UInt8 → Next
  | [] => .cut
  | b :: rest =>
    if isContinuation b then .char (Char.ofNat (lead.toNat % 32 * 64 + payload b)) rest
    else .spoilt 1 (b :: rest)

def next3 (lead : UInt8) : List UInt8 → Next
  | [] => .cut
  | b :: rest =>
    if !secondFits lead b then .spoilt 1 (b :: rest)
    else match rest with
    | [] => .cut
    | c :: rest =>
      if isContinuation c then
        .char (Char.ofNat ((lead.toNat % 16 * 64 + payload b) * 64 + payload c)) rest
      else .spoilt 2 (c :: rest)

def next4 (lead : UInt8) : List UInt8 → Next
  | [] => .cut
  | b :: rest =>
    if !secondFits lead b then .spoilt 1 (b :: rest)
    else match rest with
    | [] => .cut
    | c :: rest =>
      if !isContinuation c then .spoilt 2 (c :: rest)
      else match rest with
      | [] => .cut
      | d :: rest =>
        if isContinuation d then
          .char (Char.ofNat (((lead.toNat % 8 * 64 + payload b) * 64 + payload c) * 64 + payload d))
            rest
        else .spoilt 3 (d :: rest)

def next (lead : UInt8) (rest : List UInt8) : Next :=
  if lead < 0x80 then .char (Char.ofNat lead.toNat) rest
  else if 0xc2 ≤ lead && lead ≤ 0xdf then next2 lead rest
  else if 0xe0 ≤ lead && lead ≤ 0xef then next3 lead rest
  else if 0xf0 ≤ lead && lead ≤ 0xf4 then next4 lead rest
  else .spoilt 1 rest

/-- Where and how a byte string stops being UTF-8. -/
inductive Fault where
  | spoilt (size : Nat) (offset : Nat)
  | cut (offset : Nat)

def Fault.message : Fault → String
  | .spoilt size offset => s!"invalid utf-8 sequence of {size} bytes from index {offset}"
  | .cut offset => s!"incomplete utf-8 byte sequence from index {offset}"

/-- Reads all bytes; `fuel` is at least their number. -/
def decodeFrom : Nat → Nat → List Char → List UInt8 → Except Fault (List Char)
  | _, _, done, [] => .ok done.reverse
  | 0, offset, _, _ :: _ => .error (.cut offset)
  | fuel + 1, offset, done, b :: bytes =>
    match next b bytes with
    | .char c rest => decodeFrom fuel (offset + c.utf8Size) (c :: done) rest
    | .spoilt size _ => .error (.spoilt size offset)
    | .cut => .error (.cut offset)

/-- The text, if the bytes are UTF-8 throughout. -/
def decode? (bytes : ByteArray) : Except Fault String :=
  (decodeFrom bytes.size 0 [] bytes.data.toList).map String.ofList

def replacement : Char := '\ufffd'

def decodeLossyFrom : Nat → List Char → List UInt8 → List Char
  | _, done, [] => done.reverse
  | 0, done, _ :: _ => done.reverse
  | fuel + 1, done, b :: bytes =>
    match next b bytes with
    | .char c rest => decodeLossyFrom fuel (c :: done) rest
    | .spoilt _ rest => decodeLossyFrom fuel (replacement :: done) rest
    | .cut => (replacement :: done).reverse

/-- The text with a replacement character in the place of each fault. -/
def decodeLossy (bytes : ByteArray) : String :=
  String.ofList (decodeLossyFrom bytes.size [] bytes.data.toList)

end Ember.Text.Utf8

import StacCatalog.Text.Hex

/-!
# The UTF-8 form of a text: its bytes, and reading bytes back
-/

namespace StacCatalog.Text

def utf8Char (c : Char) : List Nat :=
  let n := c.toNat
  if n < 0x80 then [n]
  else if n < 0x800 then [0xC0 + n / 64, 0x80 + n % 64]
  else if n < 0x10000 then [0xE0 + n / 4096, 0x80 + n / 64 % 64, 0x80 + n % 64]
  else [0xF0 + n / 262144, 0x80 + n / 4096 % 64, 0x80 + n / 64 % 64, 0x80 + n % 64]

def utf8 (s : String) : List Nat :=
  s.toList.flatMap utf8Char

/-- The bytes of a text in hexadecimal digits. -/
def utf8Hex (s : String) : String :=
  String.ofList ((utf8 s).flatMap hexByte)

/-- What a lead byte announces: the bits it contributes, the number of continuation bytes, and the
range of the first of them. -/
structure Lead where
  bits : Nat
  more : Nat
  low : Nat
  high : Nat

/-- The reading of a lead byte; `none` for a byte that starts no sequence. -/
def lead? (b : Nat) : Option Lead :=
  if b < 0x80 then some ⟨b, 0, 0x80, 0xBF⟩
  else if b < 0xC2 then none
  else if b < 0xE0 then some ⟨b - 0xC0, 1, 0x80, 0xBF⟩
  else if b == 0xE0 then some ⟨0, 2, 0xA0, 0xBF⟩
  else if b == 0xED then some ⟨0xD, 2, 0x80, 0x9F⟩
  else if b < 0xF0 then some ⟨b - 0xE0, 2, 0x80, 0xBF⟩
  else if b == 0xF0 then some ⟨0, 3, 0x90, 0xBF⟩
  else if b < 0xF4 then some ⟨b - 0xF0, 3, 0x80, 0xBF⟩
  else if b == 0xF4 then some ⟨4, 3, 0x80, 0x8F⟩
  else none

/-- What has been read of a sequence that is not complete. -/
structure Pending where
  value : Nat
  more : Nat
  low : Nat
  high : Nat

/-- The state between two bytes, a possible character read, and whether an ill-formed piece ended.
-/
def startByte (b : Nat) : Option Pending × Option Char × Bool :=
  match lead? b with
  | none => (none, none, true)
  | some l =>
    if l.more = 0 then (none, some (Char.ofNat l.bits), false)
    else (some ⟨l.bits, l.more, l.low, l.high⟩, none, false)

/-- The character put in place of an ill-formed piece. -/
def replacement : Char := Char.ofNat 0xFFFD

/-- Reads bytes, with one entry per character or ill-formed piece (`none`). -/
def utf8Pieces (state : Option Pending) : List Nat → List (Option Char)
  | [] => if state.isSome then [none] else []
  | b :: rest =>
    match state with
    | none =>
      let (next, read, bad) := startByte b
      (if bad then [none] else read.toList.map some) ++ utf8Pieces next rest
    | some p =>
      if p.low ≤ b && b ≤ p.high then
        let value := p.value * 64 + b % 64
        if p.more = 1 then some (Char.ofNat value) :: utf8Pieces none rest
        else utf8Pieces (some ⟨value, p.more - 1, 0x80, 0xBF⟩) rest
      else
        let (next, read, bad) := startByte b
        none :: (if bad then [none] else read.toList.map some) ++ utf8Pieces next rest

/-- The text of bytes, each ill-formed piece replaced. -/
def decodeLossy (bytes : List Nat) : List Char :=
  (utf8Pieces none bytes).map (·.getD replacement)

/-- The text of well-formed bytes. -/
def decode? (bytes : List Nat) : Option (List Char) :=
  (utf8Pieces none bytes).mapM id

end StacCatalog.Text

namespace Policy.Http.Percent

/-- The characters that stand for themselves in a query. -/
def isPlain (c : Char) : Bool :=
  c.isAlphanum || ['-', '_', '.', '~', '!', '*', '(', ')'].contains c

def hexDigit (n : Nat) : Char := Char.ofNat (if n < 10 then 48 + n else 55 + n)

def encodeByte (b : UInt8) : List Char :=
  ['%', hexDigit (b.toNat / 16), hexDigit (b.toNat % 16)]

def encodeChar (c : Char) : List Char :=
  if isPlain c then [c] else (String.utf8EncodeChar c).flatMap encodeByte

/-- A text as a part of a query: plain characters, and for all others their bytes in two upper case
digits. -/
def encode (cs : List Char) : List Char := cs.flatMap encodeChar

end Policy.Http.Percent

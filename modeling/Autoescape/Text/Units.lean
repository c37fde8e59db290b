/-!
# Text as sixteen-bit code units

A character below U+10000 is one unit, every other character a high and a low surrogate.
Reading back accepts exactly the sequences in which surrogates stand in such pairs;
`decode?_encode` says that writing loses nothing.
-/
namespace Autoescape.Text.Units

def ofChar (c : Char) : List UInt16 :=
  if c.toNat < 0x10000 then [c.toNat.toUInt16]
  else [(0xD7C0 + c.toNat / 0x400).toUInt16, (0xDC00 + c.toNat % 0x400).toUInt16]

def encode (s : List Char) : List UInt16 := s.flatMap ofChar

def isHigh (u : UInt16) : Bool := 0xD800 ≤ u.toNat && u.toNat < 0xDC00

def isLow (u : UInt16) : Bool := 0xDC00 ≤ u.toNat && u.toNat < 0xE000

def ofPair (high low : UInt16) : Char :=
  Char.ofNat (0x10000 + (high.toNat - 0xD800) * 0x400 + (low.toNat - 0xDC00))

/-- Reads a text back from its code units, unless a surrogate stands alone. -/
def decode? : List UInt16 → Option (List Char)
  | [] => some []
  | u :: rest =>
    if isHigh u then
      match rest with
      | v :: rest => if isLow v then (decode? rest).map (ofPair u v :: ·) else none
      | [] => none
    else if isLow u then none
    else (decode? rest).map (Char.ofNat u.toNat :: ·)

@[simp] theorem encode_nil : encode [] = [] := rfl

@[simp] theorem encode_cons (c : Char) (s : List Char) : encode (c :: s) = ofChar c ++ encode s := rfl

@[simp] theorem encode_append (s t : List Char) : encode (s ++ t) = encode s ++ encode t :=
  List.flatMap_append

theorem toNat_bounds (c : Char) : c.toNat < 0xD800 ∨ (0xDFFF < c.toNat ∧ c.toNat < 0x110000) := c.valid

theorem decode?_single {u : UInt16} (units : List UInt16) (hhigh : isHigh u = false)
    (hlow : isLow u = false) :
    decode? (u :: units) = (decode? units).map (Char.ofNat u.toNat :: ·) := by
  cases units <;> simp [decode?, hhigh, hlow]

theorem decode?_pair {u v : UInt16} (units : List UInt16) (hhigh : isHigh u = true)
    (hlow : isLow v = true) :
    decode? (u :: v :: units) = (decode? units).map (ofPair u v :: ·) := by
  simp [decode?, hhigh, hlow]

/-- Reading takes one written character off the front. -/
theorem decode?_ofChar_append (c : Char) (units : List UInt16) :
    decode? (ofChar c ++ units) = (decode? units).map (c :: ·) := by
  have hc := toNat_bounds c
  unfold ofChar
  split
  · next h =>
    have hu : c.toNat.toUInt16.toNat = c.toNat := by simp; omega
    have hhigh : isHigh c.toNat.toUInt16 = false := by simp only [isHigh, hu]; simp; omega
    have hlow : isLow c.toNat.toUInt16 = false := by simp only [isLow, hu]; simp; omega
    rw [List.singleton_append, decode?_single units hhigh hlow, hu, Char.ofNat_toNat]
  · next h =>
    have hu : (0xD7C0 + c.toNat / 0x400).toUInt16.toNat = 0xD7C0 + c.toNat / 0x400 := by simp; omega
    have hv : (0xDC00 + c.toNat % 0x400).toUInt16.toNat = 0xDC00 + c.toNat % 0x400 := by simp; omega
    have hhigh : isHigh (0xD7C0 + c.toNat / 0x400).toUInt16 = true := by
      simp only [isHigh, hu]; simp; omega
    have hlow : isLow (0xDC00 + c.toNat % 0x400).toUInt16 = true := by
      simp only [isLow, hv]; simp; omega
    have hpair : ofPair (0xD7C0 + c.toNat / 0x400).toUInt16 (0xDC00 + c.toNat % 0x400).toUInt16 = c := by
      rw [ofPair, hu, hv, show 0x10000 + (0xD7C0 + c.toNat / 0x400 - 0xD800) * 0x400 +
        (0xDC00 + c.toNat % 0x400 - 0xDC00) = c.toNat by omega, Char.ofNat_toNat]
    rw [List.cons_append, List.singleton_append, decode?_pair units hhigh hlow, hpair]

/-- Writing and reading back gives the same text. -/
theorem decode?_encode (s : List Char) : decode? (encode s) = some s := by
  induction s with
  | nil => rfl
  | cons c s ih => rw [encode_cons, decode?_ofChar_append, ih]; rfl

end Autoescape.Text.Units

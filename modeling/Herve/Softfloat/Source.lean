import Herve.Lib.BreakLoop

/-! The functions of `softfloat.c` on the bit patterns of doubles. An `int` that is never
negative is a natural number here, the other ones are integers. -/

namespace Herve.Softfloat

/-- What a C condition gives as a number. -/
def flag (p : Prop) [Decidable p] : BitVec 64 := if p then 1 else 0

def expMask : BitVec 64 := 0x7FF

def mantMask : BitVec 64 := 0x000FFFFFFFFFFFFF

def signMask : BitVec 64 := 0x8000000000000000

/-- Bit 52, the implicit leading 1. -/
def bit52 : BitVec 64 := 0x0010000000000000

def bit53 : BitVec 64 := 0x0020000000000000

def getExp (x : BitVec 64) : ℕ := ((x >>> 52) &&& expMask).toNat

def getMant (x : BitVec 64) : BitVec 64 := x &&& mantMask

def getSign (x : BitVec 64) : ℕ := (x >>> 63).toNat

def setSign (x : BitVec 64) (s : ℕ) : BitVec 64 :=
  (x &&& ~~~signMask) ||| (BitVec.ofNat 64 (s &&& 1) <<< 63)

/-- The mantissa with the implicit leading 1 of a normal number. -/
def fullMant (x : BitVec 64) : BitVec 64 := if getExp x ≠ 0 then getMant x ||| bit52 else getMant x

/-- The last lines of `normalize` and `__adddf3`. -/
def pack (exp : ℤ) (mant : BitVec 64) (sign : ℕ) : BitVec 64 :=
  if exp ≤ 0 then setSign 0 sign
  else if exp ≥ 2047 then setSign (expMask <<< 52) sign
  else setSign ((BitVec.ofInt 64 exp <<< 52) ||| (mant &&& mantMask)) sign

/-! ## `normalize` -/

/-- Round up if the bits behind the mantissa say so, and pack. -/
def roundAndPack (mant guard roundBit sticky : BitVec 64) (exp : ℤ) (sign : ℕ) : BitVec 64 :=
  if guard ≠ 0 ∧ (roundBit ≠ 0 ∨ sticky ≠ 0) then
    if (mant + 1) &&& bit53 ≠ 0 then pack (exp + 1) ((mant + 1) >>> 1) sign
    else pack exp (mant + 1) sign
  else pack exp mant sign

/-- `while (!(m_lo & bit52) && shift < 63)` -/
def shiftBody (x : BitVec 64 × ℕ) : Bool × (BitVec 64 × ℕ) :=
  if x.1 &&& bit52 = 0 ∧ x.2 < 63 then (true, (x.1 <<< 1, x.2 + 1)) else (false, x)

def normalize (mHi mLo : BitVec 64) (exp : ℤ) (sign : ℕ) : BitVec 64 :=
  if mHi = 0 ∧ mLo = 0 then setSign 0 sign
  else
    let mr := (mHi <<< 1) ||| (mLo >>> 52)
    let guard := (mLo >>> 51) &&& 1
    let roundBit := (mLo >>> 50) &&& 1
    let sticky := flag (mLo &&& ((1#64 <<< 50) - 1) ≠ 0)
    if mr = 0 then
      let r := (BreakLoop.loop shiftBody 63 (mLo, 0)).2
      roundAndPack (r.1 &&& mantMask) ((r.1 >>> 52) &&& 1) ((r.1 >>> 51) &&& 1)
        (flag (r.1 &&& ((1#64 <<< 51) - 1) ≠ 0)) (exp - r.2) sign
    else if mr &&& bit53 ≠ 0 then
      roundAndPack ((mr >>> 1) &&& mantMask) (mr &&& 1) 0 0 (exp + 1) sign
    else roundAndPack (mr &&& mantMask) guard roundBit sticky exp sign

/-! ## Addition and subtraction -/

/-- The mantissa of the operand with the smaller exponent, shifted right with a sticky bit. -/
def align (mb : BitVec 64) (expDiff : ℕ) : BitVec 64 :=
  if expDiff > 63 then 0
  else if expDiff > 0 then
    let sticky :=
      if expDiff > 53 then flag (mb ≠ 0) else flag (mb &&& ((1#64 <<< expDiff) - 1) ≠ 0)
    if sticky ≠ 0 then (mb >>> expDiff) ||| 1 else mb >>> expDiff
  else mb

/-- `result_exp` and `result_mant` of operands with the same sign. -/
def addMants (ma mb : BitVec 64) (exp : ℕ) : ℕ × BitVec 64 :=
  let r := ma + mb
  if r &&& bit53 ≠ 0 then
    let r' := r >>> 1
    if r &&& 1 ≠ 0 then
      if (r' + 1) &&& bit53 ≠ 0 then (exp + 2, (r' + 1) >>> 1) else (exp + 1, r' + 1)
    else (exp + 1, r')
  else (exp, r)

/-- `while (!(result_mant & bit52) && result_exp > 0)` -/
def subBody (x : ℕ × BitVec 64) : Bool × (ℕ × BitVec 64) :=
  if x.2 &&& bit52 = 0 ∧ x.1 > 0 then (true, (x.1 - 1, x.2 <<< 1)) else (false, x)

structure Operand where
  sign : ℕ
  exp : ℕ
  mant : BitVec 64

def unpack (x : BitVec 64) : Operand := ⟨getSign x, getExp x, fullMant x⟩

/-- The sum of two finite numbers, the one with the larger exponent first. -/
def addOrdered (x y : Operand) : BitVec 64 :=
  let mb := align y.mant (x.exp - y.exp)
  if x.sign = y.sign then
    let r := addMants x.mant mb x.exp
    pack r.1 r.2 x.sign
  else
    let mant := if x.mant ≥ mb then x.mant - mb else mb - x.mant
    let sign := if x.mant ≥ mb then x.sign else y.sign
    if mant = 0 then 0
    else
      let r := (BreakLoop.loop subBody x.exp (x.exp, mant)).2
      pack r.1 r.2 sign

def adddf3 (a b : BitVec 64) : BitVec 64 :=
  if getExp a = 2047 then a
  else if getExp b = 2047 then b
  else if getExp a = 0 ∧ getMant a = 0 then b
  else if getExp b = 0 ∧ getMant b = 0 then a
  else if getExp a < getExp b then addOrdered (unpack b) (unpack a)
  else addOrdered (unpack a) (unpack b)

def subdf3 (a b : BitVec 64) : BitVec 64 := adddf3 a (b ^^^ signMask)

/-! ## Multiplication -/

/-- `lo64 += x; if (lo64 < old_lo) hi64++;` on `(hi64, lo64)` -/
def addLow (w : BitVec 64 × BitVec 64) (x : BitVec 64) : BitVec 64 × BitVec 64 :=
  (if w.2 + x < w.2 then w.1 + 1 else w.1, w.2 + x)

/-- `(hi64, lo64)` from the four partial products -/
def accumulate (p00 p01 p10 p11 : BitVec 64) : BitVec 64 × BitVec 64 :=
  let w := addLow (addLow (addLow (0, p00) (p01 <<< 26)) (p10 <<< 26)) ((p11 &&& mantMask) <<< 52)
  (w.1 + (p11 >>> 12) + (p01 >>> 38) + (p10 >>> 38), w.2)

/-- The 106 bits of `ma * mb` as `(m_hi, m_lo)`. -/
def product (ma mb : BitVec 64) : BitVec 64 × BitVec 64 :=
  let aLo := (ma &&& 0x3FFFFFF).setWidth 32
  let aHi := (ma >>> 26).setWidth 32
  let bLo := (mb &&& 0x3FFFFFF).setWidth 32
  let bHi := (mb >>> 26).setWidth 32
  let w := accumulate (aLo.setWidth 64 * bLo.setWidth 64) (aLo.setWidth 64 * bHi.setWidth 64)
    (aHi.setWidth 64 * bLo.setWidth 64) (aHi.setWidth 64 * bHi.setWidth 64)
  (((w.1 <<< 11) ||| (w.2 >>> 53)) &&& 0x001FFFFFFFFFFFFF, w.2 &&& 0x001FFFFFFFFFFFFF)

def muldf3 (a b : BitVec 64) : BitVec 64 :=
  let sign := getSign a ^^^ getSign b
  if getExp a = 2047 ∨ getExp b = 2047 then
    if (getExp a = 2047 ∧ getMant a ≠ 0) ∨ (getExp b = 2047 ∧ getMant b ≠ 0) then
      0x7FF8000000000000
    else setSign (expMask <<< 52) sign
  else if (getExp a = 0 ∧ getMant a = 0) ∨ (getExp b = 0 ∧ getMant b = 0) then setSign 0 sign
  else
    let m := product (fullMant a) (fullMant b)
    normalize m.1 m.2 (getExp a + getExp b - 1023) sign

/-! ## Division -/

structure DivState where
  remainder : BitVec 64
  quotient : BitVec 64
  bits : ℕ

/-- `while (bits < 106 && remainder != 0)` -/
def divBody (mb : BitVec 64) (s : DivState) : Bool × DivState :=
  if s.bits < 106 ∧ s.remainder ≠ 0 then
    if s.remainder <<< 1 ≥ mb then
      (true, ⟨(s.remainder <<< 1) - mb, (s.quotient <<< 1) ||| 1, s.bits + 1⟩)
    else (true, ⟨s.remainder <<< 1, s.quotient <<< 1, s.bits + 1⟩)
  else (false, s)

/-- `__divdf3`; `undef` is what the machine makes of a shift by 64 or more, which C leaves
undefined. -/
def divdf3 (undef : BitVec 64 → ℕ → BitVec 64) (a b : BitVec 64) : BitVec 64 :=
  let sign := getSign a ^^^ getSign b
  if getExp a = 2047 ∨ getExp b = 2047 then
    if (getExp a = 2047 ∧ getMant a ≠ 0) ∨ (getExp b = 2047 ∧ getMant b ≠ 0) then
      0x7FF8000000000000
    else setSign (expMask <<< 52) sign
  else if (getExp a = 0 ∧ getMant a = 0) ∨ (getExp b = 0 ∧ getMant b = 0) then
    setSign (expMask <<< 52) sign
  else
    let r := (BreakLoop.loop (divBody (fullMant b)) 106 ⟨fullMant a, 0, 0⟩).2
    let quotient :=
      if 106 - r.bits < 64 then r.quotient <<< (106 - r.bits) else undef r.quotient (106 - r.bits)
    normalize (quotient >>> 53) (quotient &&& 0x001FFFFFFFFFFFFF)
      (getExp a - getExp b + 1023) sign

/-! ## Comparison -/

/-- What `c ? 1 : 0` gives as an `int`. -/
def truth (p : Prop) [Decidable p] : ℤ := if p then 1 else 0

def cmpdf3 (a b : BitVec 64) : ℤ :=
  if a = b then 0
  else if getSign a ≠ getSign b then if getSign a ≠ 0 then -1 else 1
  else
    let magA := a &&& ~~~signMask
    let magB := b &&& ~~~signMask
    if magA = magB then 0
    else if getSign a ≠ 0 then if magA > magB then -1 else 1
    else if magA > magB then 1 else -1

def eqdf2 (a b : BitVec 64) : ℤ := truth (cmpdf3 a b = 0)

def nedf2 (a b : BitVec 64) : ℤ := truth (cmpdf3 a b ≠ 0)

def gtdf2 (a b : BitVec 64) : ℤ := truth (cmpdf3 a b > 0)

def gedf2 (a b : BitVec 64) : ℤ := truth (cmpdf3 a b ≥ 0)

def ltdf2 (a b : BitVec 64) : ℤ := truth (cmpdf3 a b < 0)

def ledf2 (a b : BitVec 64) : ℤ := truth (cmpdf3 a b ≤ 0)

/-! ## Integers -/

/-- `shift` of `__fixdfsi` -/
def fixShift (a : BitVec 64) : ℤ := 52 - (getExp a - 1023)

/-- `__fixdfsi`, with `undef` as in `divdf3`. -/
def fixdfsi (undef : BitVec 64 → ℕ → BitVec 64) (a : BitVec 64) : BitVec 32 :=
  if getExp a = 0 ∧ getMant a = 0 then 0
  else if getExp a = 2047 then 0x80000000
  else
    let ma := getMant a ||| bit52
    let shift := fixShift a
    if shift < 0 then if getSign a ≠ 0 then 0x80000000 else 0x7FFFFFFF
    else
      let result :=
        (if shift < 64 then ma >>> shift.toNat else undef ma shift.toNat).setWidth 32
      if getSign a ≠ 0 then -result else result

/-- `while (!(mant & bit52))` -/
def floatBody (x : BitVec 64 × ℤ) : Bool × (BitVec 64 × ℤ) :=
  if x.1 &&& bit52 = 0 then (true, (x.1 <<< 1, x.2 - 1)) else (false, x)

/-- `__floatunsidf`; the loop has no bound in the source. -/
def floatunsidf (a : BitVec 32) : BitVec 64 :=
  if a = 0 then 0
  else
    let r := (BreakLoop.loop floatBody 64 (a.setWidth 64, 1023 + 31)).2
    (BitVec.ofInt 64 r.2 <<< 52) ||| (r.1 &&& mantMask)

/-- `__floatsidf`; `-a` wraps around. -/
def floatsidf (a : BitVec 32) : BitVec 64 :=
  if a = 0 then 0
  else if a.toInt < 0 then floatunsidf (-a) ||| signMask
  else floatunsidf a

/-! ## Single precision -/

def extendsfdf2 (a : BitVec 32) : BitVec 64 :=
  let sa := (a >>> 31).toNat
  let ea := ((a >>> 23) &&& 0xFF).toNat
  let ma := a &&& 0x7FFFFF
  if ea = 0 ∧ ma = 0 then BitVec.ofNat 64 sa <<< 63
  else if ea = 255 then
    if ma = 0 then (BitVec.ofNat 64 sa <<< 63) ||| (expMask <<< 52) else 0x7FF8000000000000
  else
    (BitVec.ofNat 64 sa <<< 63) ||| (BitVec.ofNat 64 (ea + (1023 - 127)) <<< 52) |||
      (ma.setWidth 64 <<< 29)

/-- The last line of `__truncdfsf2`. -/
def packSingle (exp : ℤ) (mant : BitVec 32) (sign : ℕ) : BitVec 32 :=
  (BitVec.ofNat 32 sign <<< 31) ||| (BitVec.ofInt 32 exp <<< 23) ||| (mant &&& 0x7FFFFF)

def truncdfsf2 (a : BitVec 64) : BitVec 32 :=
  let sa := getSign a
  if getExp a = 2047 then
    if getMant a = 0 then (BitVec.ofNat 32 sa <<< 31) ||| 0x7F800000 else 0x7FC00000
  else if getExp a = 0 ∧ getMant a = 0 then BitVec.ofNat 32 sa <<< 31
  else
    let ma := getMant a ||| bit52
    let newExp : ℤ := getExp a - 1023 + 127
    if newExp ≥ 255 then (BitVec.ofNat 32 sa <<< 31) ||| 0x7F800000
    else if newExp ≤ 0 then BitVec.ofNat 32 sa <<< 31
    else
      let extra := (ma &&& 0x1FFFFFFF).setWidth 32
      let guard := (extra >>> 28) &&& 1
      let roundBit := (extra >>> 27) &&& 1
      let mant := (ma >>> 29).setWidth 32
      let mant := if guard ≠ 0 ∧ (roundBit ≠ 0 ∨ extra &&& 0x7FFFFFF ≠ 0) then mant + 1 else mant
      if mant &&& 0x1000000 ≠ 0 then packSingle (newExp + 1) (mant >>> 1) sa
      else packSingle newExp mant sa

end Herve.Softfloat

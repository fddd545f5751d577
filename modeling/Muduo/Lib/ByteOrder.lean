import Mathlib.Algebra.Group.Nat.Defs
import Mathlib.Tactic.Ring

/-!
Words in memory. A word of `n` bytes is a `BitVec (8 * n)`, memory is a list
of bytes, and the byte order of the host says how a word is laid out there.

`store_toBig` and `fromBig_load` are the two facts a program needs about
converting before it stores a word and after it loads one: the memory then
holds the big-endian bytes whatever the host is. `twosComplement_toInt` reads these
bytes off the signed value of the word.
-/

namespace Muduo.Lib

/-! ## Digits to the base 256 -/

/-- The last `n` digits of `x`, least significant first. -/
def littleEndian : Nat → Nat → List UInt8
  | 0, _ => []
  | n + 1, x => UInt8.ofNat x :: littleEndian n (x / 256)

def ofLittleEndian : List UInt8 → Nat
  | [] => 0
  | b :: bs => b.toNat + 256 * ofLittleEndian bs

def bigEndian (n x : Nat) : List UInt8 := (littleEndian n x).reverse

@[simp] theorem length_littleEndian (n x : Nat) : (littleEndian n x).length = n := by
  induction n generalizing x with
  | zero => rfl
  | succ n ih => simp [littleEndian, ih]

@[simp] theorem length_bigEndian (n x : Nat) : (bigEndian n x).length = n := by
  simp [bigEndian]

theorem ofLittleEndian_lt (bs : List UInt8) : ofLittleEndian bs < 256 ^ bs.length := by
  induction bs with
  | nil => exact Nat.one_pos
  | cons b bs ih =>
    have hb := b.toNat_lt
    simp only [ofLittleEndian, List.length_cons, Nat.pow_succ]
    omega

theorem ofLittleEndian_littleEndian (n x : Nat) :
    ofLittleEndian (littleEndian n x) = x % 256 ^ n := by
  induction n generalizing x with
  | zero => simp [littleEndian, ofLittleEndian, Nat.mod_one]
  | succ n ih =>
    rw [littleEndian, ofLittleEndian, ih, Nat.pow_succ', Nat.mod_mul, UInt8.toNat_ofNat']

theorem littleEndian_ofLittleEndian {n : Nat} {bs : List UInt8} (h : bs.length = n) :
    littleEndian n (ofLittleEndian bs) = bs := by
  induction bs generalizing n with
  | nil => subst h; rfl
  | cons b bs ih =>
    subst h
    have hb := b.toNat_lt
    have hdiv : (b.toNat + 256 * ofLittleEndian bs) / 256 = ofLittleEndian bs := by omega
    have hmod : UInt8.ofNat (b.toNat + 256 * ofLittleEndian bs) = b := by
      apply UInt8.toNat_inj.mp
      rw [UInt8.toNat_ofNat']
      omega
    rw [List.length_cons, ofLittleEndian, littleEndian, hdiv, hmod, ih rfl]

/-! ## Words -/

theorem two_pow_eight_mul (n : Nat) : 2 ^ (8 * n) = 256 ^ n := by
  rw [Nat.pow_mul]

/-- The word with the given digits. -/
def wordLE (n : Nat) (bs : List UInt8) : BitVec (8 * n) := BitVec.ofNat _ (ofLittleEndian bs)

def wordBE (n : Nat) (bs : List UInt8) : BitVec (8 * n) := wordLE n bs.reverse

theorem toNat_wordLE {n : Nat} {bs : List UInt8} (h : bs.length = n) :
    (wordLE n bs).toNat = ofLittleEndian bs := by
  have hlt := ofLittleEndian_lt bs
  rw [h, ← two_pow_eight_mul] at hlt
  rw [wordLE, BitVec.toNat_ofNat, Nat.mod_eq_of_lt hlt]

theorem wordLE_littleEndian {n : Nat} (x : BitVec (8 * n)) :
    wordLE n (littleEndian n x.toNat) = x := by
  apply BitVec.eq_of_toNat_eq
  rw [toNat_wordLE (length_littleEndian _ _), ofLittleEndian_littleEndian, ← two_pow_eight_mul,
    Nat.mod_eq_of_lt x.isLt]

theorem wordBE_bigEndian {n : Nat} (x : BitVec (8 * n)) : wordBE n (bigEndian n x.toNat) = x := by
  rw [wordBE, bigEndian, List.reverse_reverse, wordLE_littleEndian]

/-- Reverse the order of the bytes. -/
def byteSwap {n : Nat} (x : BitVec (8 * n)) : BitVec (8 * n) := wordBE n (littleEndian n x.toNat)

theorem littleEndian_byteSwap {n : Nat} (x : BitVec (8 * n)) :
    littleEndian n (byteSwap x).toNat = bigEndian n x.toNat := by
  have hlen : (littleEndian n x.toNat).reverse.length = n := by simp
  rw [byteSwap, wordBE, toNat_wordLE hlen, littleEndian_ofLittleEndian hlen, bigEndian]

theorem byteSwap_wordLE {n : Nat} {bs : List UInt8} (h : bs.length = n) :
    byteSwap (wordLE n bs) = wordBE n bs := by
  rw [byteSwap, toNat_wordLE h, littleEndian_ofLittleEndian h]

/-! ## Hosts -/

inductive ByteOrder where
  | little
  | big
  deriving DecidableEq, Repr

namespace ByteOrder

/-- The bytes of a word in the memory of the host. -/
def store (o : ByteOrder) {n : Nat} (x : BitVec (8 * n)) : List UInt8 :=
  match o with
  | little => littleEndian n x.toNat
  | big => bigEndian n x.toNat

def load (o : ByteOrder) (n : Nat) (bs : List UInt8) : BitVec (8 * n) :=
  match o with
  | little => wordLE n bs
  | big => wordBE n bs

/-- From host order to big-endian. -/
def toBig (o : ByteOrder) {n : Nat} (x : BitVec (8 * n)) : BitVec (8 * n) :=
  match o with
  | little => byteSwap x
  | big => x

/-- From big-endian to host order. -/
def fromBig (o : ByteOrder) {n : Nat} (x : BitVec (8 * n)) : BitVec (8 * n) :=
  match o with
  | little => byteSwap x
  | big => x

variable {n : Nat}

@[simp] theorem length_store (o : ByteOrder) (x : BitVec (8 * n)) : (o.store x).length = n := by
  cases o <;> simp [store]

theorem store_toBig (o : ByteOrder) (x : BitVec (8 * n)) :
    o.store (o.toBig x) = bigEndian n x.toNat := by
  cases o with
  | little => exact littleEndian_byteSwap x
  | big => rfl

theorem fromBig_load (o : ByteOrder) {bs : List UInt8} (h : bs.length = n) :
    o.fromBig (o.load n bs) = wordBE n bs := by
  cases o with
  | little => exact byteSwap_wordLE h
  | big => rfl

theorem load_store (o : ByteOrder) (x : BitVec (8 * n)) : o.load n (o.store x) = x := by
  cases o with
  | little => exact wordLE_littleEndian x
  | big => exact wordBE_bigEndian x

/-- One byte has no order. -/
theorem toBig_byte (o : ByteOrder) (x : BitVec 8) : o.toBig (n := 1) x = x := by
  cases o with
  | little => exact wordLE_littleEndian (n := 1) x
  | big => rfl

theorem fromBig_byte (o : ByteOrder) (x : BitVec 8) : o.fromBig (n := 1) x = x := by
  cases o with
  | little => exact wordLE_littleEndian (n := 1) x
  | big => rfl

@[simp] theorem fromBig_toBig (o : ByteOrder) (x : BitVec (8 * n)) :
    o.fromBig (o.toBig x) = x := by
  conv_lhs => rw [← load_store o (o.toBig x), store_toBig]
  rw [fromBig_load o (length_bigEndian _ _), wordBE_bigEndian]

end ByteOrder

/-! ## Two's complement -/

/-- The last `n` digits of the two's complement of `v`, least significant first. -/
def signedDigits : Nat → Int → List UInt8
  | 0, _ => []
  | n + 1, v => UInt8.ofNat (v % 256).toNat :: signedDigits n (v / 256)

def twosComplement (n : Nat) (v : Int) : List UInt8 := (signedDigits n v).reverse

theorem signedDigits_eq (n : Nat) {v : Int} {x : Nat} {c : Int} (h : v = x + 256 ^ n * c) :
    signedDigits n v = littleEndian n x := by
  induction n generalizing v x with
  | zero => rfl
  | succ n ih =>
    have hv : v = x + 256 * (256 ^ n * c) := by rw [h]; ring
    have hdigit : UInt8.ofNat (v % 256).toNat = UInt8.ofNat x := by
      have hmod : (v % 256).toNat = x % 256 := by omega
      apply UInt8.toNat_inj.mp
      rw [hmod, UInt8.toNat_ofNat', UInt8.toNat_ofNat', Nat.mod_mod]
    have hrest : v / 256 = ((x / 256 : Nat) : Int) + 256 ^ n * c := by omega
    rw [signedDigits, littleEndian, hdigit, ih hrest]

theorem twosComplement_toInt {n : Nat} (x : BitVec (8 * n)) :
    twosComplement n x.toInt = bigEndian n x.toNat := by
  have hpow : ((2 ^ (8 * n) : Nat) : Int) = 256 ^ n := by rw [two_pow_eight_mul]; norm_cast
  rw [twosComplement, bigEndian]
  congr 1
  rw [BitVec.toInt_eq_toNat_cond]
  split
  · exact signedDigits_eq n (c := 0) (by ring)
  · exact signedDigits_eq n (c := -1) (by rw [hpow]; ring)

end Muduo.Lib

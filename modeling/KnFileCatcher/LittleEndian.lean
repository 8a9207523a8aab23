import Mathlib.Tactic

/-! Fixed-width words in little-endian byte strings, written one after the other and
read at an offset. -/

namespace LittleEndian

def toBytes : Nat → Nat → List (BitVec 8)
  | 0, _ => []
  | w + 1, n => BitVec.ofNat 8 n :: toBytes w (n / 256)

def ofBytes (bytes : List (BitVec 8)) : Nat := bytes.foldr (fun b n => b.toNat + 256 * n) 0

@[simp] theorem length_toBytes (w n : Nat) : (toBytes w n).length = w := by
  induction w generalizing n with
  | zero => rfl
  | succ w ih => simp [toBytes, ih]

theorem ofBytes_toBytes (w n : Nat) : ofBytes (toBytes w n) = n % 256 ^ w := by
  induction w generalizing n with
  | zero => simp [toBytes, ofBytes, Nat.mod_one]
  | succ w ih =>
    have hcons : ofBytes (toBytes (w + 1) n) = n % 256 + 256 * ofBytes (toBytes w (n / 256)) := by
      simp [toBytes, ofBytes]
    rw [hcons, ih, pow_succ', Nat.mod_mul]

theorem toBytes_ofBytes (bytes : List (BitVec 8)) : toBytes bytes.length (ofBytes bytes) = bytes := by
  induction bytes with
  | nil => rfl
  | cons b bytes ih =>
    have hcons : ofBytes (b :: bytes) = b.toNat + 256 * ofBytes bytes := rfl
    have hlt := b.isLt
    have hlow : BitVec.ofNat 8 (ofBytes (b :: bytes)) = b := by
      apply BitVec.eq_of_toNat_eq
      rw [hcons, BitVec.toNat_ofNat]
      omega
    have hhigh : ofBytes (b :: bytes) / 256 = ofBytes bytes := by
      rw [hcons]
      omega
    rw [List.length_cons, toBytes, hlow, hhigh, ih]

theorem ofBytes_lt (bytes : List (BitVec 8)) : ofBytes bytes < 256 ^ bytes.length := by
  induction bytes with
  | nil => decide
  | cons b bytes ih =>
    have hcons : ofBytes (b :: bytes) = b.toNat + 256 * ofBytes bytes := rfl
    have hlt := b.isLt
    rw [hcons, List.length_cons, pow_succ]
    omega

/-- The bytes of a word of `8 * w` bits. -/
def word {w : Nat} (x : BitVec (8 * w)) : List (BitVec 8) := toBytes w x.toNat

def readWord (w off : Nat) (bytes : List (BitVec 8)) : BitVec (8 * w) :=
  BitVec.ofNat _ (ofBytes ((bytes.drop off).take w))

@[simp] theorem length_word {w : Nat} (x : BitVec (8 * w)) : (word x).length = w :=
  length_toBytes _ _

theorem ofNat_ofBytes_word {w : Nat} (x : BitVec (8 * w)) :
    BitVec.ofNat (8 * w) (ofBytes (word x)) = x := by
  apply BitVec.eq_of_toNat_eq
  rw [word, ofBytes_toBytes, BitVec.toNat_ofNat, pow_mul]
  have hlt := x.isLt
  rw [pow_mul] at hlt
  rw [show (256 : Nat) = 2 ^ 8 from rfl, Nat.mod_mod, Nat.mod_eq_of_lt hlt]

@[simp] theorem readWord_word {w : Nat} (x : BitVec (8 * w)) (post : List (BitVec 8)) :
    readWord w 0 (word x ++ post) = x := by
  rw [readWord, List.drop_zero, List.take_left' (length_word x), ofNat_ofBytes_word]

theorem readWord_skip {w off : Nat} {pre : List (BitVec 8)} (h : pre.length ≤ off)
    (bytes : List (BitVec 8)) :
    readWord w off (pre ++ bytes) = readWord w (off - pre.length) bytes := by
  rw [readWord, readWord, List.drop_append, List.drop_eq_nil_of_le h, List.nil_append]

theorem drop_word {w off : Nat} (h : w ≤ off) (x : BitVec (8 * w)) (bytes : List (BitVec 8)) :
    (word x ++ bytes).drop off = bytes.drop (off - w) := by
  rw [List.drop_append, List.drop_eq_nil_of_le (by simpa using h), List.nil_append, length_word]

theorem readWord_take {w off n : Nat} (h : off + w ≤ n) (bytes : List (BitVec 8)) :
    readWord w off (bytes.take n) = readWord w off bytes := by
  rw [readWord, readWord, List.drop_take, List.take_take, Nat.min_eq_left (by omega)]

theorem word_readWord {w : Nat} {bytes : List (BitVec 8)} (h : bytes.length = w) :
    word (readWord w 0 bytes) = bytes := by
  have hlt := ofBytes_lt bytes
  rw [h, show (256 : Nat) = 2 ^ 8 from rfl, ← pow_mul] at hlt
  have htake : bytes.take w = bytes := List.take_of_length_le (Nat.le_of_eq h)
  rw [readWord, List.drop_zero, htake, word, BitVec.toNat_ofNat, Nat.mod_eq_of_lt hlt, ← h,
    toBytes_ofBytes]

/-- A string of 16-bit units. -/
def units (s : List (BitVec 16)) : List (BitVec 8) := s.flatMap (@word 2)

def readUnits : List (BitVec 8) → List (BitVec 16)
  | a :: b :: bytes => readWord 2 0 [a, b] :: readUnits bytes
  | _ => []

@[simp] theorem length_units (s : List (BitVec 16)) : (units s).length = 2 * s.length := by
  induction s with
  | nil => rfl
  | cons c s ih =>
    rw [units, List.flatMap_cons, List.length_append, length_word, ← units, ih, List.length_cons]
    omega

theorem readUnits_units (s : List (BitVec 16)) : readUnits (units s) = s := by
  induction s with
  | nil => rfl
  | cons c s ih =>
    obtain ⟨a, b, hw⟩ : ∃ a b, @word 2 c = [a, b] := ⟨_, _, rfl⟩
    have hread : readWord 2 0 [a, b] = c := by
      have h := @readWord_word 2 c []
      rwa [List.append_nil, hw] at h
    rw [units, List.flatMap_cons, hw]
    change readWord 2 0 [a, b] :: readUnits (units s) = c :: s
    rw [hread, ih]

theorem length_readUnits_le (bytes : List (BitVec 8)) :
    2 * (readUnits bytes).length ≤ bytes.length := by
  induction bytes using readUnits.induct with
  | case1 a b bytes ih =>
    simp only [readUnits, List.length_cons]
    omega
  | case2 bytes h => simp [readUnits]

theorem units_readUnits (bytes : List (BitVec 8)) (h : bytes.length % 2 = 0) :
    units (readUnits bytes) = bytes := by
  induction bytes using readUnits.induct with
  | case1 a b bytes ih =>
    have htail : bytes.length % 2 = 0 := by
      simp only [List.length_cons] at h
      omega
    have hpair : @word 2 (readWord 2 0 [a, b]) = [a, b] := word_readWord rfl
    rw [readUnits, units, List.flatMap_cons, hpair, ← units, ih htail]
    rfl
  | case2 bytes hshort =>
    match bytes, h with
    | [], _ => rfl
    | [_], h => simp at h
    | a :: b :: bytes, _ => exact absurd rfl (hshort a b bytes)

section Records

variable {α : Type*} {f : α → List (BitVec 8)} {size : Nat}

theorem length_records (h : ∀ a, (f a).length = size) (l : List α) :
    (l.flatMap f).length = l.length * size := by
  induction l with
  | nil => simp
  | cons a l ih => rw [List.flatMap_cons, List.length_append, h, ih, List.length_cons, Nat.succ_mul,
      Nat.add_comm]

/-- Records of one size start at the multiples of it. -/
theorem drop_records (h : ∀ a, (f a).length = size) (l : List α) (i : Nat) :
    (l.flatMap f).drop (i * size) = (l.drop i).flatMap f := by
  induction l generalizing i with
  | nil => simp
  | cons a l ih =>
    cases i with
    | zero => simp
    | succ i =>
      have hskip : (i + 1) * size = (f a).length + i * size := by rw [h, Nat.succ_mul, Nat.add_comm]
      rw [List.flatMap_cons, hskip, List.drop_length_add_append, ih, List.drop_succ_cons]

end Records

end LittleEndian

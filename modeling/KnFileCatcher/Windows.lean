import Mathlib.Tactic

/-! Types and status codes of the kernel interfaces the driver uses. -/

namespace KnFileCatcher

abbrev Byte := BitVec 8
abbrev Wchar := BitVec 16
abbrev Handle := BitVec 64
abbrev Ulong := BitVec 32
abbrev Ulonglong := BitVec 64
abbrev NtStatus := BitVec 32

/-- `NT_SUCCESS`: the severity bit is clear. -/
def ntSuccess (s : NtStatus) : Bool := !s.msb

def statusSuccess : NtStatus := 0x00000000
def statusTimeout : NtStatus := 0x00000102
def statusReparse : NtStatus := 0x00000104
def statusInvalidParameter : NtStatus := 0xC000000D
def statusPortDisconnected : NtStatus := 0xC0000037
def statusQuotaExceeded : NtStatus := 0xC0000044
def statusInsufficientResources : NtStatus := 0xC000009A
def statusDeviceNotReady : NtStatus := 0xC00000A3
def statusNameTooLong : NtStatus := 0xC0000106

/-- A counted string. `Length` is a USHORT number of bytes, two for each unit;
a null pointer, a null buffer and a zero length are all the empty string. -/
structure UnicodeString where
  buffer : List Wchar
  fits : 2 * buffer.length < 65536
deriving DecidableEq

namespace UnicodeString

def length (s : UnicodeString) : Nat := 2 * s.buffer.length

theorem length_lt (s : UnicodeString) : s.length < 65536 := s.fits

theorem length_eq_zero_iff {s : UnicodeString} : s.length = 0 ↔ s.buffer = [] := by
  rw [length, ← List.length_eq_zero_iff]
  omega

def empty : UnicodeString := ⟨[], by decide⟩

theorem length_concat_le {table : List UnicodeString} {most : Nat} (h : ¬ most ≤ table.length)
    (s : UnicodeString) : (table ++ [s]).length ≤ most := by
  simp only [List.length_append, List.length_singleton]
  omega

theorem sized_concat {table : List UnicodeString} {most : Nat}
    (h : ∀ r ∈ table, r.buffer ≠ [] ∧ r.buffer.length ≤ most) {s : UnicodeString}
    (hne : s.length ≠ 0) (hlen : ¬ most * 2 < s.length) :
    ∀ r ∈ table ++ [s], r.buffer ≠ [] ∧ r.buffer.length ≤ most := by
  intro r hr
  rcases List.mem_append.mp hr with hr | hr
  · exact h r hr
  · obtain rfl := List.mem_singleton.mp hr
    simp only [length] at hlen
    exact ⟨length_eq_zero_iff.not.mp hne, by omega⟩

end UnicodeString

def wchar (c : Char) : Wchar := BitVec.ofNat 16 c.toNat

def backslash : Wchar := wchar '\\'
def dot : Wchar := wchar '.'

def UnicodeString.inRoot (c : Char) : UnicodeString := ⟨[backslash, wchar c], by simp⟩

/-- `RtlEqualUnicodeString` with `CaseInSensitive`, for the upcase table `up`. -/
def rtlEqualUnicodeString (up : Wchar → Wchar) (a b : List Wchar) : Bool :=
  decide (a.map up = b.map up)

/-- An upcase table of the unaccented letters alone. -/
def asciiUp (c : Wchar) : Wchar := if 97 ≤ c.toNat ∧ c.toNat ≤ 122 then c - 32 else c

def rtlPrefixUnicodeString (up : Wchar → Wchar) (pre s : List Wchar) : Bool :=
  decide (pre.length ≤ s.length) && rtlEqualUnicodeString up (s.take pre.length) pre

end KnFileCatcher

import Mathlib.Algebra.BigOperators.Group.List.Basic
import Mathlib.Algebra.GroupWithZero.Nat
import Mathlib.Logic.Basic
import Mathlib.Tactic.Common

/-!
# The proto3 wire format

The encoders of the field kinds that a proto3 serializer writes, and the number
of bytes that each takes.  A field that holds its default value takes no bytes.
Field numbers are below 16, so that a tag is one byte.

`stringSize` and its lemmas are what the bounds on the size of a message use.
-/

namespace Data.Proto3

/-- The base 128 digits of `n`, least significant first, with the continuation
bit on all but the last.  A value of 64 bits has at most ten. -/
def varintLoop : (fuel : Nat) → Nat → List UInt8
  | 0, _ => []
  | fuel + 1, n =>
    if n < 128 then [UInt8.ofNat n]
    else UInt8.ofNat (n % 128 + 128) :: varintLoop fuel (n / 128)

def varint (n : Nat) : List UInt8 := varintLoop 10 n

/-- The number of bytes of `varint n`. -/
def varintSizeLoop : (fuel : Nat) → Nat → Nat
  | 0, _ => 0
  | fuel + 1, n => if n < 128 then 1 else varintSizeLoop fuel (n / 128) + 1

def varintSize (n : Nat) : Nat := varintSizeLoop 10 n

theorem length_varintLoop (fuel n : Nat) :
    (varintLoop fuel n).length = varintSizeLoop fuel n := by
  induction fuel generalizing n with
  | zero => rfl
  | succ fuel ih =>
    rw [varintLoop, varintSizeLoop]
    split
    · rfl
    · rw [List.length_cons, ih]

@[simp] theorem length_varint (n : Nat) : (varint n).length = varintSize n :=
  length_varintLoop 10 n

theorem varintSizeLoop_mono (fuel : Nat) {n n' : Nat} (h : n ≤ n') :
    varintSizeLoop fuel n ≤ varintSizeLoop fuel n' := by
  induction fuel generalizing n n' with
  | zero => exact Nat.le_refl _
  | succ fuel ih =>
    rw [varintSizeLoop, varintSizeLoop]
    have := ih (Nat.div_le_div_right (c := 128) h)
    split_ifs <;> omega

/-- A greater value takes no fewer bytes. -/
theorem varintSize_mono {n n' : Nat} (h : n ≤ n') : varintSize n ≤ varintSize n' :=
  varintSizeLoop_mono 10 h

/-! ## Fields -/

/-- The tag of a field with wire type `VARINT`. -/
def varintTag (field : Nat) : UInt8 := UInt8.ofNat (8 * field)

/-- The tag of a field with wire type `LEN`. -/
def lenTag (field : Nat) : UInt8 := UInt8.ofNat (8 * field + 2)

/-- A singular field of an unsigned value. -/
def varintField (field n : Nat) : List UInt8 :=
  if n = 0 then [] else varintTag field :: varint n

def varintFieldSize (n : Nat) : Nat := if n = 0 then 0 else 1 + varintSize n

/-- The UTF-8 bytes of a string. -/
def utf8 (s : String) : List UInt8 := s.toUTF8.data.toList

/-- A record with wire type `LEN`: the tag, the length and the bytes. -/
def lenRecord (field : Nat) (bs : List UInt8) : List UInt8 :=
  lenTag field :: varint bs.length ++ bs

def lenRecordSize (len : Nat) : Nat := 1 + varintSize len + len

/-- A singular string field. -/
def stringField (field : Nat) (s : String) : List UInt8 :=
  if s = "" then [] else lenRecord field (utf8 s)

/-- The number of bytes of a singular string field. -/
def stringSize (s : String) : Nat := if s = "" then 0 else lenRecordSize s.utf8ByteSize

/-- A repeated string field: one record for each element, the empty ones
included. -/
def repeatedString (field : Nat) (ss : List String) : List UInt8 :=
  ss.flatMap fun s => lenRecord field (utf8 s)

def repeatedStringSize (ss : List String) : Nat :=
  (ss.map fun s => lenRecordSize s.utf8ByteSize).sum

/-- A repeated field of unsigned values, packed. -/
def packedField (field : Nat) (ns : List Nat) : List UInt8 :=
  if ns = [] then [] else lenRecord field (ns.flatMap varint)

def packedSize (ns : List Nat) : Nat :=
  if ns = [] then 0 else lenRecordSize (ns.map varintSize).sum

/-- The length prefix of a record whose size is near a bound between `2 ^ 21` and
`2 ^ 28` takes four bytes. -/
theorem lenRecordSize_le_iff {len bound : Nat} (hlow : 2 ^ 21 + 5 ≤ bound)
    (hhigh : bound < 2 ^ 28) : lenRecordSize len ≤ bound ↔ len + 5 ≤ bound := by
  have hupper : varintSize (2 ^ 28 - 1) = 4 := rfl
  have hlower : varintSize (2 ^ 21) = 4 := rfl
  unfold lenRecordSize
  by_cases hlen : len < 2 ^ 28
  · have hle : varintSize len ≤ 4 := by
      rw [← hupper]
      exact varintSize_mono (by omega)
    by_cases hsmall : len < 2 ^ 21
    · omega
    · have hge : 4 ≤ varintSize len := by
        rw [← hlower]
        exact varintSize_mono (by omega)
      omega
  · omega

theorem repeatedStringSize_perm {ss ss' : List String} (h : ss.Perm ss') :
    repeatedStringSize ss = repeatedStringSize ss' := (h.map _).sum_eq

theorem packedSize_perm {ns ns' : List Nat} (h : ns.Perm ns') : packedSize ns = packedSize ns' := by
  have hnil : ns = [] ↔ ns' = [] := by
    rw [← List.length_eq_zero_iff, ← List.length_eq_zero_iff, h.length_eq]
  simp only [packedSize, hnil, (h.map varintSize).sum_eq]

theorem length_utf8 (s : String) : (utf8 s).length = s.utf8ByteSize := rfl

@[simp] theorem length_varintField (field n : Nat) :
    (varintField field n).length = varintFieldSize n := by
  rw [varintField, varintFieldSize]
  split
  · rfl
  · rw [List.length_cons, length_varint, Nat.add_comm]

@[simp] theorem length_lenRecord (field : Nat) (bs : List UInt8) :
    (lenRecord field bs).length = lenRecordSize bs.length := by
  simp only [lenRecord, lenRecordSize, List.cons_append, List.length_cons, List.length_append,
    length_varint]
  omega

@[simp] theorem length_stringField (field : Nat) (s : String) :
    (stringField field s).length = stringSize s := by
  rw [stringField, stringSize]
  split
  · rfl
  · rw [length_lenRecord, length_utf8]

@[simp] theorem length_repeatedString (field : Nat) (ss : List String) :
    (repeatedString field ss).length = repeatedStringSize ss := by
  rw [repeatedString, repeatedStringSize, List.length_flatMap]
  congr 1
  refine List.map_congr_left fun s _ => ?_
  rw [length_lenRecord, length_utf8]

@[simp] theorem length_packedField (field : Nat) (ns : List Nat) :
    (packedField field ns).length = packedSize ns := by
  rw [packedField, packedSize]
  split
  · rfl
  · rw [length_lenRecord, List.length_flatMap]
    simp only [length_varint]

end Data.Proto3

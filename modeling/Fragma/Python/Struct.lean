import Mathlib
import Fragma.Python.Search

/-!
# Packed integers

The standard formats of `struct`: unsigned integers of one, two, four or eight bytes, in one byte order
and without padding.  Packing and unpacking undo each other, so what `unpack_from` reads at a place is
exactly what stands packed there.

* `numberOf`, `bytesOf`: the integer of some bytes, and the bytes of an integer.
* `pack`, `unpackFields`: several integers, one after another.
* `unpackFrom_eq_some_iff`: what `struct.unpack_from` reads, and when it reads.
-/

namespace Fragma
namespace Python
namespace Struct

open Search

abbrev Bytes := List UInt8

/-- Bytes are compared element by element. -/
instance lawfulBEq_bytes : LawfulBEq Bytes := inferInstance

/-- The characters of a format. -/
inductive Code where
  | b | h | i | q
  deriving DecidableEq

/-- The bytes that a character takes. -/
def Code.width : Code → ℕ
  | .b => 1
  | .h => 2
  | .i => 4
  | .q => 8

/-- `struct.calcsize`. -/
def calcsize : List Code → ℕ
  | [] => 0
  | code :: codes => code.width + calcsize codes

/-- The integer of some bytes. -/
def numberOf (little : Bool) (bs : Bytes) : ℕ :=
  Nat.ofDigits 256 ((if little then bs else bs.reverse).map UInt8.toNat)

/-- The bytes of an integer. -/
def bytesOf (little : Bool) (width n : ℕ) : Bytes :=
  let bs := (Nat.digitsAppend 256 width n).map UInt8.ofNat
  if little then bs else bs.reverse

variable {little : Bool} {bs data : Bytes} {width n offset : ℕ} {codes : List Code} {values : List ℕ}

/-- The integers of a format at the start of some bytes. -/
def unpackFields (little : Bool) : List Code → Bytes → List ℕ
  | [], _ => []
  | code :: codes, bs =>
    numberOf little (bs.take code.width) :: unpackFields little codes (bs.drop code.width)

/-- `struct.pack`. -/
def pack (little : Bool) : List Code → List ℕ → Bytes
  | code :: codes, n :: values => bytesOf little code.width n ++ pack little codes values
  | _, _ => []

/-- `struct.unpack_from(format, data, offset)`; `none` where the buffer is too short. -/
def unpackFrom (little : Bool) (codes : List Code) (data : Bytes) (offset : ℕ) : Option (List ℕ) :=
  if offset + calcsize codes ≤ data.length then some (unpackFields little codes (data.drop offset))
  else none

/-- `struct.unpack(format, data)`; `none` where the buffer has another size. -/
def unpack (little : Bool) (codes : List Code) (data : Bytes) : Option (List ℕ) :=
  if data.length = calcsize codes then some (unpackFields little codes data) else none

/-- The integers fit the format. -/
def Fits (codes : List Code) (values : List ℕ) : Prop :=
  List.Forall₂ (fun code n => n < 256 ^ code.width) codes values

/-! ## One integer -/

theorem digit_lt (bs : Bytes) : ∀ d ∈ bs.map UInt8.toNat, d < 256 := by
  intro d hd
  obtain ⟨b, -, rfl⟩ := List.mem_map.mp hd
  exact b.toNat_lt

theorem numberOf_lt : numberOf little bs < 256 ^ bs.length := by
  have h := Nat.ofDigits_lt_base_pow_length (by decide : 1 < 256)
    (digit_lt (if little then bs else bs.reverse))
  cases little with
  | false => simpa [numberOf] using h
  | true => simpa [numberOf] using h

@[simp] theorem length_bytesOf (h : n < 256 ^ width) : (bytesOf little width n).length = width := by
  have hlen := Nat.length_digitsAppend (by decide : 1 < 256) width h
  cases little with
  | false => simp [bytesOf, hlen]
  | true => simp [bytesOf, hlen]

/-- The digits of an integer are bytes. -/
theorem map_toNat_ofNat : ((Nat.digitsAppend 256 width n).map UInt8.ofNat).map UInt8.toNat =
    Nat.digitsAppend 256 width n := by
  rw [List.map_map]
  refine (List.map_congr_left fun d hd => ?_).trans (List.map_id' _)
  have hlt := Nat.lt_of_mem_digitsAppend (by decide : 1 < 256) width d hd
  rw [Function.comp_apply, UInt8.toNat_ofNat', Nat.mod_eq_of_lt hlt]

theorem numberOf_bytesOf (h : n < 256 ^ width) : numberOf little (bytesOf little width n) = n := by
  have hinv := (Nat.setInvOn_digitsAppend_ofDigits (by decide : 1 < 256) width).2 h
  rw [numberOf, bytesOf]
  cases little with
  | false =>
    simp only [Bool.false_eq_true, if_false, List.reverse_reverse]
    rw [map_toNat_ofNat, hinv]
  | true =>
    simp only [if_true]
    rw [map_toNat_ofNat, hinv]

theorem bytesOf_numberOf : bytesOf little bs.length (numberOf little bs) = bs := by
  have hinv : ∀ cs : Bytes, cs.length = bs.length →
      (Nat.digitsAppend 256 bs.length (Nat.ofDigits 256 (cs.map UInt8.toNat))).map UInt8.ofNat = cs := by
    intro cs hlen
    rw [(Nat.setInvOn_digitsAppend_ofDigits (by decide : 1 < 256) bs.length).1
      ⟨by rw [List.length_map, hlen], digit_lt cs⟩, List.map_map]
    exact (List.map_congr_left fun b _ => UInt8.ofNat_toNat).trans (List.map_id' _)
  rw [numberOf, bytesOf]
  cases little with
  | false =>
    simp only [Bool.false_eq_true, if_false]
    rw [hinv bs.reverse List.length_reverse, List.reverse_reverse]
  | true =>
    simp only [if_true]
    rw [hinv bs rfl]

/-! ## Several integers -/

theorem Fits.length_eq (h : Fits codes values) : codes.length = values.length := List.Forall₂.length_eq h

theorem length_unpackFields : (unpackFields little codes bs).length = codes.length := by
  induction codes generalizing bs with
  | nil => rfl
  | cons code codes ih => rw [unpackFields, List.length_cons, ih, List.length_cons]

theorem length_pack (h : Fits codes values) : (pack little codes values).length = calcsize codes := by
  induction h with
  | nil => rfl
  | cons hn _ ih => rw [pack, List.length_append, length_bytesOf hn, ih, calcsize]

theorem fits_unpackFields (h : calcsize codes ≤ bs.length) : Fits codes (unpackFields little codes bs) := by
  induction codes generalizing bs with
  | nil => exact .nil
  | cons code codes ih =>
    rw [calcsize] at h
    refine .cons ?_ (ih (by rw [List.length_drop]; omega))
    have hlen : (bs.take code.width).length = code.width := by
      rw [List.length_take]
      omega
    have hlt : numberOf little (bs.take code.width) < 256 ^ (bs.take code.width).length := numberOf_lt
    rwa [hlen] at hlt

/-- What is unpacked stands packed at the start. -/
theorem pack_unpackFields (h : calcsize codes ≤ bs.length) :
    pack little codes (unpackFields little codes bs) = bs.take (calcsize codes) := by
  induction codes generalizing bs with
  | nil => simp [pack, calcsize]
  | cons code codes ih =>
    rw [calcsize] at h
    have hlen : (bs.take code.width).length = code.width := by
      rw [List.length_take]
      omega
    have hhead : bytesOf little code.width (numberOf little (bs.take code.width)) =
        bs.take code.width := by
      have h : bytesOf little (bs.take code.width).length (numberOf little (bs.take code.width)) =
        bs.take code.width := bytesOf_numberOf
      rwa [hlen] at h
    rw [unpackFields, pack, hhead, ih (by rw [List.length_drop]; omega), calcsize, ← List.take_add]

/-- What stands packed at the start is unpacked. -/
theorem unpackFields_pack (h : Fits codes values) (rest : Bytes) :
    unpackFields little codes (pack little codes values ++ rest) = values := by
  induction h with
  | nil => rfl
  | cons hn _ ih =>
    have hlen := @length_bytesOf little _ _ hn
    rw [pack, unpackFields, List.append_assoc, List.take_left' hlen, List.drop_left' hlen,
      numberOf_bytesOf hn, ih]

/-- **`unpack_from` reads what stands packed at the place.** -/
theorem unpackFrom_eq_some_iff : unpackFrom little codes data offset = some values ↔
    Fits codes values ∧ OccursAt (pack little codes values) data offset := by
  rw [unpackFrom]
  constructor
  · intro h
    split_ifs at h with hsize
    have hdrop : calcsize codes ≤ (data.drop offset).length := by
      rw [List.length_drop]
      omega
    rw [← Option.some.inj h]
    refine ⟨fits_unpackFields hdrop, by omega, ?_⟩
    rw [pack_unpackFields hdrop]
    exact List.take_prefix _ _
  · rintro ⟨hfits, hocc⟩
    have hsize := hocc.length_le
    rw [length_pack hfits] at hsize
    obtain ⟨-, rest, hrest⟩ := hocc
    rw [if_pos hsize, ← hrest, unpackFields_pack hfits]

theorem exists_unpackFrom (h : offset + calcsize codes ≤ data.length) :
    ∃ values, unpackFrom little codes data offset = some values := ⟨_, if_pos h⟩

theorem length_of_unpackFrom (h : unpackFrom little codes data offset = some values) :
    values.length = codes.length :=
  (unpackFrom_eq_some_iff.mp h).1.length_eq.symm

theorem unpack_eq_some_iff : unpack little codes data = some values ↔
    Fits codes values ∧ data = pack little codes values := by
  rw [unpack]
  constructor
  · intro h
    split_ifs at h with hsize
    rw [← Option.some.inj h]
    refine ⟨fits_unpackFields hsize.ge, ?_⟩
    rw [pack_unpackFields hsize.ge, ← hsize, List.take_length]
  · rintro ⟨hfits, rfl⟩
    have hread : unpackFields little codes (pack little codes values ++ []) = values :=
      unpackFields_pack hfits []
    rw [List.append_nil] at hread
    rw [if_pos (length_pack hfits), hread]

theorem exists_unpack (h : data.length = calcsize codes) :
    ∃ values, unpack little codes data = some values := ⟨_, if_pos h⟩

end Struct
end Python
end Fragma

import TensorGraph.Wire.Varint

/-! # Variable-length numbers that are read back

The shortest form of a number is read back as the number, by every reader that admits so many bytes
and whose last byte may be large enough. The readers for 32 and for 64 bits are cases of this, as is
a string of many numbers. -/

namespace TensorGraph.Wire.Varint

theorem toNat_byte {n : Nat} (h : n < 256) : (UInt8.ofNat n).toNat = n :=
  UInt8.toNat_ofNat_of_lt' h

/-- The first number for which `extra` bytes of seven bits and a last one up to `top` have no
room. -/
def room (top : UInt8) : Nat → Nat
  | 0 => top.toNat + 1
  | extra + 1 => 128 * room top extra

/-- A reader `read` that has room for a number reads back what `write` writes, whatever comes after
it. -/
theorem read_write {top : UInt8} (htop : top.toNat < 128) {extra count n : Nat}
    (hcount : extra ≤ count) (hn : n < room top extra) (rest : Bytes) :
    read top extra (write count n ++ rest) = some (n, rest) := by
  induction extra generalizing count n with
  | zero =>
    have hle : n ≤ top.toNat := Nat.le_of_lt_succ hn
    have hbyte : (UInt8.ofNat n).toNat = n := toNat_byte (by omega)
    have hshort : write count n = [UInt8.ofNat n] := by
      cases count with
      | zero => rfl
      | succ count => rw [write, if_pos (by omega)]
    rw [hshort, List.singleton_append, read, if_pos (UInt8.le_iff_toNat_le.2 (by omega)), hbyte]
  | succ extra ih =>
    obtain ⟨count, rfl⟩ : ∃ k, count = k + 1 := ⟨count - 1, by omega⟩
    rw [write]
    split
    · next hsmall =>
      have hbyte : (UInt8.ofNat n).toNat = n := toNat_byte (by omega)
      rw [List.singleton_append, read, if_pos (UInt8.lt_iff_toNat_lt.2 (by simpa [hbyte])), hbyte]
    · next hlarge =>
      have hbyte : (UInt8.ofNat (n % 128 + 128)).toNat = n % 128 + 128 := toNat_byte (by omega)
      have hrest : n / 128 < room top extra := Nat.div_lt_of_lt_mul hn
      have hmore : ¬ UInt8.ofNat (n % 128 + 128) < 128 := by
        rw [UInt8.lt_iff_toNat_lt, hbyte]
        simp
      rw [List.cons_append, read, if_neg hmore, ih (by omega) hrest, hbyte]
      simp only [Option.some.injEq, Prod.mk.injEq, and_true]
      omega

theorem room_read64 : room 0x01 9 = Size.bound := by decide

theorem room_read32 : room 0x0f 4 = 0x100000000 := by decide

theorem read64_write64 {n : Nat} (h : n < Size.bound) (rest : Bytes) :
    read64 (write64 n ++ rest) = some (n, rest) :=
  read_write (by decide) (Nat.le_refl 9) (room_read64 ▸ h) rest

theorem read32_write64 {n : Nat} (h : n < 0x100000000) (rest : Bytes) :
    read32 (write64 n ++ rest) = some (n, rest) :=
  read_write (by decide) (by decide) (room_read32 ▸ h) rest

/-- Numbers that are written one after the other by `write64` are all read back by `readAll`. -/
theorem readAll_flatMap {numbers : List Nat} (h : ∀ n ∈ numbers, n < Size.bound) :
    readAll (numbers.flatMap write64) = some numbers := by
  induction numbers with
  | nil => rw [List.flatMap_nil, readAll]
  | cons n numbers ih =>
    rw [List.flatMap_cons]
    have hread := read64_write64 (h n List.mem_cons_self) (numbers.flatMap write64)
    generalize write64 n ++ numbers.flatMap write64 = bytes at hread
    cases bytes with
    | nil => cases hread
    | cons b bytes =>
      rw [readAll]
      split
      · next first rest hfirst =>
        rw [hread] at hfirst
        cases hfirst
        rw [ih fun m hm => h m (List.mem_cons_of_mem _ hm)]
        rfl
      · next hnone =>
        rw [hread] at hnone
        cases hnone

end TensorGraph.Wire.Varint

/-! # Little endian integers

Natural numbers as a fixed number of bytes, the least significant first, and taking a fixed number
of bytes from the front of a sequence.
-/

namespace TickMachine.Bytes

/-- The `width` lowest bytes of a number. -/
def ofNat : Nat → Nat → List UInt8
  | 0, _ => []
  | width + 1, n => .ofNat n :: ofNat width (n / 256)

/-- The number that bytes stand for. -/
def toNat : List UInt8 → Nat
  | [] => 0
  | b :: bs => b.toNat + 256 * toNat bs

@[simp] theorem ofNat_zero (n : Nat) : ofNat 0 n = [] := rfl

@[simp] theorem ofNat_succ (width n : Nat) :
    ofNat (width + 1) n = UInt8.ofNat n :: ofNat width (n / 256) := rfl

@[simp] theorem toNat_nil : toNat [] = 0 := rfl

@[simp] theorem toNat_cons (b : UInt8) (bs : List UInt8) :
    toNat (b :: bs) = b.toNat + 256 * toNat bs := rfl

@[simp] theorem length_ofNat (width n : Nat) : (ofNat width n).length = width := by
  induction width generalizing n with
  | zero => rfl
  | succ width ih => simp [ih]

theorem toNat_ofNat (width n : Nat) : toNat (ofNat width n) = n % Nat.pow 256 width := by
  induction width generalizing n with
  | zero => simp [Nat.mod_one]
  | succ width ih =>
    simp only [ofNat_succ, toNat_cons, ih, Nat.pow_eq, Nat.pow_succ', Nat.mod_mul]
    simp

theorem ofNat_toNat (bs : List UInt8) : ofNat bs.length (toNat bs) = bs := by
  induction bs with
  | nil => rfl
  | cons b bs ih =>
    have h := b.toNat_lt
    have hdiv : (b.toNat + 256 * toNat bs) / 256 = toNat bs := by omega
    have hbyte : UInt8.ofNat (b.toNat + 256 * toNat bs) = b := by
      apply UInt8.toNat_inj.mp
      simp only [UInt8.toNat_ofNat']
      omega
    rw [toNat_cons, List.length_cons, ofNat_succ, hdiv, hbyte, ih]

/-- Splits a sequence behind its first `n` elements, if it has as many. -/
def split? {α : Type} : Nat → List α → Option (List α × List α)
  | 0, xs => some ([], xs)
  | _ + 1, [] => none
  | n + 1, x :: xs => (split? n xs).map fun (front, rest) => (x :: front, rest)

theorem split?_eq_some_iff {α : Type} {n : Nat} {xs front rest : List α} :
    split? n xs = some (front, rest) ↔ xs = front ++ rest ∧ front.length = n := by
  induction n generalizing xs front with
  | zero =>
    simp only [split?, Option.some.injEq, Prod.mk.injEq, List.length_eq_zero_iff]
    constructor
    · rintro ⟨rfl, rfl⟩; simp
    · rintro ⟨rfl, rfl⟩; simp
  | succ n ih =>
    cases xs with
    | nil =>
      simp only [split?, reduceCtorEq, false_iff, not_and]
      intro h
      simp [(List.append_eq_nil_iff.mp h.symm).1]
    | cons x xs =>
      simp only [split?, Option.map_eq_some_iff, Prod.mk.injEq, Prod.exists]
      constructor
      · rintro ⟨ys, zs, h, rfl, rfl⟩
        obtain ⟨rfl, hlen⟩ := ih.mp h
        simp [hlen]
      · rintro ⟨h, hlen⟩
        cases front with
        | nil => simp at hlen
        | cons y ys =>
          simp only [List.cons_append, List.cons.injEq] at h
          obtain ⟨rfl, rfl⟩ := h
          exact ⟨ys, rest, ih.mpr ⟨rfl, by simpa using hlen⟩, rfl, rfl⟩

end TickMachine.Bytes

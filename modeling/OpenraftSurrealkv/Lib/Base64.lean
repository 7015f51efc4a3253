import Mathlib.Tactic

/-!
# Base64

The encoding of bytes by the standard alphabet, three bytes as four symbols, with
padding at the end.  A reader that takes four symbols at a time gets the bytes
back (`decode_encode`).
-/

namespace Base64

/-! ## Symbols -/

def alphabet : List Char :=
  "ABCDEFGHIJKLMNOPQRSTUVWXYZabcdefghijklmnopqrstuvwxyz0123456789+/".toList

/-- The padding. -/
def pad : Char := '='

/-- The symbol of six bits. -/
def symbol (n : Nat) : Char := alphabet.getD n pad

/-- The six bits of a symbol. -/
def sextet (c : Char) : Option Nat := alphabet.findIdx? (· == c)

theorem sextet_symbol {n : Nat} (h : n < 64) : sextet (symbol n) = some n := by
  have hall : ∀ n < 64, sextet (symbol n) = some n := by decide +kernel
  exact hall n h

theorem symbol_ne_pad {n : Nat} (h : n < 64) : symbol n ≠ pad := by
  have hall : ∀ n < 64, symbol n ≠ pad := by decide +kernel
  exact hall n h

/-! ## Bytes -/

/-- Three bytes become four symbols.  One or two bytes at the end are padded. -/
def encode : List UInt8 → List Char
  | [] => []
  | [a] => [symbol (a.toNat / 4), symbol (a.toNat % 4 * 16), pad, pad]
  | [a, b] =>
      [symbol (a.toNat / 4), symbol (a.toNat % 4 * 16 + b.toNat / 16),
        symbol (b.toNat % 16 * 4), pad]
  | a :: b :: c :: rest =>
      symbol (a.toNat / 4) :: symbol (a.toNat % 4 * 16 + b.toNat / 16) ::
        symbol (b.toNat % 16 * 4 + c.toNat / 64) :: symbol (c.toNat % 64) :: encode rest

/-- The bytes of four symbols in front, the last two of which may be padding, and then the rest. -/
def decode : List Char → Option (List UInt8)
  | [] => some []
  | w :: x :: y :: z :: rest => do
      let p ← sextet w
      let q ← sextet x
      let first := UInt8.ofNat (p * 4 + q / 16)
      if y = pad then pure [first]
      else do
        let r ← sextet y
        let second := UInt8.ofNat (q % 16 * 16 + r / 4)
        if z = pad then pure [first, second]
        else do
          let s ← sextet z
          let third := UInt8.ofNat (r % 4 * 64 + s)
          let bytes ← decode rest
          pure (first :: second :: third :: bytes)
  | _ => none

theorem ofNat_eq {a : UInt8} {n : Nat} (h : n = a.toNat) : UInt8.ofNat n = a := by
  rw [h, UInt8.ofNat_toNat]

theorem decode_encode : ∀ bytes : List UInt8, decode (encode bytes) = some bytes
  | [] => rfl
  | [a] => by
      have ha := a.toNat_lt
      have hfirst : UInt8.ofNat (a.toNat / 4 * 4 + a.toNat % 4 * 16 / 16) = a :=
        ofNat_eq (by omega)
      rw [encode, decode, sextet_symbol (by omega), sextet_symbol (by omega)]
      simp only [Option.bind_eq_bind, Option.bind_some, if_true, hfirst]
      rfl
  | [a, b] => by
      have ha := a.toNat_lt
      have hb := b.toNat_lt
      have hfirst : UInt8.ofNat (a.toNat / 4 * 4 + (a.toNat % 4 * 16 + b.toNat / 16) / 16) = a :=
        ofNat_eq (by omega)
      have hsecond : UInt8.ofNat ((a.toNat % 4 * 16 + b.toNat / 16) % 16 * 16 +
          b.toNat % 16 * 4 / 4) = b :=
        ofNat_eq (by omega)
      rw [encode, decode, sextet_symbol (by omega), sextet_symbol (by omega),
        sextet_symbol (by omega)]
      simp only [Option.bind_eq_bind, Option.bind_some, if_true,
        if_neg (symbol_ne_pad (show b.toNat % 16 * 4 < 64 by omega)), hfirst, hsecond]
      rfl
  | a :: b :: c :: rest => by
      have ha := a.toNat_lt
      have hb := b.toNat_lt
      have hc := c.toNat_lt
      have hfirst : UInt8.ofNat (a.toNat / 4 * 4 + (a.toNat % 4 * 16 + b.toNat / 16) / 16) = a :=
        ofNat_eq (by omega)
      have hsecond : UInt8.ofNat ((a.toNat % 4 * 16 + b.toNat / 16) % 16 * 16 +
          (b.toNat % 16 * 4 + c.toNat / 64) / 4) = b :=
        ofNat_eq (by omega)
      have hthird : UInt8.ofNat ((b.toNat % 16 * 4 + c.toNat / 64) % 4 * 64 + c.toNat % 64) = c :=
        ofNat_eq (by omega)
      rw [encode, decode, sextet_symbol (by omega), sextet_symbol (by omega),
        sextet_symbol (by omega), sextet_symbol (by omega), decode_encode rest]
      simp only [Option.bind_eq_bind, Option.bind_some,
        if_neg (symbol_ne_pad (show b.toNat % 16 * 4 + c.toNat / 64 < 64 by omega)),
        if_neg (symbol_ne_pad (show c.toNat % 64 < 64 by omega)), hfirst, hsecond, hthird]
      rfl

example : String.ofList (encode [77, 97, 110, 115]) = "TWFucw==" := by decide

end Base64

import Mathlib.Data.List.Basic
import Mathlib.Tactic.Ring

/-!
# The postcard wire format

Postcard is positional and not self-describing.  An integer wider than a byte
is a LEB128 varint, a sequence or a string is its length as a varint followed by
its elements, an option is a byte `0` or `1` followed by the value, an
enumeration is the varint index of the variant followed by its fields, and a
struct is its fields in order.

A `Codec` is a writer, a reader that returns what it did not consume, and the
law that relates them.  The law asks that the encoding is shorter than `2 ^ 64`
bytes, because a length prefix is a 64-bit integer: no longer buffer exists in
the address space.  `toStdvec` fails on a longer one, so whatever it returns
reads back (`fromBytes_of_toStdvec`).

`fromBytes` ignores trailing bytes, as `postcard::from_bytes` does.

A reader also accepts varints with leading zeros, so a value can be read from
more bytes than it is written with, but never from fewer (`Tight`).
-/

/-- A byte string. -/
abbrev Bytes := List UInt8

namespace Postcard

/-- The errors of the format. -/
inductive Error where
  | serializeBufferFull
  | deserializeUnexpectedEnd
  | deserializeBadVarint
  | deserializeBadBool
  | deserializeBadUtf8
  | deserializeBadOption
  | serdeDeCustom
deriving DecidableEq, Repr

/-- The text an error is displayed with. -/
def Error.message : Error → String
  | .serializeBufferFull => "The serialize buffer is full"
  | .deserializeUnexpectedEnd => "Hit the end of buffer, expected more data"
  | .deserializeBadVarint =>
      "Found a varint that didn't terminate. Is the usize too big for this platform?"
  | .deserializeBadBool => "Found a bool that wasn't 0 or 1"
  | .deserializeBadUtf8 => "Tried to parse invalid utf-8"
  | .deserializeBadOption => "Found an Option discriminant that wasn't 0 or 1"
  | .serdeDeCustom => "Serde Deserialization Error"

/-- A writer and a reader of one type. -/
structure Codec (α : Type) where
  /-- The bytes of a value. -/
  encode : α → Bytes
  /-- Read one value and return the bytes after it. -/
  decode : Bytes → Except Error (α × Bytes)
  /-- No value is written as the empty string. -/
  encode_pos : ∀ a, 0 < (encode a).length
  /-- What was written reads back in front of any bytes. -/
  decode_encode : ∀ a rest, (encode a).length < 2 ^ 64 → decode (encode a ++ rest) = .ok (a, rest)

namespace Codec

variable {α β : Type}

/-- Serialize into a fresh buffer, which holds fewer than `2 ^ 63` bytes. -/
def toStdvec (c : Codec α) (a : α) : Except Error Bytes :=
  if (c.encode a).length < 2 ^ 63 then .ok (c.encode a) else .error .serializeBufferFull

/-- Deserialize the value at the front of a buffer. -/
def fromBytes (c : Codec α) (bytes : Bytes) : Except Error α :=
  match c.decode bytes with
  | .ok (a, _) => .ok a
  | .error e => .error e

theorem toStdvec_eq_ok_iff {c : Codec α} {a : α} {bytes : Bytes} :
    c.toStdvec a = .ok bytes ↔ (c.encode a).length < 2 ^ 63 ∧ c.encode a = bytes := by
  unfold toStdvec
  split
  next h =>
    constructor
    · intro he
      cases he
      exact ⟨h, rfl⟩
    · rintro ⟨-, rfl⟩
      rfl
  next h =>
    constructor
    · intro he; cases he
    · rintro ⟨hlt, -⟩; exact absurd hlt h

theorem fromBytes_encode (c : Codec α) {a : α} (h : (c.encode a).length < 2 ^ 64) :
    c.fromBytes (c.encode a) = .ok a := by
  have hd := c.decode_encode a [] h
  rw [List.append_nil] at hd
  rw [fromBytes, hd]

/-- Whatever was serialized reads back. -/
theorem fromBytes_of_toStdvec {c : Codec α} {a : α} {bytes : Bytes}
    (h : c.toStdvec a = .ok bytes) : c.fromBytes bytes = .ok a := by
  obtain ⟨hlt, rfl⟩ := toStdvec_eq_ok_iff.mp h
  exact c.fromBytes_encode (by omega)

/-! ## Bytes and varints -/

/-- One raw byte. -/
def u8 : Codec UInt8 where
  encode b := [b]
  decode
    | [] => .error .deserializeUnexpectedEnd
    | b :: rest => .ok (b, rest)
  encode_pos _ := Nat.one_pos
  decode_encode _ _ _ := rfl

/-- Write seven bits a byte, least significant first, in at most `fuel` bytes. -/
def putVarint : Nat → Nat → Bytes
  | 0, _ => []
  | fuel + 1, n =>
      if n < 128 then [UInt8.ofNat n]
      else UInt8.ofNat (n % 128 + 128) :: putVarint fuel (n / 128)

/-- Read seven bits a byte.  The last byte that `fuel` allows is at most `last`. -/
def takeVarint (last : Nat) : Nat → Bytes → Except Error (Nat × Bytes)
  | 0, _ => .error .deserializeBadVarint
  | _ + 1, [] => .error .deserializeUnexpectedEnd
  | fuel + 1, b :: rest =>
      if b.toNat < 128 then
        if fuel = 0 ∧ last < b.toNat then .error .deserializeBadVarint else .ok (b.toNat, rest)
      else
        match takeVarint last fuel rest with
        | .ok (n, rest') => .ok (b.toNat - 128 + 128 * n, rest')
        | .error e => .error e

theorem putVarint_pos (fuel n : Nat) : 0 < (putVarint (fuel + 1) n).length := by
  rw [putVarint]
  split
  · exact Nat.one_pos
  · exact Nat.succ_pos _

theorem length_putVarint_le : ∀ fuel n : Nat, (putVarint fuel n).length ≤ fuel
  | 0, _ => Nat.le_refl 0
  | fuel + 1, n => by
      rw [putVarint]
      split
      · exact Nat.succ_le_succ (Nat.zero_le fuel)
      · exact Nat.succ_le_succ (length_putVarint_le fuel (n / 128))

/-- A value below `128` is one byte, which the last position accepts up to `last`. -/
theorem takeVarint_single {last fuel n : Nat} (rest : Bytes) (h128 : n < 128)
    (hlast : fuel = 0 → n ≤ last) :
    takeVarint last (fuel + 1) (putVarint (fuel + 1) n ++ rest) = .ok (n, rest) := by
  have hbyte : (UInt8.ofNat n).toNat = n := by
    rw [UInt8.toNat_ofNat']
    omega
  have hle : ¬ (fuel = 0 ∧ last < n) := by
    rintro ⟨h0, hlt⟩
    have := hlast h0
    omega
  rw [putVarint, if_pos h128, List.cons_append, List.nil_append, takeVarint, hbyte,
    if_pos h128, if_neg hle]

theorem takeVarint_putVarint {last : Nat} (hlast : last < 128) :
    ∀ (fuel n : Nat) (rest : Bytes), n < 128 ^ fuel * (last + 1) →
      takeVarint last (fuel + 1) (putVarint (fuel + 1) n ++ rest) = .ok (n, rest)
  | 0, _, rest, hn => takeVarint_single rest (by omega) (by omega)
  | fuel + 1, n, rest, hn => by
      by_cases h128 : n < 128
      · exact takeVarint_single rest h128 (by omega)
      · have hbyte : (UInt8.ofNat (n % 128 + 128)).toNat = n % 128 + 128 := by
          rw [UInt8.toNat_ofNat']
          omega
        have hdiv : n / 128 < 128 ^ fuel * (last + 1) := by
          rw [Nat.div_lt_iff_lt_mul (by omega)]
          calc n < 128 ^ (fuel + 1) * (last + 1) := hn
            _ = 128 ^ fuel * (last + 1) * 128 := by ring
        have hge : ¬ n % 128 + 128 < 128 := by omega
        rw [putVarint, if_neg h128, List.cons_append, takeVarint, hbyte, if_neg hge,
          takeVarint_putVarint hlast fuel (n / 128) rest hdiv]
        have hsum : n % 128 + 128 - 128 + 128 * (n / 128) = n := by omega
        simp only [hsum]

/-- A varint of at most `fuel + 1` bytes for a type that embeds in the naturals. -/
def varint (fuel last : Nat) (toNat : α → Nat) (ofNat : Nat → α) (hlast : last < 128)
    (hlt : ∀ a, toNat a < 128 ^ fuel * (last + 1)) (hinv : ∀ a, ofNat (toNat a) = a) :
    Codec α where
  encode a := putVarint (fuel + 1) (toNat a)
  decode bytes :=
    match takeVarint last (fuel + 1) bytes with
    | .ok (n, rest) => .ok (ofNat n, rest)
    | .error e => .error e
  encode_pos a := putVarint_pos fuel (toNat a)
  decode_encode a rest _ := by
    simp only [takeVarint_putVarint hlast fuel (toNat a) rest (hlt a), hinv]

/-- `u16`: at most three bytes, the last at most `3`. -/
def u16 : Codec UInt16 :=
  varint 2 3 UInt16.toNat UInt16.ofNat (by omega) (fun a => a.toNat_lt) (fun _ => UInt16.ofNat_toNat)

/-- `u32`: at most five bytes, the last at most `15`. -/
def u32 : Codec UInt32 :=
  varint 4 15 UInt32.toNat UInt32.ofNat (by omega) (fun a => a.toNat_lt) (fun _ => UInt32.ofNat_toNat)

/-- `u64`: at most ten bytes, the last at most `1`. -/
def u64 : Codec UInt64 :=
  varint 9 1 UInt64.toNat UInt64.ofNat (by omega) (fun a => a.toNat_lt) (fun _ => UInt64.ofNat_toNat)

theorem length_u64_le (a : UInt64) : (u64.encode a).length ≤ 10 := length_putVarint_le 10 a.toNat

theorem decode_u64 (a : UInt64) (rest : Bytes) :
    u64.decode (u64.encode a ++ rest) = .ok (a, rest) := by
  have hlen := length_u64_le a
  exact u64.decode_encode a rest (by omega)

theorem decode_u64_eq_ok {a b : UInt64} {rest mid : Bytes}
    (h : u64.decode (u64.encode a ++ rest) = .ok (b, mid)) : a = b ∧ rest = mid := by
  rw [decode_u64, Except.ok.injEq, Prod.mk.injEq] at h
  exact h

/-- From two on, the first byte of a varint is neither zero nor one. -/
theorem exists_u64_encode {a : UInt64} (h : 2 ≤ a.toNat) :
    ∃ b rest, u64.encode a = b :: rest ∧ b ≠ 0 ∧ b ≠ 1 := by
  have hbyte : ∀ n : Nat, 2 ≤ n → n < 256 → UInt8.ofNat n ≠ 0 ∧ UInt8.ofNat n ≠ 1 := by
    intro n hlo hhi
    have hn : (UInt8.ofNat n).toNat = n := by
      rw [UInt8.toNat_ofNat']
      omega
    constructor
    · intro h0
      rw [h0] at hn
      have : (0 : UInt8).toNat = 0 := rfl
      omega
    · intro h1
      rw [h1] at hn
      have : (1 : UInt8).toNat = 1 := rfl
      omega
  show ∃ b rest, putVarint 10 a.toNat = b :: rest ∧ b ≠ 0 ∧ b ≠ 1
  rw [putVarint]
  split
  next hlt => exact ⟨_, _, rfl, hbyte a.toNat h (by omega)⟩
  next => exact ⟨_, _, rfl, hbyte _ (by omega) (by omega)⟩

/-! ## Structs, options and enumerations -/

theorem append_pos {x y : Bytes} (h : 0 < x.length) : 0 < (x ++ y).length := by
  rw [List.length_append]
  omega

/-- One field after another. -/
def pair (c : Codec α) (d : Codec β) : Codec (α × β) where
  encode p := c.encode p.1 ++ d.encode p.2
  decode bytes :=
    match c.decode bytes with
    | .error e => .error e
    | .ok (a, rest) =>
        match d.decode rest with
        | .error e => .error e
        | .ok (b, rest') => .ok ((a, b), rest')
  encode_pos p := append_pos (c.encode_pos p.1)
  decode_encode p rest h := by
    rw [List.length_append] at h
    rw [List.append_assoc, c.decode_encode p.1 _ (by omega)]
    simp only [d.decode_encode p.2 rest (by omega)]

/-- The codec of a struct, from the codec of its fields. -/
def iso (c : Codec α) (pack : α → β) (unpack : β → α) (h : ∀ b, pack (unpack b) = b) :
    Codec β where
  encode b := c.encode (unpack b)
  decode bytes :=
    match c.decode bytes with
    | .error e => .error e
    | .ok (a, rest) => .ok (pack a, rest)
  encode_pos b := c.encode_pos (unpack b)
  decode_encode b rest hlt := by simp only [c.decode_encode (unpack b) rest hlt, h]

section

variable {c : Codec α} {d : Codec β} {bytes rest : Bytes} {a : α} {e : Error}

theorem pair_decode_ok {b : β} {rest' : Bytes} (hc : c.decode bytes = .ok (a, rest))
    (hd : d.decode rest = .ok (b, rest')) :
    (c.pair d).decode bytes = .ok ((a, b), rest') := by
  simp only [pair, hc, hd]

theorem pair_decode_error_left (hc : c.decode bytes = .error e) :
    (c.pair d).decode bytes = .error e := by
  simp only [pair, hc]

theorem pair_decode_error_right (hc : c.decode bytes = .ok (a, rest))
    (hd : d.decode rest = .error e) : (c.pair d).decode bytes = .error e := by
  simp only [pair, hc, hd]

theorem iso_decode_ok {pack : α → β} {unpack : β → α} {h : ∀ b, pack (unpack b) = b}
    (hc : c.decode bytes = .ok (a, rest)) :
    (c.iso pack unpack h).decode bytes = .ok (pack a, rest) := by
  simp only [iso, hc]

theorem iso_decode_error {pack : α → β} {unpack : β → α} {h : ∀ b, pack (unpack b) = b}
    (hc : c.decode bytes = .error e) : (c.iso pack unpack h).decode bytes = .error e := by
  simp only [iso, hc]

/-- Two fields were read one after the other. -/
theorem pair_decode_eq_ok {p : α × β} (h : (c.pair d).decode bytes = .ok (p, rest)) :
    ∃ mid, c.decode bytes = .ok (p.1, mid) ∧ d.decode mid = .ok (p.2, rest) := by
  cases hc : c.decode bytes with
  | error e => simp [pair, hc] at h
  | ok x =>
      cases hd : d.decode x.2 with
      | error e => simp [pair, hc, hd] at h
      | ok y =>
          simp only [pair, hc, hd, Except.ok.injEq, Prod.mk.injEq] at h
          obtain ⟨rfl, rfl⟩ := h
          exact ⟨x.2, rfl, hd⟩

/-- The fields of a struct were read. -/
theorem iso_decode_eq_ok {pack : α → β} {unpack : β → α} {h : ∀ b, pack (unpack b) = b} {b : β}
    (hdec : (c.iso pack unpack h).decode bytes = .ok (b, rest)) :
    ∃ a, c.decode bytes = .ok (a, rest) ∧ pack a = b := by
  cases hc : c.decode bytes with
  | error e => simp [iso, hc] at hdec
  | ok x =>
      simp only [iso, hc, Except.ok.injEq, Prod.mk.injEq] at hdec
      obtain ⟨rfl, rfl⟩ := hdec
      exact ⟨x.1, rfl, rfl⟩

end

/-- A byte `0` or `1`. -/
def bool : Codec Bool where
  encode b := [if b then 1 else 0]
  decode
    | [] => .error .deserializeUnexpectedEnd
    | b :: rest =>
        if b = 0 then .ok (false, rest)
        else if b = 1 then .ok (true, rest)
        else .error .deserializeBadBool
  encode_pos _ := Nat.one_pos
  decode_encode b _ _ := by cases b <;> rfl

/-- A byte `0`, or a byte `1` and the value. -/
def option (c : Codec α) : Codec (Option α) where
  encode
    | none => [0]
    | some a => 1 :: c.encode a
  decode
    | [] => .error .deserializeUnexpectedEnd
    | b :: rest =>
        if b = 0 then .ok (none, rest)
        else if b = 1 then
          match c.decode rest with
          | .error e => .error e
          | .ok (a, rest') => .ok (some a, rest')
        else .error .deserializeBadOption
  encode_pos o := by cases o <;> exact Nat.succ_pos _
  decode_encode o rest h := by
    cases o with
    | none => rfl
    | some a =>
        rw [List.length_cons] at h
        have hd := c.decode_encode a rest (by omega)
        have h1 : ¬ (1 : UInt8) = 0 := by decide
        simp only [List.cons_append, if_neg h1, hd, if_true]

/-- Only `0` and `1` start an option. -/
theorem option_decode_bad {c : Codec α} {b : UInt8} (h0 : b ≠ 0) (h1 : b ≠ 1) (rest : Bytes) :
    (option c).decode (b :: rest) = .error .deserializeBadOption := by
  simp only [option, if_neg h0, if_neg h1]

/-- After a `1` comes the value. -/
theorem option_decode_one {c : Codec α} {bytes rest : Bytes} {o : Option α}
    (h : (option c).decode (1 :: bytes) = .ok (o, rest)) :
    ∃ a, o = some a ∧ c.decode bytes = .ok (a, rest) := by
  have h1 : ¬ (1 : UInt8) = 0 := by decide
  cases hc : c.decode bytes with
  | error e => simp [option, hc] at h
  | ok x =>
      simp only [option, if_neg h1, hc, if_true, Except.ok.injEq, Prod.mk.injEq] at h
      obtain ⟨rfl, rfl⟩ := h
      exact ⟨x.1, rfl, rfl⟩

/-- An enumeration of two variants, numbered `0` and `1`. -/
def either (c : Codec α) (d : Codec β) : Codec (α ⊕ β) where
  encode
    | .inl a => u32.encode 0 ++ c.encode a
    | .inr b => u32.encode 1 ++ d.encode b
  decode bytes :=
    match u32.decode bytes with
    | .error e => .error e
    | .ok (tag, rest) =>
        if tag = 0 then
          match c.decode rest with
          | .error e => .error e
          | .ok (a, rest') => .ok (.inl a, rest')
        else if tag = 1 then
          match d.decode rest with
          | .error e => .error e
          | .ok (b, rest') => .ok (.inr b, rest')
        else .error .serdeDeCustom
  encode_pos x := by
    cases x with
    | inl a => exact append_pos (u32.encode_pos 0)
    | inr b => exact append_pos (u32.encode_pos 1)
  decode_encode x rest h := by
    cases x with
    | inl a =>
        rw [List.length_append] at h
        rw [List.append_assoc, u32.decode_encode 0 _ (by omega)]
        simp only [if_true, c.decode_encode a rest (by omega)]
    | inr b =>
        rw [List.length_append] at h
        have h1 : ¬ (1 : UInt32) = 0 := by decide
        rw [List.append_assoc, u32.decode_encode 1 _ (by omega)]
        simp only [if_neg h1, if_true, d.decode_encode b rest (by omega)]

/-- The second variant is read by its own codec. -/
theorem either_decode_inr {c : Codec α} {d : Codec β} {bytes rest : Bytes} {b : β}
    (hd : d.decode bytes = .ok (b, rest)) :
    (c.either d).decode (u32.encode 1 ++ bytes) = .ok (.inr b, rest) := by
  have h1 : ¬ (1 : UInt32) = 0 := by decide
  have htag : u32.decode (u32.encode 1 ++ bytes) = .ok (1, bytes) :=
    u32.decode_encode 1 bytes (by decide)
  simp only [either, htag, if_neg h1, if_true, hd]

/-! ## Sequences and strings -/

/-- Read `n` values one after another. -/
def takeN (c : Codec α) : Nat → Bytes → Except Error (List α × Bytes)
  | 0, bytes => .ok ([], bytes)
  | n + 1, bytes =>
      match c.decode bytes with
      | .error e => .error e
      | .ok (a, rest) =>
          match takeN c n rest with
          | .error e => .error e
          | .ok (as, rest') => .ok (a :: as, rest')

theorem takeN_flatMap (c : Codec α) :
    ∀ (l : List α) (rest : Bytes), (l.flatMap c.encode).length < 2 ^ 64 →
      takeN c l.length (l.flatMap c.encode ++ rest) = .ok (l, rest)
  | [], _, _ => rfl
  | a :: l, rest, h => by
      rw [List.flatMap_cons, List.length_append] at h
      rw [List.flatMap_cons, List.append_assoc, List.length_cons, takeN,
        c.decode_encode a _ (by omega)]
      simp only [takeN_flatMap c l rest (by omega)]

/-- Every element takes a byte, so a length that is written fits its prefix. -/
theorem length_le_flatMap (c : Codec α) : ∀ l : List α, l.length ≤ (l.flatMap c.encode).length
  | [] => Nat.le_refl 0
  | a :: l => by
      have ih := length_le_flatMap c l
      have hpos := c.encode_pos a
      rw [List.flatMap_cons, List.length_append, List.length_cons]
      omega

/-- A sequence: its length, then its elements. -/
def seq (c : Codec α) : Codec (List α) where
  encode l := u64.encode (UInt64.ofNat l.length) ++ l.flatMap c.encode
  decode bytes :=
    match u64.decode bytes with
    | .error e => .error e
    | .ok (n, rest) => takeN c n.toNat rest
  encode_pos l := append_pos (u64.encode_pos _)
  decode_encode l rest h := by
    rw [List.length_append] at h
    have hlen : (UInt64.ofNat l.length).toNat = l.length := by
      rw [UInt64.toNat_ofNat']
      have := length_le_flatMap c l
      omega
    rw [List.append_assoc, u64.decode_encode _ _ (by omega)]
    simp only [hlen]
    exact takeN_flatMap c l rest (by omega)

/-- A byte vector. -/
def bytes : Codec Bytes := seq u8

/-- The UTF-8 bytes of a string. -/
def utf8 (s : String) : Bytes := s.toByteArray.data.toList

/-- The string with the given UTF-8 bytes. -/
def fromUtf8 (b : Bytes) : Option String := String.fromUTF8? ⟨b.toArray⟩

theorem fromUtf8_utf8 (s : String) : fromUtf8 (utf8 s) = some s := by
  have hb : (⟨(utf8 s).toArray⟩ : ByteArray) = s.toByteArray := by
    rw [utf8, Array.toArray_toList]
  rw [fromUtf8, hb, String.fromUTF8?, dif_pos s.isValidUTF8]
  rfl

theorem utf8_injective : Function.Injective utf8 := by
  intro s t h
  have hs := fromUtf8_utf8 s
  rw [h, fromUtf8_utf8] at hs
  exact (Option.some.inj hs).symm

/-- A string that was read has the bytes it was read from. -/
theorem utf8_of_fromUtf8 {b : Bytes} {s : String} (h : fromUtf8 b = some s) : utf8 s = b := by
  unfold fromUtf8 String.fromUTF8? at h
  split at h
  next =>
    cases h
    rfl
  next => cases h

/-- A string: the length of its UTF-8 bytes, then the bytes. -/
def string : Codec String where
  encode s := u64.encode (UInt64.ofNat (utf8 s).length) ++ utf8 s
  decode bytes :=
    match u64.decode bytes with
    | .error e => .error e
    | .ok (n, rest) =>
        if rest.length < n.toNat then .error .deserializeUnexpectedEnd
        else
          match fromUtf8 (rest.take n.toNat) with
          | none => .error .deserializeBadUtf8
          | some s => .ok (s, rest.drop n.toNat)
  encode_pos s := append_pos (u64.encode_pos _)
  decode_encode s rest h := by
    rw [List.length_append] at h
    have hlen : (UInt64.ofNat (utf8 s).length).toNat = (utf8 s).length := by
      rw [UInt64.toNat_ofNat']
      omega
    have hnot : ¬ (utf8 s ++ rest).length < (utf8 s).length := by simp
    rw [List.append_assoc, u64.decode_encode _ _ (by omega)]
    simp only [hlen, if_neg hnot, List.take_left, List.drop_left, fromUtf8_utf8]

/-! ## Short values -/

/-- A value takes at most `k` bytes. -/
def Short (c : Codec α) (k : Nat) : Prop := ∀ a, (c.encode a).length ≤ k

theorem Short.toStdvec_eq {c : Codec α} {k : Nat} (h : c.Short k) (hk : k < 2 ^ 63) (a : α) :
    c.toStdvec a = .ok (c.encode a) := by
  have hlen := h a
  exact toStdvec_eq_ok_iff.mpr ⟨by omega, rfl⟩

theorem short_u64 : u64.Short 10 := length_u64_le

theorem short_bool : bool.Short 1 := fun _ => Nat.le_refl 1

theorem Short.pair {c : Codec α} {d : Codec β} {k l : Nat} (hc : c.Short k) (hd : d.Short l) :
    (c.pair d).Short (k + l) := by
  intro p
  show (c.encode p.1 ++ d.encode p.2).length ≤ k + l
  rw [List.length_append]
  exact Nat.add_le_add (hc p.1) (hd p.2)

theorem Short.iso {c : Codec α} {k : Nat} (hc : c.Short k) {pack : α → β} {unpack : β → α}
    {h : ∀ b, pack (unpack b) = b} : (c.iso pack unpack h).Short k :=
  fun b => hc (unpack b)

theorem Short.option {c : Codec α} {k : Nat} (hc : c.Short k) : c.option.Short (k + 1) := by
  intro o
  cases o with
  | none => exact Nat.succ_pos k
  | some a => exact Nat.succ_le_succ (hc a)

theorem length_string_le (s : String) : (string.encode s).length ≤ 10 + (utf8 s).length := by
  show (u64.encode (UInt64.ofNat (utf8 s).length) ++ utf8 s).length ≤ _
  have hlen := length_u64_le (UInt64.ofNat (utf8 s).length)
  rw [List.length_append]
  omega

/-! ## Writing again what was read -/

/-- A value takes no more bytes to write than it was read from. -/
def Tight (c : Codec α) : Prop :=
  ∀ bytes a rest, c.decode bytes = .ok (a, rest) →
    (c.encode a).length + rest.length ≤ bytes.length

/-- What was read from a buffer is serialized into one that is no longer. -/
theorem Tight.length_le {c : Codec α} (h : c.Tight) {bytes : Bytes} {a : α}
    (hread : c.fromBytes bytes = .ok a) : (c.encode a).length ≤ bytes.length := by
  unfold fromBytes at hread
  cases hdec : c.decode bytes with
  | error e => simp [hdec] at hread
  | ok x =>
      simp only [hdec, Except.ok.injEq] at hread
      subst hread
      have hle := h bytes x.1 x.2 hdec
      omega

theorem tight_u8 : u8.Tight := by
  intro bytes a rest h
  cases bytes with
  | nil => cases h
  | cons b bytes =>
      cases h
      exact (Nat.add_comm ..).le

/-- Reading a varint yields a number in its range, from at least the bytes it is written with. -/
theorem takeVarint_eq_ok {last : Nat} (hlast : last < 128) :
    ∀ {fuel : Nat} {bytes rest : Bytes} {n : Nat},
      takeVarint last (fuel + 1) bytes = .ok (n, rest) →
        n < 128 ^ fuel * (last + 1) ∧
          (putVarint (fuel + 1) n).length + rest.length ≤ bytes.length
  | _, [], _, _, h => by cases h
  | fuel, b :: bytes, rest, n, h => by
      rw [takeVarint] at h
      split at h
      next hb =>
        split at h
        next => cases h
        next hfuel =>
          cases h
          refine ⟨?_, ?_⟩
          · cases fuel with
            | zero => omega
            | succ fuel =>
                have hpos : 0 < 128 ^ fuel * (last + 1) :=
                  Nat.mul_pos (Nat.pow_pos (by omega)) (Nat.succ_pos last)
                calc b.toNat < 128 := hb
                  _ ≤ 128 * (128 ^ fuel * (last + 1)) := by omega
                  _ = 128 ^ (fuel + 1) * (last + 1) := by ring
          · rw [putVarint, if_pos hb, List.length_singleton, List.length_cons]
            omega
      next hb =>
        cases fuel with
        | zero => cases h
        | succ fuel =>
            cases htail : takeVarint last (fuel + 1) bytes with
            | error e => simp [htail] at h
            | ok x =>
                simp only [htail, Except.ok.injEq, Prod.mk.injEq] at h
                obtain ⟨rfl, rfl⟩ := h
                obtain ⟨hlt, hlen⟩ := takeVarint_eq_ok hlast htail
                have hbyte := b.toNat_lt
                refine ⟨?_, ?_⟩
                · calc b.toNat - 128 + 128 * x.1 < 128 * (128 ^ fuel * (last + 1)) := by omega
                    _ = 128 ^ (fuel + 1) * (last + 1) := by ring
                · rw [putVarint, List.length_cons]
                  split
                  next =>
                    rw [List.length_singleton]
                    omega
                  next =>
                    have hdiv : (b.toNat - 128 + 128 * x.1) / 128 = x.1 := by omega
                    rw [hdiv, List.length_cons]
                    omega

theorem tight_varint {fuel last : Nat} {toNat : α → Nat} {ofNat : Nat → α} {hlast : last < 128}
    {hlt : ∀ a, toNat a < 128 ^ fuel * (last + 1)} {hinv : ∀ a, ofNat (toNat a) = a}
    (hback : ∀ n < 128 ^ fuel * (last + 1), toNat (ofNat n) = n) :
    (varint fuel last toNat ofNat hlast hlt hinv).Tight := by
  intro bytes a rest h
  cases htake : takeVarint last (fuel + 1) bytes with
  | error e => simp [varint, htake] at h
  | ok x =>
      simp only [varint, htake, Except.ok.injEq, Prod.mk.injEq] at h
      obtain ⟨rfl, rfl⟩ := h
      obtain ⟨hn, hlen⟩ := takeVarint_eq_ok hlast htake
      show (putVarint (fuel + 1) (toNat (ofNat x.1))).length + x.2.length ≤ bytes.length
      rw [hback x.1 hn]
      exact hlen

theorem tight_u32 : u32.Tight := by
  refine tight_varint fun n hn => ?_
  rw [UInt32.toNat_ofNat']
  omega

theorem tight_u64 : u64.Tight := by
  refine tight_varint fun n hn => ?_
  rw [UInt64.toNat_ofNat']
  omega

theorem Tight.pair {c : Codec α} {d : Codec β} (hc : c.Tight) (hd : d.Tight) :
    (c.pair d).Tight := by
  intro bytes p rest h
  obtain ⟨mid, hfst, hsnd⟩ := pair_decode_eq_ok h
  have h₁ := hc _ _ _ hfst
  have h₂ := hd _ _ _ hsnd
  show (c.encode p.1 ++ d.encode p.2).length + rest.length ≤ bytes.length
  rw [List.length_append]
  omega

theorem Tight.iso {c : Codec α} (hc : c.Tight) {pack : α → β} {unpack : β → α}
    {h : ∀ b, pack (unpack b) = b} (hback : ∀ a, unpack (pack a) = a) :
    (c.iso pack unpack h).Tight := by
  intro bytes b rest hdec
  obtain ⟨a, ha, rfl⟩ := iso_decode_eq_ok hdec
  show (c.encode (unpack (pack a))).length + rest.length ≤ bytes.length
  rw [hback]
  exact hc _ _ _ ha

theorem Tight.either {c : Codec α} {d : Codec β} (hc : c.Tight) (hd : d.Tight) :
    (c.either d).Tight := by
  intro bytes x rest h
  cases htag : u32.decode bytes with
  | error e => simp [Codec.either, htag] at h
  | ok t =>
      rcases t with ⟨tag, mid⟩
      have h₀ := tight_u32 _ _ _ htag
      simp only [Codec.either, htag] at h
      split at h
      next hzero =>
        subst hzero
        cases hdec : c.decode mid with
        | error e => simp [hdec] at h
        | ok y =>
            simp only [hdec, Except.ok.injEq, Prod.mk.injEq] at h
            obtain ⟨rfl, rfl⟩ := h
            have h₁ := hc _ _ _ hdec
            show (u32.encode 0 ++ c.encode y.1).length + y.2.length ≤ bytes.length
            rw [List.length_append]
            omega
      next =>
        split at h
        next hone =>
          subst hone
          cases hdec : d.decode mid with
          | error e => simp [hdec] at h
          | ok y =>
              simp only [hdec, Except.ok.injEq, Prod.mk.injEq] at h
              obtain ⟨rfl, rfl⟩ := h
              have h₁ := hd _ _ _ hdec
              show (u32.encode 1 ++ d.encode y.1).length + y.2.length ≤ bytes.length
              rw [List.length_append]
              omega
        next => cases h

/-- A run of values takes no more bytes than it was read from. -/
theorem Tight.takeN {c : Codec α} (hc : c.Tight) :
    ∀ {n : Nat} {bytes rest : Bytes} {l : List α}, Codec.takeN c n bytes = .ok (l, rest) →
      l.length = n ∧ (l.flatMap c.encode).length + rest.length ≤ bytes.length
  | 0, bytes, rest, l, h => by
      cases h
      exact ⟨rfl, (Nat.zero_add _).le⟩
  | n + 1, bytes, rest, l, h => by
      rw [Codec.takeN] at h
      cases hfst : c.decode bytes with
      | error e => simp [hfst] at h
      | ok x =>
          cases htail : Codec.takeN c n x.2 with
          | error e => simp [hfst, htail] at h
          | ok y =>
              simp only [hfst, htail, Except.ok.injEq, Prod.mk.injEq] at h
              obtain ⟨rfl, rfl⟩ := h
              obtain ⟨hlen, htight⟩ := hc.takeN htail
              have h₁ := hc _ _ _ hfst
              rw [List.flatMap_cons, List.length_append, List.length_cons]
              omega

theorem Tight.seq {c : Codec α} (hc : c.Tight) : (seq c).Tight := by
  intro bytes l rest h
  cases hlen : u64.decode bytes with
  | error e => simp [Codec.seq, hlen] at h
  | ok x =>
      simp only [Codec.seq, hlen] at h
      obtain ⟨hcount, htight⟩ := hc.takeN h
      have h₀ := tight_u64 _ _ _ hlen
      show (u64.encode (UInt64.ofNat l.length) ++ l.flatMap c.encode).length + rest.length ≤
        bytes.length
      rw [hcount, UInt64.ofNat_toNat, List.length_append]
      omega

theorem tight_bytes : bytes.Tight := tight_u8.seq

theorem tight_string : string.Tight := by
  intro bytes s rest h
  cases hlen : u64.decode bytes with
  | error e => simp [string, hlen] at h
  | ok x =>
      simp only [string, hlen] at h
      split at h
      next => cases h
      next hle =>
        cases hutf : fromUtf8 (x.2.take x.1.toNat) with
        | none => simp [hutf] at h
        | some s' =>
            simp only [hutf, Except.ok.injEq, Prod.mk.injEq] at h
            obtain ⟨rfl, rfl⟩ := h
            have h₀ := tight_u64 _ _ _ hlen
            have hs := utf8_of_fromUtf8 hutf
            have hcount : (x.2.take x.1.toNat).length = x.1.toNat := by
              rw [List.length_take]
              omega
            show (u64.encode (UInt64.ofNat (utf8 s').length) ++ utf8 s').length +
              (x.2.drop x.1.toNat).length ≤ bytes.length
            rw [hs, hcount, UInt64.ofNat_toNat, List.length_append, hcount, List.length_drop]
            omega

end Codec

end Postcard

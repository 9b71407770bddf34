import VerticalSlice.TextFile

/-!
# What is written can be read

The bytes of a text are read back as that text (`decode_encode`), and a text without carriage
returns comes back unchanged when it is read as the contents of a file (`ofBytes_encode`). Bytes that
are no encoding of a text cannot be read (`decode_eq_ok_iff`).

The encoding of a character is a lead byte and the digits of its code point in base 64. Which range
the lead byte lies in tells how many digits follow, so the four lengths are four cases; in each of
them the bytes are turned into numbers once and the rest is arithmetic.
-/

namespace VerticalSlice.Text.Utf8

theorem toNat_ofNat_of_lt {n : Nat} (h : n < 256) : (UInt8.ofNat n).toNat = n := by
  rw [UInt8.toNat_ofNat']
  omega

/-- A byte given by a number is compared as that number. -/
theorem ofNat_lt_iff {n : Nat} {byte : UInt8} (h : n < 256) :
    UInt8.ofNat n < byte ↔ n < byte.toNat := by
  rw [UInt8.lt_iff_toNat_lt, toNat_ofNat_of_lt h]

theorem ofNat_eq_iff {n : Nat} {byte : UInt8} (h : n < 256) :
    UInt8.ofNat n = byte ↔ n = byte.toNat := by
  rw [← UInt8.toNat_inj, toNat_ofNat_of_lt h]

/-- A digit of base 64 in a continuation byte is read as that digit. -/
theorem readContinuations_cons {range : UInt8 × UInt8} {code good count digit : Nat}
    {rest : List UInt8} (hdigit : digit < 64) (hlow : range.1.toNat ≤ 0x80 + digit)
    (hhigh : 0x80 + digit ≤ range.2.toNat) :
    readContinuations range code good (count + 1) (UInt8.ofNat (0x80 + digit) :: rest) =
      readContinuations (0x80, 0xbf) (code * 0x40 + digit) (good + 1) count rest := by
  have hnat : (UInt8.ofNat (0x80 + digit)).toNat = 0x80 + digit := toNat_ofNat_of_lt (by omega)
  rw [readContinuations, if_pos]
  · rw [hnat, Nat.add_sub_cancel_left]
  · rw [Bool.and_eq_true, decide_eq_true_eq, decide_eq_true_eq, UInt8.le_iff_toNat_le,
      UInt8.le_iff_toNat_le, hnat]
    exact ⟨hlow, hhigh⟩

/-- How many bytes follow a lead byte, told from its number. -/
theorem continuations_ofNat {n : Nat} (h : n < 256) :
    continuations (UInt8.ofNat n) =
      if n < 0x80 then some 0 else if n < 0xc2 then none else if n < 0xe0 then some 1
      else if n < 0xf0 then some 2 else if n < 0xf5 then some 3 else none := by
  unfold continuations
  simp only [ofNat_lt_iff h]
  rfl

theorem secondByte_ofNat {n : Nat} (h : n < 256) :
    secondByte (UInt8.ofNat n) =
      if n = 0xe0 then (0xa0, 0xbf) else if n = 0xed then (0x80, 0x9f)
      else if n = 0xf0 then (0x90, 0xbf) else if n = 0xf4 then (0x80, 0x8f)
      else (0x80, 0xbf) := by
  unfold secondByte
  simp only [ofNat_eq_iff h]
  rfl

/-- The code point of a character is below the last one and no surrogate. -/
theorem toNat_cases (c : Char) : c.toNat < 0xd800 ∨ 0xdfff < c.toNat ∧ c.toNat < 0x110000 := by
  have h := c.valid
  simp only [UInt32.isValidChar, Nat.isValidChar] at h
  show c.val.toNat < _ ∨ _ < c.val.toNat ∧ c.val.toNat < _
  omega

/-! ## The four lengths -/

theorem readChar_one {n : Nat} (position : Nat) (rest : List UInt8) (h : n < 0x80) :
    readChar position (UInt8.ofNat n) rest = .ok (Char.ofNat n, rest) := by
  have hlead : n < 256 := by omega
  have hcount : continuations (UInt8.ofNat n) = some 0 := by
    rw [continuations_ofNat hlead, if_pos h]
  have hbits : leadBits (UInt8.ofNat n) 0 = n := toNat_ofNat_of_lt hlead
  simp only [readChar, hcount, readContinuations, hbits]

theorem readChar_two {n : Nat} (position : Nat) (rest : List UInt8) (hlow : 0x80 ≤ n)
    (hhigh : n < 0x800) :
    readChar position (UInt8.ofNat (0xc0 + n / 0x40))
      (UInt8.ofNat (0x80 + n % 0x40) :: rest) = .ok (Char.ofNat n, rest) := by
  have hlead : 0xc0 + n / 0x40 < 256 := by omega
  have hcount : continuations (UInt8.ofNat (0xc0 + n / 0x40)) = some 1 := by
    rw [continuations_ofNat hlead, if_neg (by omega), if_neg (by omega), if_pos (by omega)]
  have hsecond : secondByte (UInt8.ofNat (0xc0 + n / 0x40)) = (0x80, 0xbf) := by
    rw [secondByte_ofNat hlead, if_neg (by omega), if_neg (by omega), if_neg (by omega),
      if_neg (by omega)]
  have hcode : (0xc0 + n / 0x40 - 0xc0) * 0x40 + n % 0x40 = n := by omega
  have hread := @readContinuations_cons (0x80, 0xbf) (0xc0 + n / 0x40 - 0xc0) 0 0 (n % 0x40) rest
    (by omega) (Nat.le_add_right _ _) (by show _ ≤ 0xbf; omega)
  have hbits : leadBits (UInt8.ofNat (0xc0 + n / 0x40)) 1 = 0xc0 + n / 0x40 - 0xc0 :=
    congrArg (· - 0xc0) (toNat_ofNat_of_lt hlead)
  simp only [readChar, hcount, hsecond, hbits]
  simp only [Nat.zero_add] at hread
  rw [hread, hcode]
  rfl

theorem readChar_three {n : Nat} (position : Nat) (rest : List UInt8) (hlow : 0x800 ≤ n)
    (hhigh : n < 0x10000) (hvalid : n < 0xd800 ∨ 0xdfff < n) :
    readChar position (UInt8.ofNat (0xe0 + n / 0x1000))
      (UInt8.ofNat (0x80 + n / 0x40 % 0x40) :: UInt8.ofNat (0x80 + n % 0x40) :: rest) =
        .ok (Char.ofNat n, rest) := by
  have hlead : 0xe0 + n / 0x1000 < 256 := by omega
  have hcount : continuations (UInt8.ofNat (0xe0 + n / 0x1000)) = some 2 := by
    rw [continuations_ofNat hlead, if_neg (by omega), if_neg (by omega), if_neg (by omega),
      if_pos (by omega)]
  have hrange : (secondByte (UInt8.ofNat (0xe0 + n / 0x1000))).1.toNat ≤ 0x80 + n / 0x40 % 0x40 ∧
      0x80 + n / 0x40 % 0x40 ≤ (secondByte (UInt8.ofNat (0xe0 + n / 0x1000))).2.toNat := by
    rw [secondByte_ofNat hlead]
    by_cases hfirst : 0xe0 + n / 0x1000 = 0xe0
    · rw [if_pos hfirst]
      exact ⟨by show 0xa0 ≤ _; omega, by show _ ≤ 0xbf; omega⟩
    · rw [if_neg hfirst]
      by_cases hsurrogate : 0xe0 + n / 0x1000 = 0xed
      · rw [if_pos hsurrogate]
        exact ⟨by show 0x80 ≤ _; omega, by show _ ≤ 0x9f; omega⟩
      · rw [if_neg hsurrogate, if_neg (by omega), if_neg (by omega)]
        exact ⟨by show 0x80 ≤ _; omega, by show _ ≤ 0xbf; omega⟩
  have hcode : ((0xe0 + n / 0x1000 - 0xe0) * 0x40 + n / 0x40 % 0x40) * 0x40 + n % 0x40 = n := by
    omega
  have hread := @readContinuations_cons _ (0xe0 + n / 0x1000 - 0xe0) 0 1 (n / 0x40 % 0x40)
    (UInt8.ofNat (0x80 + n % 0x40) :: rest) (by omega) hrange.1 hrange.2
  have hlast := @readContinuations_cons (0x80, 0xbf)
    ((0xe0 + n / 0x1000 - 0xe0) * 0x40 + n / 0x40 % 0x40) 1 0 (n % 0x40) rest
    (by omega) (Nat.le_add_right _ _) (by show _ ≤ 0xbf; omega)
  have hbits : leadBits (UInt8.ofNat (0xe0 + n / 0x1000)) 2 = 0xe0 + n / 0x1000 - 0xe0 :=
    congrArg (· - 0xe0) (toNat_ofNat_of_lt hlead)
  simp only [readChar, hcount, hbits]
  simp only [Nat.zero_add, Nat.reduceAdd] at hread hlast
  rw [hread, hlast, hcode]
  rfl

theorem readChar_four {n : Nat} (position : Nat) (rest : List UInt8) (hlow : 0x10000 ≤ n)
    (hhigh : n < 0x110000) :
    readChar position (UInt8.ofNat (0xf0 + n / 0x40000))
      (UInt8.ofNat (0x80 + n / 0x1000 % 0x40) :: UInt8.ofNat (0x80 + n / 0x40 % 0x40) ::
        UInt8.ofNat (0x80 + n % 0x40) :: rest) = .ok (Char.ofNat n, rest) := by
  have hlead : 0xf0 + n / 0x40000 < 256 := by omega
  have hcount : continuations (UInt8.ofNat (0xf0 + n / 0x40000)) = some 3 := by
    rw [continuations_ofNat hlead, if_neg (by omega), if_neg (by omega), if_neg (by omega),
      if_neg (by omega), if_pos (by omega)]
  have hrange : (secondByte (UInt8.ofNat (0xf0 + n / 0x40000))).1.toNat ≤
      0x80 + n / 0x1000 % 0x40 ∧
      0x80 + n / 0x1000 % 0x40 ≤ (secondByte (UInt8.ofNat (0xf0 + n / 0x40000))).2.toNat := by
    rw [secondByte_ofNat hlead, if_neg (by omega), if_neg (by omega)]
    by_cases hfirst : 0xf0 + n / 0x40000 = 0xf0
    · rw [if_pos hfirst]
      exact ⟨by show 0x90 ≤ _; omega, by show _ ≤ 0xbf; omega⟩
    · rw [if_neg hfirst]
      by_cases hlast : 0xf0 + n / 0x40000 = 0xf4
      · rw [if_pos hlast]
        exact ⟨by show 0x80 ≤ _; omega, by show _ ≤ 0x8f; omega⟩
      · rw [if_neg hlast]
        exact ⟨by show 0x80 ≤ _; omega, by show _ ≤ 0xbf; omega⟩
  have hcode : (((0xf0 + n / 0x40000 - 0xf0) * 0x40 + n / 0x1000 % 0x40) * 0x40 +
      n / 0x40 % 0x40) * 0x40 + n % 0x40 = n := by omega
  have hread := @readContinuations_cons _ (0xf0 + n / 0x40000 - 0xf0) 0 2 (n / 0x1000 % 0x40)
    (UInt8.ofNat (0x80 + n / 0x40 % 0x40) :: UInt8.ofNat (0x80 + n % 0x40) :: rest)
    (by omega) hrange.1 hrange.2
  have hnext := @readContinuations_cons (0x80, 0xbf)
    ((0xf0 + n / 0x40000 - 0xf0) * 0x40 + n / 0x1000 % 0x40) 1 1 (n / 0x40 % 0x40)
    (UInt8.ofNat (0x80 + n % 0x40) :: rest) (by omega) (Nat.le_add_right _ _)
    (by show _ ≤ 0xbf; omega)
  have hlast := @readContinuations_cons (0x80, 0xbf)
    (((0xf0 + n / 0x40000 - 0xf0) * 0x40 + n / 0x1000 % 0x40) * 0x40 + n / 0x40 % 0x40) 2 0
    (n % 0x40) rest (by omega) (Nat.le_add_right _ _) (by show _ ≤ 0xbf; omega)
  have hbits : leadBits (UInt8.ofNat (0xf0 + n / 0x40000)) 3 = 0xf0 + n / 0x40000 - 0xf0 :=
    congrArg (· - 0xf0) (toNat_ofNat_of_lt hlead)
  simp only [readChar, hcount, hbits]
  simp only [Nat.zero_add, Nat.reduceAdd] at hread hnext hlast
  rw [hread, hnext, hlast, hcode]
  rfl

/-- An encoded character is read back, whatever follows it. -/
theorem readChar_encodeChar (position : Nat) (c : Char) (rest : List UInt8) :
    ∃ lead tail, encodeChar c = lead :: tail ∧
      readChar position lead (tail ++ rest) = .ok (c, rest) := by
  have hbound := toNat_cases c
  have hback : Char.ofNat c.toNat = c := Char.ofNat_toNat c
  by_cases hone : c.toNat < 0x80
  · refine ⟨_, _, by rw [encodeChar, encodeCode, if_pos hone]; rfl, ?_⟩
    exact (readChar_one position rest hone).trans (by rw [hback])
  by_cases htwo : c.toNat < 0x800
  · refine ⟨_, _, by rw [encodeChar, encodeCode, if_neg hone, if_pos htwo]; rfl, ?_⟩
    exact (readChar_two position rest (by omega) htwo).trans (by rw [hback])
  by_cases hthree : c.toNat < 0x10000
  · refine ⟨_, _, by rw [encodeChar, encodeCode, if_neg hone, if_neg htwo, if_pos hthree]; rfl, ?_⟩
    exact (readChar_three position rest (by omega) hthree (by omega)).trans (by rw [hback])
  · refine ⟨_, _, by rw [encodeChar, encodeCode, if_neg hone, if_neg htwo, if_neg hthree]; rfl, ?_⟩
    exact (readChar_four position rest (by omega) (by omega)).trans (by rw [hback])

/-! ## Whole texts -/

theorem decodeFrom_encode (text : Text) :
    ∀ position, decodeFrom position (encode text) = .ok text := by
  induction text with
  | nil => intro position; rw [encode, List.flatMap_nil, decodeFrom]
  | cons c text ih =>
    intro position
    obtain ⟨lead, tail, hencode, hread⟩ := readChar_encodeChar position c (encode text)
    rw [show encode (c :: text) = lead :: (tail ++ encode text) by
      rw [encode, List.flatMap_cons, hencode]; rfl, decodeFrom]
    split
    · next h =>
      rw [hread] at h
      cases h
    · next c' after h =>
      rw [hread] at h
      cases h
      rw [ih]

/-- A text is read back from its bytes. -/
theorem decode_encode (text : Text) : decode (encode text) = .ok text := decodeFrom_encode text 0

/-! ## Nothing else can be read -/

/-- A continuation byte that is read lies in its range. -/
theorem exists_of_readContinuations {range : UInt8 × UInt8} {code good count : Nat}
    {bytes : List UInt8} {result : Nat × List UInt8}
    (h : readContinuations range code good (count + 1) bytes = .ok result) :
    ∃ digit rest, bytes = UInt8.ofNat digit :: rest ∧ range.1.toNat ≤ digit ∧
      digit ≤ range.2.toNat ∧
      readContinuations (0x80, 0xbf) (code * 0x40 + (digit - 0x80)) (good + 1) count rest =
        .ok result := by
  cases bytes with
  | nil => cases h
  | cons byte rest =>
    rw [readContinuations] at h
    split at h
    · next hrange =>
      rw [Bool.and_eq_true, decide_eq_true_eq, decide_eq_true_eq, UInt8.le_iff_toNat_le,
        UInt8.le_iff_toNat_le] at hrange
      exact ⟨byte.toNat, rest, by rw [UInt8.ofNat_toNat], hrange.1, hrange.2, h⟩
    · cases h

theorem encodeChar_ofNat {code : Nat} (h : code < 0xd800 ∨ 0xdfff < code ∧ code < 0x110000) :
    encodeChar (Char.ofNat code) = (encodeCode code).map UInt8.ofNat := by
  have hvalid : code.isValidChar := h
  have hcode : (Char.ofNat code).toNat = code := by
    rw [Char.ofNat, dif_pos hvalid]
    rfl
  rw [encodeChar, hcode]

/-- The range of the second byte keeps out longer forms, surrogates and what is beyond the last code
point. -/
theorem secondByte_bounds {n : Nat} (h : n < 256) {byte : Nat}
    (hlow : (secondByte (UInt8.ofNat n)).1.toNat ≤ byte)
    (hhigh : byte ≤ (secondByte (UInt8.ofNat n)).2.toNat) :
    0x80 ≤ byte ∧ byte ≤ 0xbf ∧ (n = 0xe0 → 0xa0 ≤ byte) ∧ (n = 0xed → byte ≤ 0x9f) ∧
      (n = 0xf0 → 0x90 ≤ byte) ∧ (n = 0xf4 → byte ≤ 0x8f) := by
  rw [secondByte_ofNat h] at hlow hhigh
  by_cases he0 : n = 0xe0
  · rw [if_pos he0] at hlow hhigh
    simp only [UInt8.reduceToNat] at hlow hhigh
    omega
  by_cases hed : n = 0xed
  · rw [if_neg he0, if_pos hed] at hlow hhigh
    simp only [UInt8.reduceToNat] at hlow hhigh
    omega
  by_cases hf0 : n = 0xf0
  · rw [if_neg he0, if_neg hed, if_pos hf0] at hlow hhigh
    simp only [UInt8.reduceToNat] at hlow hhigh
    omega
  by_cases hf4 : n = 0xf4
  · rw [if_neg he0, if_neg hed, if_neg hf0, if_pos hf4] at hlow hhigh
    simp only [UInt8.reduceToNat] at hlow hhigh
    omega
  · rw [if_neg he0, if_neg hed, if_neg hf0, if_neg hf4] at hlow hhigh
    simp only [UInt8.reduceToNat] at hlow hhigh
    omega

/-- The bytes of a character that is read are those of its encoding. -/
theorem encodeChar_of_readChar {position : Nat} {lead : UInt8} {rest after : List UInt8} {c : Char}
    (h : readChar position lead rest = .ok (c, after)) : encodeChar c ++ after = lead :: rest := by
  obtain ⟨n, hn, rfl⟩ : ∃ n, n < 256 ∧ UInt8.ofNat n = lead :=
    ⟨lead.toNat, lead.toNat_lt, UInt8.ofNat_toNat⟩
  obtain ⟨count, code, hcount, hread, rfl⟩ : ∃ count code,
      continuations (UInt8.ofNat n) = some count ∧
        readContinuations (secondByte (UInt8.ofNat n)) (leadBits (UInt8.ofNat n) count) 0 count rest =
          .ok (code, after) ∧ Char.ofNat code = c := by
    rw [readChar] at h
    cases hcount : continuations (UInt8.ofNat n) with
    | none => rw [hcount] at h; cases h
    | some count =>
      rw [hcount] at h
      dsimp only at h
      split at h
      · next code more hread =>
        obtain ⟨rfl, rfl⟩ := Prod.mk.inj (Except.ok.inj h)
        exact ⟨count, code, rfl, hread, rfl⟩
      · cases h
  have hnumber : (UInt8.ofNat n).toNat = n := toNat_ofNat_of_lt hn
  rw [continuations_ofNat hn] at hcount
  by_cases hone : n < 0x80
  · rw [if_pos hone] at hcount
    obtain rfl := Option.some.inj hcount
    obtain ⟨rfl, rfl⟩ := Prod.mk.inj (Except.ok.inj hread)
    have hbits : leadBits (UInt8.ofNat n) 0 = n := hnumber
    rw [hbits, encodeChar_ofNat (by omega), encodeCode, if_pos hone, List.map_singleton,
      List.singleton_append]
  rw [if_neg hone] at hcount
  by_cases hnone : n < 0xc2
  · rw [if_pos hnone] at hcount
    cases hcount
  rw [if_neg hnone] at hcount
  by_cases htwo : n < 0xe0
  · rw [if_pos htwo] at hcount
    obtain rfl := Option.some.inj hcount
    obtain ⟨first, bytes, rfl, hlow, hhigh, hread⟩ := exists_of_readContinuations hread
    obtain ⟨rfl, rfl⟩ := Prod.mk.inj (Except.ok.inj hread)
    have hrange := secondByte_bounds hn hlow hhigh
    have hbits : leadBits (UInt8.ofNat n) 1 = n - 0xc0 := congrArg (· - 0xc0) hnumber
    rw [hbits, encodeChar_ofNat (by omega), encodeCode, if_neg (by omega), if_pos (by omega)]
    have hlead : 0xc0 + ((n - 0xc0) * 0x40 + (first - 0x80)) / 0x40 = n := by omega
    have hfirst : 0x80 + ((n - 0xc0) * 0x40 + (first - 0x80)) % 0x40 = first := by omega
    rw [hlead, hfirst]
    rfl
  rw [if_neg htwo] at hcount
  by_cases hthree : n < 0xf0
  · rw [if_pos hthree] at hcount
    obtain rfl := Option.some.inj hcount
    obtain ⟨first, bytes, rfl, hlow, hhigh, hread⟩ := exists_of_readContinuations hread
    obtain ⟨second, bytes, rfl, hlow', hhigh', hread⟩ := exists_of_readContinuations hread
    obtain ⟨rfl, rfl⟩ := Prod.mk.inj (Except.ok.inj hread)
    have hrange' : 0x80 ≤ second ∧ second ≤ 0xbf := ⟨hlow', hhigh'⟩
    have hrange := secondByte_bounds hn hlow hhigh
    have hbits : leadBits (UInt8.ofNat n) 2 = n - 0xe0 := congrArg (· - 0xe0) hnumber
    rw [hbits, encodeChar_ofNat (by omega), encodeCode, if_neg (by omega), if_neg (by omega),
      if_pos (by omega)]
    have hlead : 0xe0 + (((n - 0xe0) * 0x40 + (first - 0x80)) * 0x40 + (second - 0x80)) / 0x1000 = n := by
      omega
    have hfirst : 0x80 + (((n - 0xe0) * 0x40 + (first - 0x80)) * 0x40 + (second - 0x80)) / 0x40 % 0x40 =
        first := by omega
    have hlast : 0x80 + (((n - 0xe0) * 0x40 + (first - 0x80)) * 0x40 + (second - 0x80)) % 0x40 = second := by
      omega
    rw [hlead, hfirst, hlast]
    rfl
  rw [if_neg hthree] at hcount
  by_cases hfour : n < 0xf5
  · rw [if_pos hfour] at hcount
    obtain rfl := Option.some.inj hcount
    obtain ⟨first, bytes, rfl, hlow, hhigh, hread⟩ := exists_of_readContinuations hread
    obtain ⟨second, bytes, rfl, hlow', hhigh', hread⟩ := exists_of_readContinuations hread
    obtain ⟨third, bytes, rfl, hlow'', hhigh'', hread⟩ := exists_of_readContinuations hread
    obtain ⟨rfl, rfl⟩ := Prod.mk.inj (Except.ok.inj hread)
    have hrange' : 0x80 ≤ second ∧ second ≤ 0xbf := ⟨hlow', hhigh'⟩
    have hrange'' : 0x80 ≤ third ∧ third ≤ 0xbf := ⟨hlow'', hhigh''⟩
    have hrange := secondByte_bounds hn hlow hhigh
    have hbits : leadBits (UInt8.ofNat n) 3 = n - 0xf0 := congrArg (· - 0xf0) hnumber
    rw [hbits, encodeChar_ofNat (by omega), encodeCode, if_neg (by omega), if_neg (by omega),
      if_neg (by omega)]
    generalize hcode : (((n - 0xf0) * 0x40 + (first - 0x80)) * 0x40 + (second - 0x80)) * 0x40 +
      (third - 0x80) = code
    have hlead : 0xf0 + code / 0x40000 = n := by omega
    have hfirst : 0x80 + code / 0x1000 % 0x40 = first := by omega
    have hnext : 0x80 + code / 0x40 % 0x40 = second := by omega
    have hlast : 0x80 + code % 0x40 = third := by omega
    rw [hlead, hfirst, hnext, hlast]
    rfl
  · rw [if_neg hfour] at hcount
    cases hcount

theorem encode_of_decodeFrom {position : Nat} {bytes : List UInt8} {text : Text}
    (h : decodeFrom position bytes = .ok text) : encode text = bytes := by
  fun_induction decodeFrom position bytes generalizing text with
  | case1 => cases h; rfl
  | case2 => cases h
  | case3 position lead rest c after hread hlength more hmore ih =>
    obtain rfl := Except.ok.inj h
    have hencode := encodeChar_of_readChar hread
    rw [← ih hmore] at hencode
    exact hencode
  | case4 => cases h

/-- Exactly the encodings of texts can be read. -/
theorem decode_eq_ok_iff {bytes : List UInt8} {text : Text} :
    decode bytes = .ok text ↔ encode text = bytes :=
  ⟨encode_of_decodeFrom, fun h => h ▸ decode_encode text⟩

theorem encode_injective : Function.Injective encode := fun first second h =>
  Except.ok.inj ((decode_encode first).symm.trans (h ▸ decode_encode second))

/-! ## Which bytes a text has -/

theorem encode_append (first second : Text) : encode (first ++ second) = encode first ++ encode second :=
  List.flatMap_append

/-- Beyond ASCII all bytes of a character are large. -/
theorem le_of_mem_encodeCode {code n : Nat} (hlow : 0x80 ≤ code) (hhigh : code < 0x110000)
    (h : n ∈ encodeCode code) : 0x80 ≤ n ∧ n < 256 := by
  rw [encodeCode, if_neg (by omega)] at h
  split at h
  · simp only [List.mem_cons, List.not_mem_nil, or_false] at h
    omega
  · split at h
    · simp only [List.mem_cons, List.not_mem_nil, or_false] at h
      omega
    · simp only [List.mem_cons, List.not_mem_nil, or_false] at h
      omega

theorem ofNat_mem_encodeChar_iff {c d : Char} (hc : c.toNat < 0x80) :
    UInt8.ofNat c.toNat ∈ encodeChar d ↔ c = d := by
  have hbyte : (UInt8.ofNat c.toNat).toNat = c.toNat := toNat_ofNat_of_lt (by omega)
  rw [encodeChar, List.mem_map]
  constructor
  · rintro ⟨n, hn, heq⟩
    by_cases hd : d.toNat < 0x80
    · rw [encodeCode, if_pos hd, List.mem_singleton] at hn
      rw [ofNat_eq_iff (by omega), hbyte] at heq
      exact (Char.toNat_inj.1 (hn ▸ heq)).symm
    · have hbound := toNat_cases d
      have hlarge := le_of_mem_encodeCode (by omega) (by omega) hn
      rw [ofNat_eq_iff (by omega), hbyte] at heq
      omega
  · rintro rfl
    exact ⟨c.toNat, by rw [encodeCode, if_pos hc]; exact List.mem_singleton_self _, rfl⟩

/-- The byte of a character of ASCII is in the bytes of a text only as that character. -/
theorem ofNat_mem_encode_iff {text : Text} {c : Char} (hc : c.toNat < 0x80) :
    UInt8.ofNat c.toNat ∈ encode text ↔ c ∈ text := by
  rw [encode, List.mem_flatMap]
  constructor
  · rintro ⟨d, hd, hmem⟩
    rw [(ofNat_mem_encodeChar_iff hc).1 hmem]
    exact hd
  · intro h
    exact ⟨c, h, (ofNat_mem_encodeChar_iff hc).2 rfl⟩

end VerticalSlice.Text.Utf8

namespace VerticalSlice

/-- The encoding of a text is read as that text, with one form of line ends. -/
theorem Text.ofBytes_encode_eq (text : Text) :
    Text.ofBytes (Text.Utf8.encode text) = .ok (Text.normalizeNewlines text) := by
  rw [Text.ofBytes, Text.Utf8.decode_encode]
  rfl

/-- The contents of a file come back as the text that was written, if its lines end with line feeds
only. -/
theorem Text.ofBytes_encode {text : Text} (h : '\r' ∉ text) :
    Text.ofBytes (Text.Utf8.encode text) = .ok text := by
  rw [Text.ofBytes_encode_eq, Text.normalizeNewlines_eq_self h]

namespace FileTree

variable {tree : FileTree} {path : Path} {bytes : List UInt8}

/-- A file that holds the encoding of a text is read as that text, with one form of line ends. -/
theorem readText_of_read {raw : Text} (h : tree.read path = .ok bytes)
    (hraw : Text.Utf8.encode raw = bytes) :
    tree.readText path = .ok (Text.normalizeNewlines raw) := by
  rw [readText, h]
  dsimp only
  rw [Text.ofBytes, Text.Utf8.decode_eq_ok_iff.2 hraw]
  rfl

/-- A file whose text was read has the bytes of a text that differs from it in its line ends only. -/
theorem exists_read_of_readText {text : Text} (h : tree.readText path = .ok text) :
    ∃ raw, tree.read path = .ok (Text.Utf8.encode raw) ∧ text = Text.normalizeNewlines raw := by
  rw [readText] at h
  cases hbytes : tree.read path with
  | error fault =>
    rw [hbytes] at h
    cases h
  | ok bytes =>
    rw [hbytes] at h
    dsimp only at h
    rw [Text.ofBytes] at h
    cases hraw : Text.Utf8.decode bytes with
    | error fault =>
      rw [hraw] at h
      cases h
    | ok raw =>
      rw [hraw] at h
      exact ⟨raw, by rw [Text.Utf8.decode_eq_ok_iff.1 hraw], (Except.ok.inj h).symm⟩

/-- A file that holds no encoding of a text cannot be read. -/
theorem exists_readText_eq_error (h : tree.read path = .ok bytes)
    (hnone : ∀ raw, Text.Utf8.encode raw ≠ bytes) :
    ∃ fault, tree.readText path = .error (.encoding fault) := by
  rw [readText, h]
  dsimp only
  rw [Text.ofBytes]
  cases hdecode : Text.Utf8.decode bytes with
  | error fault => exact ⟨fault, rfl⟩
  | ok text => exact absurd (Text.Utf8.decode_eq_ok_iff.1 hdecode) (hnone text)

end FileTree

end VerticalSlice

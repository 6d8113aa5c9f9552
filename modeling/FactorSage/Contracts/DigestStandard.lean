import FactorSage.Contracts.Digest
import Mathlib.Tactic.NormNum.Basic

/-!
# The digest is SHA-256

The bytes are the UTF-8 bytes (`utf8Bytes_eq`), padding them is padding their bits
(`paddedBytes_eq`), and each loop on numbers is the standard's on words: the schedule
(`filled_schedule`), the rounds (`words_rounds`), the blocks (`blocks_eq`). The printed digest is the
standard's in hexadecimal (`leftpad_hexText`).
-/

namespace FactorSage.Digest

open WordOps hiding Word
open Sha256

/-! ### Bytes -/

theorem bitAnd_63 {m : ℕ} (hm : m < 2 ^ 31) : bitAnd m 0x3f = ((m % 64 : ℕ) : ℤ) :=
  bitAnd_mask (k := 6) hm (by decide)

/-- A continuation byte. -/
theorem bitOr_continuation {m : ℕ} (hm : m < 2 ^ 31) :
    bitOr 0x80 (bitAnd m 0x3f) = ((0x80 + m % 64 : ℕ) : ℤ) := by
  rw [bitAnd_63 hm]
  exact bitOr_add 2 6 (by omega) (by omega)

theorem pointBytes_eq {point : ℕ} (h : point < 0x110000) :
    pointBytes point = (CodePoints.pointBytes point).map Nat.cast := by
  have hshift : ∀ k : ℕ, k < 32 → shiftRight point k = ((point / 2 ^ k : ℕ) : ℤ) :=
    fun k hk => shiftRight_natCast (by omega) hk
  have hsix : shiftRight point 6 = ((point / 64 : ℕ) : ℤ) := hshift 6 (by decide)
  have htwelve : shiftRight point 12 = ((point / 4096 : ℕ) : ℤ) := hshift 12 (by decide)
  have heighteen : shiftRight point 18 = ((point / 262144 : ℕ) : ℤ) := hshift 18 (by decide)
  unfold pointBytes CodePoints.pointBytes
  rw [hsix, htwelve, heighteen, bitOr_continuation (by omega), bitOr_continuation (by omega),
    bitOr_continuation (by omega)]
  by_cases hone : point < 0x80
  · rw [if_pos (by omega), if_pos hone]
    rfl
  rw [if_neg (by omega), if_neg hone]
  by_cases htwo : point < 0x800
  · have hfirst : bitOr 0xc0 ((point / 64 : ℕ) : ℤ) = ((0xC0 + point / 64 : ℕ) : ℤ) :=
      bitOr_add 3 6 (by omega) (by omega)
    rw [if_pos (by omega), if_pos htwo, hfirst]
    rfl
  rw [if_neg (by omega), if_neg htwo]
  by_cases hthree : point < 0x10000
  · have hfirst : bitOr 0xe0 ((point / 4096 : ℕ) : ℤ) = ((0xE0 + point / 4096 : ℕ) : ℤ) :=
      bitOr_add 14 4 (by omega) (by omega)
    rw [if_pos (by omega), if_pos hthree, hfirst]
    rfl
  · have hfirst : bitOr 0xf0 ((point / 262144 : ℕ) : ℤ) = ((0xF0 + point / 262144 : ℕ) : ℤ) :=
      bitOr_add 30 3 (by omega) (by omega)
    rw [if_neg (by omega), if_neg hthree, hfirst]
    rfl

/-- The UTF-8 bytes of a string. -/
def encoded (text : List UInt16) : List ℕ := CodePoints.utf8 (CodePoints.codePoints text)

/-- **The encoding is UTF-8, byte by byte.** -/
theorem utf8Bytes_eq (text : List UInt16) : utf8Bytes text = (encoded text).map Nat.cast := by
  unfold utf8Bytes encoded CodePoints.utf8
  rw [List.map_flatMap]
  exact List.flatMap_congr fun point hpoint =>
    pointBytes_eq (CodePoints.lt_of_mem_codePoints text point hpoint)

theorem encoded_lt (text : List UInt16) : ∀ b ∈ encoded text, b < 256 :=
  CodePoints.byte_lt_of_mem_utf8 (CodePoints.lt_of_mem_codePoints text)

/-- **Distinct strings have distinct bytes.** -/
theorem utf8Bytes_injective : Function.Injective utf8Bytes := by
  intro left right h
  rw [utf8Bytes_eq, utf8Bytes_eq] at h
  have hbytes : encoded left = encoded right := List.map_injective_iff.mpr Nat.cast_injective h
  exact CodePoints.codePoints_injective (CodePoints.utf8_injective
    (CodePoints.lt_of_mem_codePoints left) (CodePoints.lt_of_mem_codePoints right) hbytes)

/-! ### Padding -/

/-- How many zeros the loop pushes. -/
theorem pushZeros_eq (bytes : List ℤ) :
    pushZeros bytes = bytes ++ List.replicate ((120 - bytes.length % 64) % 64) 0 := by
  fun_induction pushZeros bytes with
  | case1 bytes hcontinue ih =>
    have hcount : (120 - bytes.length % 64) % 64 = (120 - (bytes.length + 1) % 64) % 64 + 1 := by
      omega
    rw [ih, List.length_append, List.length_singleton, hcount, List.replicate_succ,
      List.append_assoc]
    rfl
  | case2 bytes hend =>
    have hcount : (120 - bytes.length % 64) % 64 = 0 := by omega
    rw [hcount, List.replicate_zero, List.append_nil]

theorem shiftRightUnsigned_natCast (m k : ℕ) (hk : k < 32) :
    shiftRightUnsigned m k = ((m % 2 ^ 32 / 2 ^ k : ℕ) : ℤ) := by
  unfold shiftRightUnsigned
  rw [shiftCount_of_lt hk, toWord_natCast, BitVec.toNat_ushiftRight, BitVec.toNat_ofNat,
    Nat.shiftRight_eq_div_pow]

theorem bitAnd_255 (m : ℕ) : bitAnd m 0xff = ((m % 256 : ℕ) : ℤ) := by
  have hword : toWord (m : ℤ) = toWord ((m % 2 ^ 32 : ℕ) : ℤ) := by
    rw [toWord_natCast, toWord_natCast]
    apply BitVec.eq_of_toNat_eq
    rw [BitVec.toNat_ofNat, BitVec.toNat_ofNat, Nat.mod_mod]
  have hand : (toWord (m : ℤ) &&& toWord 0xff).toNat = m % 256 := by
    rw [hword, BitVec.toNat_and, toNat_toWord (Nat.mod_lt _ (by decide)),
      show (toWord 0xff).toNat = 2 ^ 8 - 1 from rfl, Nat.and_two_pow_sub_one_eq_mod]
    omega
  unfold bitAnd
  rw [toInt_of_lt (by rw [hand]; omega), hand]

/-- A word's bytes are its digits in base 256. -/
theorem wordBytes_natCast (m : ℕ) :
    wordBytes m = [m / 2 ^ 24 % 256, m / 2 ^ 16 % 256, m / 2 ^ 8 % 256, m % 256].map Nat.cast := by
  have h24 : shiftRightUnsigned m 24 = ((m % 2 ^ 32 / 2 ^ 24 : ℕ) : ℤ) :=
    shiftRightUnsigned_natCast m 24 (by decide)
  have h16 : shiftRightUnsigned m 16 = ((m % 2 ^ 32 / 2 ^ 16 : ℕ) : ℤ) :=
    shiftRightUnsigned_natCast m 16 (by decide)
  have h8 : shiftRightUnsigned m 8 = ((m % 2 ^ 32 / 2 ^ 8 : ℕ) : ℤ) :=
    shiftRightUnsigned_natCast m 8 (by decide)
  have e24 : m % 2 ^ 32 / 2 ^ 24 % 256 = m / 2 ^ 24 % 256 := by omega
  have e16 : m % 2 ^ 32 / 2 ^ 16 % 256 = m / 2 ^ 16 % 256 := by omega
  have e8 : m % 2 ^ 32 / 2 ^ 8 % 256 = m / 2 ^ 8 % 256 := by omega
  unfold wordBytes
  rw [h24, h16, h8, bitAnd_255, bitAnd_255, bitAnd_255, bitAnd_255, e24, e16, e8]
  rfl

/-- The bytes of a length, word by word. -/
theorem lengthBytes_eq (l : ℕ) :
    [l / 2 ^ 32 / 2 ^ 24 % 256, l / 2 ^ 32 / 2 ^ 16 % 256, l / 2 ^ 32 / 2 ^ 8 % 256, l / 2 ^ 32 % 256]
      ++ [l % 2 ^ 32 / 2 ^ 24 % 256, l % 2 ^ 32 / 2 ^ 16 % 256, l % 2 ^ 32 / 2 ^ 8 % 256,
        l % 2 ^ 32 % 256] = lengthBytes l := by
  have hbytes : lengthBytes l = [l / 2 ^ 56 % 256, l / 2 ^ 48 % 256, l / 2 ^ 40 % 256,
      l / 2 ^ 32 % 256, l / 2 ^ 24 % 256, l / 2 ^ 16 % 256, l / 2 ^ 8 % 256, l % 256] := by
    simp [lengthBytes, List.range_succ]
  rw [hbytes]
  simp only [List.cons_append, List.nil_append, List.cons.injEq, and_true, true_and]
  refine ⟨?_, ?_, ?_, ?_, ?_, ?_, ?_⟩ <;> omega

/-- **The padded bytes are the standard's.** -/
theorem paddedBytes_eq (bytes : List ℕ) :
    paddedBytes (bytes.map Nat.cast) = (padBytes bytes).map Nat.cast := by
  have hzeros : (120 - (bytes.length + 1) % 64) % 64 = zeroBytes bytes.length := by
    unfold zeroBytes
    omega
  have hhigh : ((bytes.length : ℤ) * 8) / 0x100000000 = ((8 * bytes.length / 2 ^ 32 : ℕ) : ℤ) := by
    push_cast
    rw [mul_comm]
  have hlow : shiftRightUnsigned ((bytes.length : ℤ) * 8) 0
      = ((8 * bytes.length % 2 ^ 32 : ℕ) : ℤ) := by
    have hlength : (bytes.length : ℤ) * 8 = ((8 * bytes.length : ℕ) : ℤ) := by
      push_cast
      rw [mul_comm]
    rw [shiftRightUnsigned_zero, hlength, toWord_natCast, BitVec.toNat_ofNat]
  have hbytes : (wordBytes ((8 * bytes.length / 2 ^ 32 : ℕ) : ℤ)
      ++ wordBytes ((8 * bytes.length % 2 ^ 32 : ℕ) : ℤ))
      = (lengthBytes (8 * bytes.length)).map Nat.cast := by
    rw [wordBytes_natCast, wordBytes_natCast, ← List.map_append, ← lengthBytes_eq]
  unfold paddedBytes padBytes
  dsimp only
  rw [List.length_map, pushZeros_eq, List.length_append, List.length_map, List.length_singleton,
    hzeros, hhigh, hlow, hbytes]
  simp

/-! ### Schedule -/

/-- Higher bits next to lower ones. -/
theorem or_lower (high k : ℕ) {low : ℕ} (h : low < 2 ^ k) : high * 2 ^ k ||| low = high * 2 ^ k + low := by
  rw [← Nat.shiftLeft_eq, Nat.shiftLeft_add_eq_or_of_lt h]

/-- The word four bytes are loaded as. -/
theorem toWord_loadWord (bytes : List ℤ) (start : ℕ) {b₀ b₁ b₂ b₃ : ℕ} (h₀ : b₀ < 256) (h₁ : b₁ < 256)
    (h₂ : b₂ < 256) (h₃ : b₃ < 256)
    (hread : [bytes.getD start 0, bytes.getD (start + 1) 0, bytes.getD (start + 2) 0,
      bytes.getD (start + 3) 0] = [b₀, b₁, b₂, b₃].map Nat.cast) :
    toWord (loadWord bytes start) = BitVec.ofNat 32 (((b₀ * 256 + b₁) * 256 + b₂) * 256 + b₃) := by
  obtain ⟨r₀, r₁, r₂, r₃, -⟩ : bytes.getD start 0 = (b₀ : ℤ) ∧ bytes.getD (start + 1) 0 = (b₁ : ℤ)
      ∧ bytes.getD (start + 2) 0 = (b₂ : ℤ) ∧ bytes.getD (start + 3) 0 = (b₃ : ℤ) ∧ True := by
    simpa using hread
  have hshift : ∀ b k : ℕ, b * 2 ^ k < 2 ^ 32 → (BitVec.ofNat 32 b <<< k).toNat = b * 2 ^ k := by
    intro b k hb
    have hlt : b < 2 ^ 32 := lt_of_le_of_lt (Nat.le_mul_of_pos_right b (by positivity)) hb
    rw [BitVec.toNat_shiftLeft, BitVec.toNat_ofNat, Nat.mod_eq_of_lt hlt, Nat.shiftLeft_eq,
      Nat.mod_eq_of_lt hb]
  have c24 : shiftCount 24 = 24 := rfl
  have c16 : shiftCount 16 = 16 := rfl
  have c8 : shiftCount 8 = 8 := rfl
  have c0 : shiftCount 0 = 0 := rfl
  unfold loadWord
  rw [toWord_shiftRightUnsigned, toWord_bitOr, toWord_bitOr, toWord_bitOr, toWord_shiftLeft,
    toWord_shiftLeft, toWord_shiftLeft, r₀, r₁, r₂, r₃, c24, c16, c8, c0, BitVec.ushiftRight_zero,
    toWord_natCast, toWord_natCast, toWord_natCast, toWord_natCast]
  apply BitVec.eq_of_toNat_eq
  rw [BitVec.toNat_or, BitVec.toNat_or, BitVec.toNat_or, hshift b₀ 24 (by omega),
    hshift b₁ 16 (by omega), hshift b₂ 8 (by omega), BitVec.toNat_ofNat, BitVec.toNat_ofNat,
    Nat.mod_eq_of_lt (by omega), Nat.mod_eq_of_lt (by omega)]
  have e₁ : b₀ * 2 ^ 24 ||| b₁ * 2 ^ 16 = (b₀ * 256 + b₁) * 2 ^ 16 := by
    rw [or_lower b₀ 24 (by omega)]
    omega
  have e₂ : (b₀ * 256 + b₁) * 2 ^ 16 ||| b₂ * 2 ^ 8 = ((b₀ * 256 + b₁) * 256 + b₂) * 2 ^ 8 := by
    rw [or_lower (b₀ * 256 + b₁) 16 (by omega)]
    omega
  rw [e₁, e₂, or_lower _ 8 (by omega), show 2 ^ 8 = 256 from rfl]

/-- A word loaded from padded bytes is the standard's word of the block. -/
theorem toWord_loadWord_padded {bytes : List ℕ} (hbytes : ∀ b ∈ bytes, b < 256) (i t : ℕ)
    (hend : 64 * i + 4 * t + 3 < bytes.length) :
    toWord (loadWord (bytes.map Nat.cast) (64 * i + t * 4)) = messageWord (ofBytes bytes) i t := by
  have hget : ∀ j, (bytes.map (Nat.cast : ℕ → ℤ)).getD j 0 = ((bytes.getD j 0 : ℕ) : ℤ) :=
    fun j => List.getD_map (f := Nat.cast) ..
  have hlt : ∀ j, bytes.getD j 0 < 256 := by
    intro j
    by_cases hj : j < bytes.length
    · rw [List.getD_eq_getElem _ _ hj]
      exact hbytes _ (List.getElem_mem hj)
    · rw [List.getD_eq_default _ _ (by omega)]
      decide
  have htake : (bytes.drop (64 * i + 4 * t)).take 4
      = [bytes.getD (64 * i + 4 * t) 0, bytes.getD (64 * i + 4 * t + 1) 0,
        bytes.getD (64 * i + 4 * t + 2) 0, bytes.getD (64 * i + 4 * t + 3) 0] := by
    rw [List.getD_eq_getElem _ _ (by omega), List.getD_eq_getElem _ _ (by omega),
      List.getD_eq_getElem _ _ (by omega), List.getD_eq_getElem _ _ (by omega),
      List.drop_eq_getElem_cons (by omega), List.drop_eq_getElem_cons (by omega),
      List.drop_eq_getElem_cons (by omega), List.drop_eq_getElem_cons (by omega)]
    rfl
  have hbits : (ofBytes bytes).drop (512 * i + 32 * t) = ofBytes (bytes.drop (64 * i + 4 * t)) := by
    rw [← drop_ofBytes]
    congr 1
    omega
  have hfour : (ofBytes (bytes.drop (64 * i + 4 * t))).take 32
      = ofBytes ((bytes.drop (64 * i + 4 * t)).take 4) := take_ofBytes _ 4
  have hread := toWord_loadWord (bytes.map Nat.cast) (64 * i + 4 * t) (hlt _) (hlt _) (hlt _) (hlt _)
    (by rw [hget, hget, hget, hget]; rfl)
  rw [Nat.mul_comm t 4, hread]
  unfold messageWord
  rw [hbits, hfour, htake, bitsValue_four (hlt _) (hlt _) (hlt _) (hlt _)]

/-- A schedule whose first `n` words are those of `w`. -/
structure Filled (schedule : Uint32Array) (n : ℕ) (w : ℕ → Word) : Prop where
  length : schedule.length = 64
  word : ∀ t < n, schedule.getD t 0 = w t

theorem Filled.toWord_wordAt {schedule : Uint32Array} {n : ℕ} {w : ℕ → Word} (h : Filled schedule n w)
    {t : ℕ} (ht : t < n) : toWord (wordAt schedule t) = w t := by
  unfold wordAt
  rw [toWord_toNat, h.word t ht]

/-- Storing the next word. -/
theorem Filled.store {schedule : Uint32Array} {n : ℕ} {w : ℕ → Word} (h : Filled schedule n w)
    (hn : n < 64) {value : ℤ} (hvalue : toWord value = w n) :
    Filled (Digest.store schedule n value) (n + 1) w := by
  have hlength := h.length
  unfold Digest.store
  refine ⟨by rw [List.length_set, hlength], fun t ht => ?_⟩
  rcases Nat.lt_succ_iff_lt_or_eq.mp ht with hlt | rfl
  · rw [← h.word t hlt, List.getD_eq_getElem?_getD, List.getElem?_set_ne (by omega),
      List.getD_eq_getElem?_getD]
  · rw [List.getD_eq_getElem?_getD, List.getElem?_set_self (by omega), Option.getD_some, hvalue]

/-- A loop that stores the words one after the other. -/
theorem Filled.foldl {w : ℕ → Word} {step : Uint32Array → ℕ → Uint32Array} (m n : ℕ)
    (hstep : ∀ t, m ≤ t → t < m + n → ∀ schedule, Filled schedule t w → Filled (step schedule t) (t + 1) w)
    {schedule : Uint32Array} (h : Filled schedule m w) :
    Filled ((List.range' m n).foldl step schedule) (m + n) w := by
  induction n with
  | zero => exact h
  | succ n ih =>
    rw [List.range'_1_concat, List.foldl_append]
    exact hstep (m + n) (by omega) (by omega) _ (ih fun t hm hn => hstep t hm (by omega))

theorem toWord_rotateRight (x : ℤ) {n : ℕ} (hpos : 0 < n) (hlt : n < 32) :
    toWord (rotateRight x n) = (toWord x).rotateRight n := by
  have hrest : shiftCount (32 - (n : ℤ)) = 32 - n := by
    have hcast : (32 : ℤ) - n = ((32 - n : ℕ) : ℤ) := by omega
    rw [hcast, shiftCount_of_lt (by omega)]
  unfold rotateRight
  rw [toWord_bitOr, toWord_shiftRightUnsigned, toWord_shiftLeft, shiftCount_of_lt hlt, hrest,
    BitVec.rotateRight_def, Nat.mod_eq_of_lt hlt]

/-- One further word is the standard's. -/
theorem filled_extendStep {m : ℕ → Word} {t : ℕ} (hlow : 16 ≤ t) (hhigh : t < 64)
    {words : Uint32Array} (h : Filled words t (schedule m)) :
    Filled (extendStep words t) (t + 1) (schedule m) := by
  have rotate : ∀ (x : ℤ) (n : ℕ), 0 < n → n < 32 → toWord (rotateRight x n) = (toWord x).rotateRight n :=
    fun x n hpos hlt => toWord_rotateRight x hpos hlt
  have r7 := rotate (wordAt words (t - 15)) 7 (by decide) (by decide)
  have r18 := rotate (wordAt words (t - 15)) 18 (by decide) (by decide)
  have r17 := rotate (wordAt words (t - 2)) 17 (by decide) (by decide)
  have r19 := rotate (wordAt words (t - 2)) 19 (by decide) (by decide)
  have c3 : shiftCount 3 = 3 := rfl
  have c10 : shiftCount 10 = 10 := rfl
  refine h.store hhigh ?_
  rw [schedule, if_neg (by omega)]
  unfold smallSigma0 smallSigma1
  push_cast at r7 r18 r17 r19
  rw [toWord_add, toWord_add, toWord_add, toWord_bitXor, toWord_bitXor, toWord_bitXor, toWord_bitXor,
    toWord_shiftRightUnsigned, toWord_shiftRightUnsigned, r7, r18, r17, r19, c3, c10,
    h.toWord_wordAt (by omega), h.toWord_wordAt (by omega), h.toWord_wordAt (by omega),
    h.toWord_wordAt (by omega)]
  ac_rfl

/-- **The schedule of a block is the standard's**, whatever the array held before. -/
theorem filled_schedule {bytes : List ℕ} (hbytes : ∀ b ∈ bytes, b < 256) {i : ℕ}
    (hend : 64 * (i + 1) ≤ bytes.length) {words : Uint32Array} (hwords : words.length = 64) :
    Filled (extend (loadBlock (bytes.map Nat.cast) (64 * i) words)) 64
      (schedule (messageWord (ofBytes bytes) i)) := by
  have hload : Filled (loadBlock (bytes.map Nat.cast) (64 * i) words) (0 + 16)
      (schedule (messageWord (ofBytes bytes) i)) := by
    unfold loadBlock
    rw [List.range_eq_range']
    refine Filled.foldl 0 16 (fun t _ ht words hfilled => ?_) ⟨hwords, fun t ht => absurd ht (by omega)⟩
    refine hfilled.store (by omega) ?_
    rw [toWord_loadWord_padded hbytes i t (by omega), schedule, if_pos (by omega)]
  exact Filled.foldl 16 48 (fun t hlow hhigh words hfilled => filled_extendStep hlow hhigh hfilled) hload

/-! ### Rounds -/

/-- The words the variables hold. -/
def Variables.words (v : Variables) : Words where
  a := toWord v.a
  b := toWord v.b
  c := toWord v.c
  d := toWord v.d
  e := toWord v.e
  f := toWord v.f
  g := toWord v.g
  h := toWord v.h

/-- Three rotations of one number. -/
theorem toWord_rotations (x : ℤ) {p q r : ℕ} (hp : 0 < p ∧ p < 32) (hq : 0 < q ∧ q < 32)
    (hr : 0 < r ∧ r < 32) :
    toWord (bitXor (bitXor (rotateRight x p) (rotateRight x q)) (rotateRight x r))
      = (toWord x).rotateRight p ^^^ (toWord x).rotateRight q ^^^ (toWord x).rotateRight r := by
  rw [toWord_bitXor, toWord_bitXor, toWord_rotateRight x hp.1 hp.2, toWord_rotateRight x hq.1 hq.2,
    toWord_rotateRight x hr.1 hr.2]

/-- One round on numbers is the round on their words. -/
theorem words_roundStep {words : Uint32Array} {w : ℕ → Word} (h : Filled words 64 w) (v : Variables)
    {t : ℕ} (ht : t < 64) : (roundStep words v t).words = round w v.words t := by
  have hzero : ∀ x, toWord (shiftRightUnsigned x 0) = toWord x := by
    intro x
    rw [shiftRightUnsigned_zero, toWord_toNat]
  have hbig1 : toWord (bitXor (bitXor (rotateRight v.e 6) (rotateRight v.e 11)) (rotateRight v.e 25))
      = bigSigma1 (toWord v.e) :=
    toWord_rotations v.e (p := 6) (q := 11) (r := 25) (by decide) (by decide) (by decide)
  have hbig0 : toWord (bitXor (bitXor (rotateRight v.a 2) (rotateRight v.a 13)) (rotateRight v.a 22))
      = bigSigma0 (toWord v.a) :=
    toWord_rotations v.a (p := 2) (q := 13) (r := 22) (by decide) (by decide) (by decide)
  have hchoice : toWord (bitXor (bitAnd v.e v.f) (bitAnd (bitNot v.e) v.g))
      = ch (toWord v.e) (toWord v.f) (toWord v.g) := by
    rw [toWord_bitXor, toWord_bitAnd, toWord_bitAnd, toWord_bitNot]
    rfl
  have hmajority : toWord (bitXor (bitXor (bitAnd v.a v.b) (bitAnd v.a v.c)) (bitAnd v.b v.c))
      = maj (toWord v.a) (toWord v.b) (toWord v.c) := by
    rw [toWord_bitXor, toWord_bitXor, toWord_bitAnd, toWord_bitAnd, toWord_bitAnd]
    rfl
  have hconstant : toWord (wordAt ROUND_CONSTANTS t) = k t := toWord_toNat _
  have hword : toWord (wordAt words t) = w t := h.toWord_wordAt ht
  ext1
  · change toWord (shiftRightUnsigned (shiftRightUnsigned _ 0 + shiftRightUnsigned _ 0) 0) = _
    rw [hzero, toWord_add, hzero, hzero, toWord_add, toWord_add, toWord_add, toWord_add, toWord_add,
      hbig1, hchoice, hconstant, hword, hbig0, hmajority]
    rfl
  · rfl
  · rfl
  · rfl
  · change toWord (shiftRightUnsigned (v.d + shiftRightUnsigned _ 0) 0) = _
    rw [hzero, toWord_add, hzero, toWord_add, toWord_add, toWord_add, toWord_add, hbig1, hchoice,
      hconstant, hword]
    rfl
  · rfl
  · rfl
  · rfl

theorem words_rounds {words : Uint32Array} {w : ℕ → Word} (h : Filled words 64 w) (indices : List ℕ)
    (hindices : ∀ t ∈ indices, t < 64) (v : Variables) :
    (indices.foldl (roundStep words) v).words = indices.foldl (round w) v.words := by
  induction indices generalizing v with
  | nil => rfl
  | cons t rest ih =>
    rw [List.foldl_cons, List.foldl_cons, ← words_roundStep h v (hindices t List.mem_cons_self)]
    exact ih (fun t ht => hindices t (List.mem_cons_of_mem _ ht)) _

/-! ### Blocks -/

theorem words_variablesOf (hash : Words) : (variablesOf hash.toList).words = hash := by
  ext1 <;> exact toWord_toNat _

theorem addVariables_toList (hash : Words) (v : Variables) :
    addVariables hash.toList v
      = Words.toList
        { a := v.words.a + hash.a
          b := v.words.b + hash.b
          c := v.words.c + hash.c
          d := v.words.d + hash.d
          e := v.words.e + hash.e
          f := v.words.f + hash.f
          g := v.words.g + hash.g
          h := v.words.h + hash.h } := by
  have hsum : ∀ (word : Word) (value : ℤ),
      toWord ((word.toNat : ℤ) + value) = toWord value + word := by
    intro word value
    rw [toWord_add, toWord_toNat, BitVec.add_comm]
  change [toWord ((hash.a.toNat : ℤ) + v.a), toWord ((hash.b.toNat : ℤ) + v.b),
    toWord ((hash.c.toNat : ℤ) + v.c), toWord ((hash.d.toNat : ℤ) + v.d),
    toWord ((hash.e.toNat : ℤ) + v.e), toWord ((hash.f.toNat : ℤ) + v.f),
    toWord ((hash.g.toNat : ℤ) + v.g), toWord ((hash.h.toNat : ℤ) + v.h)] = _
  rw [hsum, hsum, hsum, hsum, hsum, hsum, hsum, hsum]
  rfl

/-- **One block is mixed in as the standard mixes it in.** -/
theorem blockStep_eq {bytes : List ℕ} (hbytes : ∀ b ∈ bytes, b < 256) {i : ℕ}
    (hend : 64 * (i + 1) ≤ bytes.length) (hash : Words) {words : Uint32Array}
    (hwords : words.length = 64) :
    (blockStep (bytes.map Nat.cast) (64 * i) hash.toList words).1
        = (compress (messageWord (ofBytes bytes) i) hash).toList
      ∧ (blockStep (bytes.map Nat.cast) (64 * i) hash.toList words).2.length = 64 := by
  have hfilled := filled_schedule hbytes hend hwords
  unfold blockStep compress
  dsimp only
  refine ⟨?_, hfilled.length⟩
  rw [addVariables_toList, words_rounds hfilled _ (fun t ht => List.mem_range.mp ht),
    words_variablesOf]

theorem blocks_eq {bytes : List ℕ} (hbytes : ∀ b ∈ bytes, b < 256) {total : ℕ}
    (htotal : bytes.length = 64 * total) (remaining i : ℕ) (hremaining : i + remaining = total)
    (hash : Words) {words : Uint32Array} (hwords : words.length = 64) :
    blocks (bytes.map Nat.cast) (64 * i) hash.toList words
      = ((List.range' i remaining).foldl
          (fun hash i => compress (messageWord (ofBytes bytes) i) hash) hash).toList := by
  have hlength : (bytes.map (Nat.cast : ℕ → ℤ)).length = 64 * total := by
    rw [List.length_map, htotal]
  induction remaining generalizing i hash words with
  | zero =>
    rw [blocks, if_neg (by omega)]
    rfl
  | succ remaining ih =>
    obtain ⟨hstate, hschedule⟩ := blockStep_eq hbytes (i := i) (by omega) hash hwords
    rw [blocks, if_pos (by omega), hstate, show 64 * i + 64 = 64 * (i + 1) from rfl,
      ih (i + 1) (by omega) _ hschedule, List.range'_succ, List.foldl_cons]

/-! ### Hexadecimal -/

/-- A number below `16ᵏ`, padded to `k` digits. -/
theorem leftpad_hexText {n k : ℕ} (hk : 0 < k) (hn : n < 16 ^ k) :
    (hexText n).leftpad k '0' = (List.range k).map fun i => hexDigit (n / 16 ^ (k - 1 - i) % 16) := by
  by_cases hzero : n = 0
  · have hdigit : ∀ i, hexDigit (0 / 16 ^ i % 16) = '0' := by
      intro i
      rw [Nat.zero_div]
      rfl
    obtain ⟨k, rfl⟩ := Nat.exists_eq_add_of_lt hk
    subst hzero
    simp only [hdigit, List.map_const', List.length_range]
    change List.replicate (0 + k + 1 - 1) '0' ++ ['0'] = _
    rw [Nat.add_sub_cancel, ← List.replicate_succ']
  have hlength : (Nat.digits 16 n).length ≤ k := (Nat.digits_length_le_iff (by decide) n).mpr hn
  unfold hexText List.leftpad
  rw [if_neg hzero, List.length_reverse, List.length_map]
  apply List.ext_getElem
  · simp only [List.length_append, List.length_replicate, List.length_reverse, List.length_map,
      List.length_range]
    omega
  intro i hi hik
  have hdigit := Nat.getD_digits n (k - 1 - i) (b := 16) (by decide)
  rw [List.length_map, List.length_range] at hik
  rw [List.getElem_map, List.getElem_range, ← hdigit, List.getElem_append]
  simp only [List.length_replicate]
  split
  · -- above the leading digit
    rw [List.getElem_replicate, List.getD_eq_default _ _ (by omega)]
    rfl
  · rw [List.getElem_reverse, List.getElem_map, List.getD_eq_getElem _ _ (by omega)]
    congr 2
    rw [List.length_map]
    omega

theorem leftpad_hexText_word (word : Word) : (hexText word.toNat).leftpad 8 '0' = hexWord word :=
  leftpad_hexText (by decide) word.isLt

/-! ### Digest -/

/-- **The digest of a string is SHA-256 of its UTF-8 bytes, and no two strings share their bytes.** -/
theorem sha256Hex_eq :
    (∀ text : List UInt16, sha256Hex text = (digest (ofBytes (encoded text))).hex)
      ∧ Function.Injective utf8Bytes := by
  refine ⟨fun text => ?_, utf8Bytes_injective⟩
  have hbytes : ∀ b ∈ padBytes (encoded text), b < 256 := by
    intro b hb
    unfold padBytes at hb
    rcases List.mem_append.mp hb with hencoded | hpadding
    · exact encoded_lt text b hencoded
    rcases List.mem_cons.mp hpadding with rfl | hrest
    · decide
    rcases List.mem_append.mp hrest with hzero | hlength
    · rw [List.eq_of_mem_replicate hzero]
      decide
    · obtain ⟨j, -, rfl⟩ := List.mem_map.mp hlength
      exact Nat.mod_lt _ (by decide)
  obtain ⟨total, htotal⟩ := Nat.dvd_of_mod_eq_zero (length_padBytes (encoded text))
  have hschedule : (List.replicate 64 (0 : Word)).length = 64 := List.length_replicate
  have hblocks := blocks_eq hbytes htotal total 0 (Nat.zero_add _) initialHash hschedule
  have hcount : (ofBytes (padBytes (encoded text))).length / 512 = total := by
    rw [length_ofBytes, htotal]
    omega
  unfold sha256Hex
  dsimp only
  rw [utf8Bytes_eq, paddedBytes_eq, show initialState = initialHash.toList from rfl]
  rw [Nat.mul_zero] at hblocks
  unfold digest Words.hex
  rw [hblocks, pad_ofBytes, hcount, List.range_eq_range']
  simp only [leftpad_hexText_word]

end FactorSage.Digest

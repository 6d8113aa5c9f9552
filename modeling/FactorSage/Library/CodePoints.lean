import Mathlib.Data.List.Basic

/-!
# Code points and their bytes

A string of 16-bit code units read by code points: a surrogate pair is one point, and any other unit
is a point by itself, half of a pair included. `utf8` encodes the points in one to four bytes each.

Both are injective (`codePoints_injective`, `utf8_injective`): the units are read back from the
points, and the first byte of a point says how many bytes it takes.
-/

namespace CodePoints

def isLead (u : ℕ) : Bool := 0xD800 ≤ u ∧ u ≤ 0xDBFF

def isTrail (u : ℕ) : Bool := 0xDC00 ≤ u ∧ u ≤ 0xDFFF

/-- The point of a surrogate pair. -/
def pairPoint (lead trail : ℕ) : ℕ := (lead - 0xD800) * 0x400 + (trail - 0xDC00) + 0x10000

/-- The code points of a string of units. -/
def codePoints : List UInt16 → List ℕ
  | [] => []
  | [u] => [u.toNat]
  | u :: v :: rest =>
    if isLead u.toNat ∧ isTrail v.toNat then pairPoint u.toNat v.toNat :: codePoints rest
    else u.toNat :: codePoints (v :: rest)

/-- The units a point is written with. -/
def pointUnits (point : ℕ) : List UInt16 :=
  if point < 0x10000 then [UInt16.ofNat point]
  else
    [UInt16.ofNat (0xD800 + (point - 0x10000) / 0x400),
      UInt16.ofNat (0xDC00 + (point - 0x10000) % 0x400)]

/-- A point in one to four bytes. -/
def pointBytes (point : ℕ) : List ℕ :=
  if point < 0x80 then [point]
  else if point < 0x800 then [0xC0 + point / 64, 0x80 + point % 64]
  else if point < 0x10000 then
    [0xE0 + point / 4096, 0x80 + point / 64 % 64, 0x80 + point % 64]
  else
    [0xF0 + point / 262144, 0x80 + point / 4096 % 64, 0x80 + point / 64 % 64, 0x80 + point % 64]

/-- The bytes of a list of points. -/
def utf8 (points : List ℕ) : List ℕ := points.flatMap pointBytes

/-! ### Units -/

theorem pairPoint_lt {lead trail : ℕ} (hlead : isLead lead = true) (htrail : isTrail trail = true) :
    pairPoint lead trail < 0x110000 := by
  unfold isLead at hlead
  unfold isTrail at htrail
  rw [decide_eq_true_eq] at hlead htrail
  unfold pairPoint
  omega

theorem pointUnits_toNat (u : UInt16) : pointUnits u.toNat = [u] := by
  unfold pointUnits
  rw [if_pos u.toNat_lt, UInt16.ofNat_toNat]

theorem pointUnits_pairPoint {u v : UInt16} (hlead : isLead u.toNat = true)
    (htrail : isTrail v.toNat = true) : pointUnits (pairPoint u.toNat v.toNat) = [u, v] := by
  unfold isLead at hlead
  unfold isTrail at htrail
  rw [decide_eq_true_eq] at hlead htrail
  have hfirst : 0xD800 + (pairPoint u.toNat v.toNat - 0x10000) / 0x400 = u.toNat := by
    unfold pairPoint
    omega
  have hsecond : 0xDC00 + (pairPoint u.toNat v.toNat - 0x10000) % 0x400 = v.toNat := by
    unfold pairPoint
    omega
  unfold pointUnits
  rw [if_neg (by unfold pairPoint; omega), hfirst, hsecond, UInt16.ofNat_toNat, UInt16.ofNat_toNat]

/-- The units are read back from the points. -/
theorem flatMap_pointUnits (units : List UInt16) :
    (codePoints units).flatMap pointUnits = units := by
  fun_induction codePoints units with
  | case1 => rfl
  | case2 u =>
    rw [List.flatMap_cons, pointUnits_toNat]
    rfl
  | case3 u v rest hpair ih =>
    rw [List.flatMap_cons, pointUnits_pairPoint hpair.1 hpair.2, ih]
    rfl
  | case4 u v rest hpair ih =>
    rw [List.flatMap_cons, pointUnits_toNat, ih]
    rfl

/-- **Distinct strings have distinct code points.** -/
theorem codePoints_injective : Function.Injective codePoints := by
  intro left right h
  rw [← flatMap_pointUnits left, h, flatMap_pointUnits]

/-- A code point is below `0x110000`. -/
theorem lt_of_mem_codePoints (units : List UInt16) : ∀ point ∈ codePoints units, point < 0x110000 := by
  have hunit : ∀ u : UInt16, u.toNat < 0x110000 := fun u => Nat.lt_trans u.toNat_lt (by decide)
  fun_induction codePoints units with
  | case1 => simp
  | case2 u =>
    intro point hpoint
    rw [List.mem_singleton.mp hpoint]
    exact hunit u
  | case3 u v rest hpair ih =>
    intro point hpoint
    rcases List.mem_cons.mp hpoint with rfl | hrest
    · exact pairPoint_lt hpair.1 hpair.2
    · exact ih point hrest
  | case4 u v rest hpair ih =>
    intro point hpoint
    rcases List.mem_cons.mp hpoint with rfl | hrest
    · exact hunit u
    · exact ih point hrest

/-! ### Bytes -/

theorem byte_lt_of_mem_pointBytes {point : ℕ} (h : point < 0x110000) :
    ∀ b ∈ pointBytes point, b < 256 := by
  intro b hb
  unfold pointBytes at hb
  split_ifs at hb <;> simp only [List.mem_cons, List.not_mem_nil, or_false] at hb <;> omega

theorem byte_lt_of_mem_utf8 {points : List ℕ} (h : ∀ point ∈ points, point < 0x110000) :
    ∀ b ∈ utf8 points, b < 256 := by
  intro b hb
  obtain ⟨point, hpoint, hmem⟩ := List.mem_flatMap.mp hb
  exact byte_lt_of_mem_pointBytes (h point hpoint) b hmem

/-- The point at the front of a list of bytes: the first byte says how many there are. -/
def readPoint : List ℕ → Option (ℕ × List ℕ)
  | [] => none
  | b :: rest =>
    if b < 0x80 then some (b, rest)
    else if b < 0xE0 then
      match rest with
      | c :: rest => some ((b - 0xC0) * 64 + (c - 0x80), rest)
      | _ => none
    else if b < 0xF0 then
      match rest with
      | c :: d :: rest => some (((b - 0xE0) * 64 + (c - 0x80)) * 64 + (d - 0x80), rest)
      | _ => none
    else
      match rest with
      | c :: d :: e :: rest =>
        some ((((b - 0xF0) * 64 + (c - 0x80)) * 64 + (d - 0x80)) * 64 + (e - 0x80), rest)
      | _ => none

/-- A point is read back from the front of any continuation. -/
theorem readPoint_pointBytes {point : ℕ} (h : point < 0x110000) (more : List ℕ) :
    readPoint (pointBytes point ++ more) = some (point, more) := by
  unfold pointBytes
  split_ifs with hone htwo hthree
  · exact if_pos hone
  · have hpoint : (0xC0 + point / 64 - 0xC0) * 64 + (0x80 + point % 64 - 0x80) = point := by omega
    dsimp only [List.cons_append, List.nil_append, readPoint]
    rw [if_neg (by omega), if_pos (by omega), hpoint]
  · have hpoint : ((0xE0 + point / 4096 - 0xE0) * 64 + (0x80 + point / 64 % 64 - 0x80)) * 64
        + (0x80 + point % 64 - 0x80) = point := by omega
    dsimp only [List.cons_append, List.nil_append, readPoint]
    rw [if_neg (by omega), if_neg (by omega), if_pos (by omega), hpoint]
  · have hpoint : (((0xF0 + point / 262144 - 0xF0) * 64 + (0x80 + point / 4096 % 64 - 0x80)) * 64
        + (0x80 + point / 64 % 64 - 0x80)) * 64 + (0x80 + point % 64 - 0x80) = point := by omega
    dsimp only [List.cons_append, List.nil_append, readPoint]
    rw [if_neg (by omega), if_neg (by omega), if_neg (by omega), hpoint]

theorem pointBytes_append_inj {p q : ℕ} (hp : p < 0x110000) (hq : q < 0x110000) {u v : List ℕ}
    (h : pointBytes p ++ u = pointBytes q ++ v) : p = q ∧ u = v := by
  have hread := readPoint_pointBytes hp u
  rw [h, readPoint_pointBytes hq v] at hread
  obtain ⟨rfl, rfl⟩ := Prod.mk.inj (Option.some.inj hread)
  exact ⟨rfl, rfl⟩

/-- **Distinct lists of points have distinct bytes.** -/
theorem utf8_injective {ps qs : List ℕ} (hp : ∀ p ∈ ps, p < 0x110000)
    (hq : ∀ q ∈ qs, q < 0x110000) (h : utf8 ps = utf8 qs) : ps = qs := by
  have hne : ∀ p, pointBytes p ≠ [] := by
    intro p
    unfold pointBytes
    split_ifs <;> simp
  induction ps generalizing qs with
  | nil =>
    cases qs with
    | nil => rfl
    | cons q rest =>
      unfold utf8 at h
      rw [List.flatMap_nil, List.flatMap_cons] at h
      exact absurd (List.append_eq_nil_iff.mp h.symm).1 (hne q)
  | cons p rest ih =>
    cases qs with
    | nil =>
      unfold utf8 at h
      rw [List.flatMap_nil, List.flatMap_cons] at h
      exact absurd (List.append_eq_nil_iff.mp h).1 (hne p)
    | cons q rest' =>
      unfold utf8 at h
      rw [List.flatMap_cons, List.flatMap_cons] at h
      obtain ⟨rfl, hrest⟩ := pointBytes_append_inj (hp p List.mem_cons_self)
        (hq q List.mem_cons_self) h
      rw [ih (fun p hmem => hp p (List.mem_cons_of_mem _ hmem))
        (fun q hmem => hq q (List.mem_cons_of_mem _ hmem)) hrest]

end CodePoints

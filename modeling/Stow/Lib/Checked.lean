import Mathlib.Algebra.BigOperators.Ring.List
import Mathlib.Order.Lattice
import Mathlib.Tactic.Linarith
import Mathlib.Tactic.Ring

/-! Fixed-width integer arithmetic on mathematical integers, with overflow made explicit. -/
namespace Stow.Lib

/-- `2 ^ 127 - 1` -/
def i128Max : Int := 170141183460469231731687303715884105727

def i128Min : Int := -170141183460469231731687303715884105728

/-- `2 ^ 64 - 1` -/
def u64Max : Nat := 18446744073709551615

/-- `2 ^ 32 - 1` -/
def u32Max : Nat := 4294967295

def FitsI128 (x : Int) : Prop := i128Min ≤ x ∧ x ≤ i128Max

instance (x : Int) : Decidable (FitsI128 x) := inferInstanceAs (Decidable (_ ∧ _))

theorem FitsI128.of_le {x y : Int} (h : FitsI128 y) (h₀ : 0 ≤ x) (hle : x ≤ y) : FitsI128 x :=
  ⟨le_trans (by decide) h₀, hle.trans h.2⟩

/-- The value itself when it fits `i128`. -/
def toI128 (x : Int) : Option Int := if FitsI128 x then some x else none

def checkedAdd (a b : Int) : Option Int := toI128 (a + b)

def checkedSub (a b : Int) : Option Int := toI128 (a - b)

def checkedMul (a b : Int) : Option Int := toI128 (a * b)

/-- Division of `i128` values, which rounds towards zero. -/
def checkedDiv (a b : Int) : Option Int := if b = 0 then none else toI128 (a.tdiv b)

/-- `a * b / d` with the product kept at double width. -/
def mulDivWide (a b d : Int) : Option Int := if d = 0 then none else toI128 ((a * b).tdiv d)

def checkedAddU64 (a b : Nat) : Option Nat := if a + b ≤ u64Max then some (a + b) else none

def checkedMulU64 (a b : Nat) : Option Nat := if a * b ≤ u64Max then some (a * b) else none

def checkedAddU32 (a b : Nat) : Option Nat := if a + b ≤ u32Max then some (a + b) else none

def saturatingAddU64 (a b : Nat) : Nat := min (a + b) u64Max

def saturatingMulU64 (a b : Nat) : Nat := min (a * b) u64Max

def saturatingAddU32 (a b : Nat) : Nat := min (a + b) u32Max

@[simp] theorem toI128_some {x y : Int} : toI128 x = some y ↔ FitsI128 x ∧ x = y := by
  unfold toI128
  split_ifs with h <;> simp [h]

@[simp] theorem checkedAdd_some {a b y : Int} :
    checkedAdd a b = some y ↔ FitsI128 (a + b) ∧ a + b = y := toI128_some

@[simp] theorem checkedSub_some {a b y : Int} :
    checkedSub a b = some y ↔ FitsI128 (a - b) ∧ a - b = y := toI128_some

@[simp] theorem checkedMul_some {a b y : Int} :
    checkedMul a b = some y ↔ FitsI128 (a * b) ∧ a * b = y := toI128_some

@[simp] theorem checkedDiv_some {a b y : Int} :
    checkedDiv a b = some y ↔ b ≠ 0 ∧ FitsI128 (a.tdiv b) ∧ a.tdiv b = y := by
  unfold checkedDiv
  split_ifs with h <;> simp [h]

/-- The rules that run a sequence of checked operations. -/
theorem checked_rules : (∀ {α β : Type} {o : Option α} {f : α → Option β} {b : β},
      (o >>= f) = some b ↔ ∃ a, o = some a ∧ f a = some b) ∧
    type_of% (And.intro @checkedAdd_some <| And.intro @checkedSub_some <|
      And.intro @checkedMul_some <| And.intro @checkedDiv_some @Option.some.injEq.{0}) :=
  ⟨Option.bind_eq_some_iff, checkedAdd_some, checkedSub_some, checkedMul_some, checkedDiv_some,
    @Option.some.injEq⟩

@[simp] theorem mulDivWide_some {a b d y : Int} :
    mulDivWide a b d = some y ↔ d ≠ 0 ∧ FitsI128 ((a * b).tdiv d) ∧ (a * b).tdiv d = y := by
  unfold mulDivWide
  split_ifs with h <;> simp [h]

@[simp] theorem checkedAddU64_some {a b y : Nat} :
    checkedAddU64 a b = some y ↔ a + b ≤ u64Max ∧ a + b = y := by
  unfold checkedAddU64
  split_ifs with h <;> simp [h]

@[simp] theorem checkedMulU64_some {a b y : Nat} :
    checkedMulU64 a b = some y ↔ a * b ≤ u64Max ∧ a * b = y := by
  unfold checkedMulU64
  split_ifs with h <;> simp [h]

@[simp] theorem checkedAddU32_some {a b y : Nat} :
    checkedAddU32 a b = some y ↔ a + b ≤ u32Max ∧ a + b = y := by
  unfold checkedAddU32
  split_ifs with h <;> simp [h]

theorem tdiv_nonneg_mul_le {a d : Int} (ha : 0 ≤ a) (hd : 0 < d) : a.tdiv d * d ≤ a := by
  rw [Int.tdiv_eq_ediv_of_nonneg ha]
  exact Int.ediv_mul_le a hd.ne'

theorem lt_tdiv_add_one_mul {a d : Int} (ha : 0 ≤ a) (hd : 0 < d) : a < (a.tdiv d + 1) * d := by
  rw [Int.tdiv_eq_ediv_of_nonneg ha]
  exact Int.lt_ediv_add_one_mul_self a hd

theorem tdiv_nonneg {a d : Int} (ha : 0 ≤ a) (hd : 0 ≤ d) : 0 ≤ a.tdiv d :=
  Int.tdiv_nonneg ha hd

/-- The part of an amount at a rate in basis points, rounded towards zero. -/
def bpsPart (bps : Nat) (amount : Int) : Int := (amount * bps).tdiv 10000

theorem bpsPart_nonneg {bps : Nat} {amount : Int} (h : 0 ≤ amount) : 0 ≤ bpsPart bps amount :=
  tdiv_nonneg (mul_nonneg h (Int.natCast_nonneg bps)) (by norm_num)

theorem bpsPart_le {bps : Nat} {amount : Int} (h : 0 ≤ amount) (hb : bps ≤ 10000) :
    bpsPart bps amount ≤ amount := by
  have hm : amount * bps ≤ amount * 10000 :=
    mul_le_mul_of_nonneg_left (by exact_mod_cast hb) h
  have hle := tdiv_nonneg_mul_le (mul_nonneg h (Int.natCast_nonneg bps)) (d := 10000) (by norm_num)
  unfold bpsPart
  omega

/-- Rounding down takes less than one divisor from each amount of a list. -/
theorem floor_sum_bounds {d : Int} (hd : 0 < d) (xs : List Int) :
    (xs.map (· / d)).sum * d ≤ xs.sum ∧
      xs.sum + xs.length ≤ (xs.map (· / d)).sum * d + xs.length * d := by
  induction xs with
  | nil => simp
  | cons x xs ih =>
    have hle : x / d * d ≤ x := Int.ediv_mul_le x hd.ne'
    have hlt : x < (x / d + 1) * d := Int.lt_ediv_add_one_mul_self x hd
    simp only [List.map_cons, List.sum_cons, List.length_cons, Nat.cast_succ, add_mul, one_mul]
      at hlt ⊢
    omega

/-- Nothing is lost exactly when nothing is rounded. -/
theorem floor_sum_eq_iff {d : Int} (hd : 0 < d) (xs : List Int) :
    (xs.map (· / d)).sum * d = xs.sum ↔ ∀ x ∈ xs, d ∣ x := by
  induction xs with
  | nil => simp
  | cons x xs ih =>
    have hx : x / d * d ≤ x := Int.ediv_mul_le x hd.ne'
    have hxs := (floor_sum_bounds hd xs).1
    have hdv : d ∣ x ↔ x / d * d = x := ⟨Int.ediv_mul_cancel, Dvd.intro_left _⟩
    rw [List.forall_mem_cons, ← ih, hdv, List.map_cons, List.sum_cons, List.sum_cons, add_mul]
    omega

/-- A pool split by weights leaves less than one unit for each of them. -/
theorem floor_split_bounds {d : Int} (hd : 0 < d) {ws : List Int} (hs : ws.sum = d) (pool : Int) :
    let paid := (ws.map (fun w => pool * w / d)).sum
    paid ≤ pool ∧ pool < paid + ws.length := by
  intro paid
  have hps : 0 < ws.length := by
    apply List.length_pos_of_ne_nil
    rintro rfl
    exact hd.ne hs
  obtain ⟨hle, hlt⟩ := floor_sum_bounds hd (ws.map (pool * ·))
  have hp : ((ws.map (pool * ·)).map (· / d)).sum = paid := by rw [List.map_map]; rfl
  rw [hp, List.sum_map_mul_left, List.map_id', hs] at hle hlt
  rw [List.length_map, ← add_mul] at hlt
  exact ⟨le_of_mul_le_mul_right hle hd, lt_of_mul_lt_mul_right (by omega) hd.le⟩

end Stow.Lib

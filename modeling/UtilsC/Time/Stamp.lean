import UtilsC.Time.Wheel

/-!
# Stamps as numbers, wheels as digits

A stamp is a number of milliseconds in mixed radix, and each wheel turns one digit.

* `millisecondNext_eq` says where the 32-bit arithmetic of a deadline is exact.
* `place now next` is where a timer with a deadline ahead of the clock belongs: the wheel of the
  highest digit in which the two differ.
* For each wheel (`Level`) the lemmas say what its stage does in these terms: when it is due, what
  it adds to the clock, which list it visits and what it does with a timer it finds there.
-/

namespace UtilsC
namespace Time

/-! ## Stamps as numbers -/

def Stamp.val (t : Stamp) : Nat :=
  t.ms + t.s * 1000 + t.m * 60000 + t.h * 3600000 + t.d * 86400000

theorem Stamp.ext_val {a b : Stamp} (hab : a.val = b.val) : a = b := by
  rcases a with ⟨⟨ams, _⟩, ⟨as, _⟩, ⟨am, _⟩, ⟨ah, _⟩, ⟨ad, _⟩⟩
  rcases b with ⟨⟨bms, _⟩, ⟨bs, _⟩, ⟨bm, _⟩, ⟨bh, _⟩, ⟨bd, _⟩⟩
  simp only [Stamp.val] at hab
  simp only [Stamp.mk.injEq, Fin.mk.injEq]
  omega

theorem Stamp.val_ofMillisecond {x : Nat} (hx : x < 65536 * 86400000) :
    (Stamp.ofMillisecond x).val = x := by
  simp only [Stamp.val, Stamp.ofMillisecond, Fin.val_ofNat]
  omega

theorem Stamp.val_lt (t : Stamp) : t.val < 86400000 * 65536 := by
  simp only [Stamp.val]
  omega

theorem millisecondNow_eq_bmod (idx : Stamp) :
    millisecondNow idx = Int.bmod (idx.val : Int) (2 ^ 32) := by
  have hsum : (idx.ms + idx.s * 1000 + idx.m * 1000 * 60 + idx.h * 1000 * 60 * 60 +
      idx.d * 1000 * 60 * 60 * 24 : Int) = (idx.val : Nat) := by
    simp only [Stamp.val]
    omega
  exact congrArg (fun x : Int => Int.bmod x (2 ^ 32)) hsum

theorem millisecondNext_eq {idx : Stamp} {n : Nat} (hnow : idx.val < 2 ^ 31)
    (hn : n < timerIntervalMax) : millisecondNext idx n = idx.val + n := by
  have hmax : n < 20 * 365 * 24 * 60 * 60 * 1000 := hn
  rw [millisecondNext, millisecondNow_eq_bmod, Int.bmod_def]
  generalize idx.val = now at hnow
  omega

/-- The arithmetic of a deadline is exact while the clock fits an `int`. -/
theorem val_next {idx : Stamp} {n : Nat} (hnow : idx.val < 2 ^ 31) (hn : n < timerIntervalMax) :
    (Stamp.ofMillisecond (millisecondNext idx n)).val = idx.val + n := by
  rw [millisecondNext_eq hnow hn, Stamp.val_ofMillisecond]
  simp only [timerIntervalMax] at hn
  omega

/-! ## Where a timer belongs -/

/-- The day list for a deadline on another day, else the hour list of a deadline in another hour,
and so on down. -/
def place (now next : Stamp) : Slot :=
  if next.d ≠ now.d then Slot.d 0
  else if next.h ≠ now.h then Slot.h next.h
  else if next.m ≠ now.m then Slot.m next.m
  else if next.s ≠ now.s then Slot.s next.s
  else Slot.ms next.ms

/-- A deadline ahead of the clock is larger in the highest digit that differs, so the tests for 0
that come with the comparisons do nothing. -/
theorem reinsertSlot_eq_place {now next : Stamp} (hlt : now.val < next.val) :
    reinsertSlot now next = place now next := by
  -- the larger number has the larger digit where the two first differ
  have hms := now.ms.isLt
  have hs := now.s.isLt
  have hm := now.m.isLt
  have hh := now.h.isLt
  simp only [Stamp.val] at hlt
  simp only [reinsertSlot, place, ne_eq, Fin.ext_iff, Fin.val_zero]
  split_ifs <;> first | rfl | omega

/-! ## The wheels as places of a number

A wheel counts units of `unit` milliseconds; `quot` is the clock in these units, so that two
stamps have the same `quot` exactly when they agree in the wheel's digit and all higher ones. -/

inductive Level
  | ms
  | s
  | m
  | h
  | d
  deriving DecidableEq

namespace Level

def stage : Level → Stage
  | .ms => msStage
  | .s => sStage
  | .m => mStage
  | .h => hStage
  | .d => dStage

def unit : Level → Nat
  | .ms => 1
  | .s => 1000
  | .m => 60000
  | .h => 3600000
  | .d => 86400000

/-- One full turn of the wheel. -/
def turn : Level → Nat
  | .ms => 1000
  | .s => 60000
  | .m => 3600000
  | .h => 86400000
  | .d => 86400000 * 65536

def quot (k : Level) (t : Stamp) : Nat := t.val / k.unit

/-- The stamps agree in the digits above the wheel's. -/
def Agree (k : Level) (a b : Stamp) : Prop := a.val / k.turn = b.val / k.turn

/-- The stamps have the same digits from the wheel's up. -/
def SameDigits : Level → Stamp → Stamp → Prop
  | .ms, a, b => (((b.d = a.d ∧ b.h = a.h) ∧ b.m = a.m) ∧ b.s = a.s) ∧ b.ms = a.ms
  | .s, a, b => ((b.d = a.d ∧ b.h = a.h) ∧ b.m = a.m) ∧ b.s = a.s
  | .m, a, b => (b.d = a.d ∧ b.h = a.h) ∧ b.m = a.m
  | .h, a, b => b.d = a.d ∧ b.h = a.h
  | .d, a, b => b.d = a.d

/-- The wheel's list for a deadline. -/
def slot : Level → Stamp → Slot
  | .ms, t => Slot.ms t.ms
  | .s, t => Slot.s t.s
  | .m, t => Slot.m t.m
  | .h, t => Slot.h t.h
  | .d, _ => Slot.d 0

end Level

def levels : List Level := [.ms, .s, .m, .h, .d]

theorem stages_eq : stages = levels.map Level.stage := rfl

namespace Level

variable {k l : Level} {a b idx next : Stamp}

/-- Equal numbers have the same last digit and the same rest. -/
theorem quot_digit {x y n : Nat} (i j : Fin n) :
    x * n + i = y * n + j ↔ x = y ∧ j = i := by
  have hn : 0 < n := i.pos
  constructor
  · intro heq
    have hdiv : ∀ (z : Nat) (c : Fin n), (z * n + c) / n = z := fun z c => by
      rw [Nat.mul_comm, Nat.mul_add_div hn, Nat.div_eq_of_lt c.isLt, Nat.add_zero]
    have hxy : x = y := by rw [← hdiv x i, heq, hdiv y j]
    subst hxy
    exact ⟨rfl, Fin.ext (Nat.add_left_cancel heq).symm⟩
  · rintro ⟨rfl, rfl⟩
    rfl

theorem quot_d (t : Stamp) : Level.d.quot t = t.d := by
  simp only [quot, unit, Stamp.val]
  omega

theorem quot_h (t : Stamp) : Level.h.quot t = Level.d.quot t * 24 + t.h := by
  simp only [quot, unit, Stamp.val]
  omega

theorem quot_m (t : Stamp) : Level.m.quot t = Level.h.quot t * 60 + t.m := by
  simp only [quot, unit, Stamp.val]
  omega

theorem quot_s (t : Stamp) : Level.s.quot t = Level.m.quot t * 60 + t.s := by
  simp only [quot, unit, Stamp.val]
  omega

theorem quot_ms (t : Stamp) : Level.ms.quot t = Level.s.quot t * 1000 + t.ms := by
  simp only [quot, unit, Stamp.val]
  omega

theorem quot_eq_iff : k.quot a = k.quot b ↔ k.SameDigits a b := by
  have hd : Level.d.quot a = Level.d.quot b ↔ b.d = a.d := by
    rw [quot_d, quot_d, Fin.ext_iff, eq_comm]
  have hh : Level.h.quot a = Level.h.quot b ↔ b.d = a.d ∧ b.h = a.h := by
    rw [quot_h, quot_h, quot_digit, hd]
  have hm : Level.m.quot a = Level.m.quot b ↔ (b.d = a.d ∧ b.h = a.h) ∧ b.m = a.m := by
    rw [quot_m, quot_m, quot_digit, hh]
  have hs : Level.s.quot a = Level.s.quot b ↔
      ((b.d = a.d ∧ b.h = a.h) ∧ b.m = a.m) ∧ b.s = a.s := by
    rw [quot_s, quot_s, quot_digit, hm]
  cases k with
  | ms => rw [quot_ms, quot_ms, quot_digit, hs, SameDigits]
  | s => exact hs
  | m => exact hm
  | h => exact hh
  | d => exact hd

theorem due_iff : k.stage.due idx = true ↔ idx.val % k.unit = 0 := by
  rcases idx with ⟨⟨ms, hms⟩, ⟨s, hs⟩, ⟨m, hm⟩, ⟨h, hh⟩, ⟨d, hd⟩⟩
  cases k <;>
    simp only [stage, unit, msStage, sStage, mStage, hStage, dStage, Stamp.val, Fin.ext_iff,
      Fin.val_zero, decide_eq_true_eq, true_iff] <;>
    omega

theorem advance_val (hdue : idx.val % k.unit = 0) :
    ((idx.val + k.unit) % k.turn = 0 ∧ (k.stage.advance idx).val + k.turn = idx.val + k.unit) ∨
      ((idx.val + k.unit) % k.turn ≠ 0 ∧ (k.stage.advance idx).val = idx.val + k.unit) := by
  rcases idx with ⟨⟨ms, hms⟩, ⟨s, hs⟩, ⟨m, hm⟩, ⟨h, hh⟩, ⟨d, hd⟩⟩
  cases k <;>
    simp only [stage, unit, turn, msStage, sStage, mStage, hStage, dStage, Stamp.val, Fin.val_add,
      Fin.val_one] at hdue ⊢ <;>
    omega

theorem place_eq (hagree : k.Agree a b) (hdiff : k = .ms ∨ k.quot a ≠ k.quot b) :
    place a b = k.slot b := by
  -- the digits above the wheel's are those of the next wheel, and its own is another
  cases k with
  | ms =>
      rcases (quot_eq_iff (k := .s)).1 hagree with ⟨⟨⟨hd, hh⟩, hm⟩, hs⟩
      simp [place, slot, hd, hh, hm, hs]
  | s =>
      rcases (quot_eq_iff (k := .m)).1 hagree with ⟨⟨hd, hh⟩, hm⟩
      have hs : b.s ≠ a.s := fun hs =>
        hdiff.resolve_left (by decide) (quot_eq_iff.2 ⟨⟨⟨hd, hh⟩, hm⟩, hs⟩)
      simp [place, slot, hd, hh, hm, hs]
  | m =>
      rcases (quot_eq_iff (k := .h)).1 hagree with ⟨hd, hh⟩
      have hm : b.m ≠ a.m := fun hm =>
        hdiff.resolve_left (by decide) (quot_eq_iff.2 ⟨⟨hd, hh⟩, hm⟩)
      simp [place, slot, hd, hh, hm]
  | h =>
      have hd : b.d = a.d := (quot_eq_iff (k := .d)).1 hagree
      have hh : b.h ≠ a.h := fun hh =>
        hdiff.resolve_left (by decide) (quot_eq_iff.2 ⟨hd, hh⟩)
      simp [place, slot, hd, hh]
  | d =>
      have hd : b.d ≠ a.d := fun hd =>
        hdiff.resolve_left (by decide) (quot_eq_iff.2 hd)
      simp [place, slot, hd]

/-- The wheel that `place` names. -/
theorem exists_level (a b : Stamp) :
    ∃ k : Level, k.Agree a b ∧ (k = .ms ∨ k.quot a ≠ k.quot b) := by
  -- from the lowest wheel up, the first one above which the two agree
  by_cases hs : Level.s.quot a = Level.s.quot b
  · exact ⟨.ms, hs, Or.inl rfl⟩
  · by_cases hm : Level.m.quot a = Level.m.quot b
    · exact ⟨.s, hm, Or.inr hs⟩
    · by_cases hh : Level.h.quot a = Level.h.quot b
      · exact ⟨.m, hh, Or.inr hm⟩
      · by_cases hd : Level.d.quot a = Level.d.quot b
        · exact ⟨.h, hd, Or.inr hh⟩
        · refine ⟨.d, ?_, Or.inr hd⟩
          have ha := a.val_lt
          have hb := b.val_lt
          simp only [Agree, turn]
          omega

theorem slot_ne (hkl : l ≠ k) (a b : Stamp) : l.slot a ≠ k.slot b := by
  cases l <;> cases k <;> simp [slot] at hkl ⊢

theorem stage_slot (k : Level) (idx : Stamp) : k.stage.slot idx = k.slot idx := by
  cases k <;> rfl

/-- A lower wheel makes whole turns in the unit of a higher one. -/
theorem turn_dvd_unit (hkl : l ≠ k) : l.turn ∣ k.unit ∨ (k.turn ∣ l.unit ∧ l ≠ .ms) := by
  cases k <;> cases l <;> first | exact absurd rfl hkl | decide

theorem unit_dvd_turn (k : Level) : k.unit ∣ k.turn := by
  cases k <;> decide

/-- A stage turns its own digit, also when that falls back to 0. -/
theorem advance_div (hdue : idx.val % k.unit = 0) :
    (k.stage.advance idx).val / k.turn = idx.val / k.turn := by
  have hadv := advance_val hdue
  cases k <;> simp only [unit, turn] at hdue hadv ⊢ <;> omega

theorem div_congr {m n x y : Nat} (hdvd : m ∣ n) (hdiv : x / m = y / m) : x / n = y / n := by
  rcases hdvd with ⟨c, rfl⟩
  rw [← Nat.div_div_eq_div_mul, ← Nat.div_div_eq_div_mul, hdiv]

/-- A higher wheel does not see a lower one advance, as long as the deadline is not passed over. -/
theorem above (hkl : l ≠ k) (hdue : idx.val % k.unit = 0) (hle : idx.val + k.unit ≤ next.val)
    (hagree : l.Agree idx next) (hdiff : l = .ms ∨ l.quot idx ≠ l.quot next) :
    l.Agree (k.stage.advance idx) next ∧ l ≠ .ms ∧
      l.quot (k.stage.advance idx) = l.quot idx ∧ l.quot idx < l.quot next := by
  have hunit : 0 < k.unit := by cases k <;> decide
  rcases turn_dvd_unit hkl with hlower | ⟨hhigher, hms⟩
  · -- a lower wheel cannot agree with a deadline that is a whole unit of this one ahead
    have hsame : idx.val / k.unit = next.val / k.unit := div_congr hlower hagree
    have hnext : idx.val / k.unit + 1 ≤ next.val / k.unit := by
      rw [← Nat.add_div_right _ hunit]
      exact Nat.div_le_div_right hle
    omega
  · have hdiv := advance_div hdue
    have hquot : l.quot (k.stage.advance idx) = l.quot idx := div_congr hhigher hdiv
    have hturn := div_congr (Nat.dvd_trans hhigher (unit_dvd_turn l)) hdiv
    refine ⟨hturn.trans hagree, hms, hquot, ?_⟩
    have hle' : l.quot idx ≤ l.quot next := Nat.div_le_div_right (by omega)
    exact lt_of_le_of_ne hle' (hdiff.resolve_left hms)

theorem slot_eq_iff (hagree : k.Agree idx next) (hk : k ≠ .d) :
    k.slot next = k.slot idx ↔ k.quot idx = k.quot next := by
  rw [quot_eq_iff]
  cases k with
  | ms =>
      have hup := (quot_eq_iff (k := .s)).1 hagree
      exact ⟨fun h => ⟨hup, Slot.ms.inj h⟩, fun h => congrArg Slot.ms h.2⟩
  | s =>
      have hup := (quot_eq_iff (k := .m)).1 hagree
      exact ⟨fun h => ⟨hup, Slot.s.inj h⟩, fun h => congrArg Slot.s h.2⟩
  | m =>
      have hup := (quot_eq_iff (k := .h)).1 hagree
      exact ⟨fun h => ⟨hup, Slot.m.inj h⟩, fun h => congrArg Slot.m h.2⟩
  | h =>
      have hup := (quot_eq_iff (k := .d)).1 hagree
      exact ⟨fun h => ⟨hup, Slot.h.inj h⟩, fun h => congrArg Slot.h h.2⟩
  | d => exact absurd rfl hk

/-- A visited timer whose digits from the stage's up are the clock's: it fires when nothing is
left below, and else falls to where it belongs. -/
theorem act_eq (hzero : idx.val % k.unit = 0) (hquot : k.quot idx = k.quot next) :
    k.stage.act idx next = if idx = next then .timeout else .cascade (place idx next) := by
  -- the clock is 0 below the wheel, so the stage compares what is left of the deadline with it
  have hdue := due_iff.2 hzero
  have hup := quot_eq_iff.1 hquot
  rcases idx with ⟨ms, s, m, h, d⟩
  rcases next with ⟨nms, ns, nm, nh, nd⟩
  cases k with
  | ms =>
      simp only [SameDigits] at hup
      rcases hup with ⟨⟨⟨⟨rfl, rfl⟩, rfl⟩, rfl⟩, rfl⟩
      simp [stage, msStage]
  | s =>
      simp only [SameDigits] at hup
      simp only [stage, sStage, decide_eq_true_eq] at hdue
      rcases hup with ⟨⟨⟨rfl, rfl⟩, rfl⟩, rfl⟩
      subst hdue
      by_cases hms : nms = 0 <;> simp [stage, sStage, place, hms, eq_comm]
  | m =>
      simp only [SameDigits] at hup
      simp only [stage, mStage, decide_eq_true_eq] at hdue
      rcases hup with ⟨⟨rfl, rfl⟩, rfl⟩
      rcases hdue with ⟨rfl, rfl⟩
      by_cases hs : ns = 0 <;> by_cases hms : nms = 0 <;>
        simp [stage, mStage, place, hs, hms, eq_comm]
  | h =>
      simp only [SameDigits] at hup
      simp only [stage, hStage, decide_eq_true_eq] at hdue
      rcases hup with ⟨rfl, rfl⟩
      rcases hdue with ⟨rfl, rfl, rfl⟩
      by_cases hm : nm = 0 <;> by_cases hs : ns = 0 <;> by_cases hms : nms = 0 <;>
        simp [stage, hStage, place, hm, hs, hms, eq_comm]
  | d =>
      simp only [SameDigits] at hup
      simp only [stage, dStage, decide_eq_true_eq] at hdue
      subst hup
      rcases hdue with ⟨rfl, rfl, rfl, rfl⟩
      by_cases hh : nh = 0 <;> by_cases hm : nm = 0 <;> by_cases hs : ns = 0 <;>
        by_cases hms : nms = 0 <;> simp [stage, dStage, place, hh, hm, hs, hms, eq_comm]

/-- The day list holds timers of all days; those of other days stay. -/
theorem act_day (hquot : Level.d.quot idx ≠ Level.d.quot next) :
    dStage.act idx next = .keep := by
  have hday : next.d ≠ idx.d := fun hd => hquot (quot_eq_iff.2 hd)
  simp [dStage, hday]

/-- The stage of the wheel that holds the timer carries no further. -/
theorem advance_own (hdue : idx.val % k.unit = 0) (hle : idx.val + k.unit ≤ next.val)
    (hagree : k.Agree idx next) :
    (k.stage.advance idx).val = idx.val + k.unit ∧ k.Agree (k.stage.advance idx) next ∧
      (k.stage.advance idx).val % k.unit = 0 := by
  have hadv := advance_val hdue
  cases k <;> simp only [Agree, unit, turn] at hdue hle hagree hadv ⊢ <;> omega

theorem lt_of_quot_lt (hlt : k.quot a < k.quot b) : a.val < b.val :=
  lt_of_not_ge fun hge => absurd (Nat.div_le_div_right hge) (not_le.2 hlt)

end Level

end Time
end UtilsC

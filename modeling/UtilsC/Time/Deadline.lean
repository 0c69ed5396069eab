import UtilsC.Time.Periodic

/-!
# When a deadline is exact

`uc_timer_add_do` and `uc_timer_node_reinsert` add the interval to the clock in milliseconds, and
that clock is a sum of products in `int`.  From 2^31 milliseconds on, late on the 25th day, it does
not fit: the deadline is off by a multiple of 2^32 and so are the five fields that hold it.
-/

namespace UtilsC
namespace Time

open Lib ListHead

/-! ## The sum of the indices -/

/-- The sum is the clock when that fits an `int`, and else smaller by a multiple of 2^32. -/
theorem millisecondNow_cases (idx : Stamp) :
    (idx.val < 2 ^ 31 ∧ millisecondNow idx = idx.val) ∨
      (2 ^ 31 ≤ idx.val ∧ ∃ k : Nat, 0 < k ∧ k < 2000 ∧
        millisecondNow idx = idx.val - k * 2 ^ 32) := by
  have hlt := idx.val_lt
  rw [millisecondNow_eq_bmod]
  generalize idx.val = now at hlt
  -- the sum is the clock reduced to the range of an `int`
  have hbmod : Int.bmod (now : Int) (2 ^ 32) =
      now - (((now + 2 ^ 31) / 2 ^ 32 : Nat) : Int) * 2 ^ 32 := by
    rw [Int.bmod_def]
    omega
  rw [hbmod]
  rcases Nat.lt_or_ge now (2 ^ 31) with hsmall | hbig
  · exact Or.inl ⟨hsmall, by omega⟩
  · exact Or.inr ⟨hbig, (now + 2 ^ 31) / 2 ^ 32, by omega, by omega, rfl⟩

/-- A sum that is negative with the interval added wraps to the top of the 64 bits. -/
theorem millisecondNext_cases (idx : Stamp) {n : Nat} (hn : n < timerIntervalMax) :
    (idx.val < 2 ^ 31 ∧ millisecondNext idx n = idx.val + n) ∨
      (2 ^ 31 ≤ idx.val ∧ ∃ k : Nat, 0 < k ∧ k < 2000 ∧
        (millisecondNext idx n + k * 2 ^ 32 = idx.val + n ∨
          millisecondNext idx n = (2 ^ 32 - k) * 2 ^ 32 + (idx.val + n))) := by
  have hmax : n < 20 * 365 * 24 * 60 * 60 * 1000 := hn
  have hlt := idx.val_lt
  rcases millisecondNow_cases idx with ⟨hsmall, _⟩ | ⟨hbig, k, hpos, hk, hnow⟩
  · exact Or.inl ⟨hsmall, millisecondNext_eq hsmall hn⟩
  · refine Or.inr ⟨hbig, k, hpos, hk, ?_⟩
    rw [millisecondNext, hnow]
    generalize idx.val = now at hlt
    -- a sum that stays negative is taken for a large unsigned one
    rcases Nat.lt_or_ge (now + n) (k * 2 ^ 32) with hneg | hneg
    · right
      omega
    · left
      omega

theorem millisecondNext_eq_iff {idx : Stamp} {n : Nat} (hn : n < timerIntervalMax) :
    millisecondNext idx n = idx.val + n ↔ idx.val < 2 ^ 31 := by
  refine ⟨fun heq => ?_, fun hnow => millisecondNext_eq hnow hn⟩
  rcases millisecondNext_cases idx hn with ⟨hsmall, _⟩ | ⟨_, k, hpos, hk, hoff | hoff⟩ <;> omega

/-! ## The five fields -/

theorem Stamp.val_ofMillisecond_mod (x : Nat) :
    (Stamp.ofMillisecond x).val = x % (65536 * 86400000) := by
  simp only [Stamp.val, Stamp.ofMillisecond, Fin.val_ofNat]
  omega

/-- The fields drop multiples of 65536 days.  A multiple of 2^32 is one of these only when it is
also a multiple of what 65536 days have besides powers of two. -/
theorem dvd_of_shift {c x : Nat}
    (hshift : (c * 2 ^ 32 + x) % (65536 * 86400000) = x) : 84375 ∣ c := by
  have hdays : 65536 * 86400000 ∣ c * 2 ^ 32 := by
    refine ⟨(c * 2 ^ 32 + x) / (65536 * 86400000), ?_⟩
    have hdiv := Nat.div_add_mod (c * 2 ^ 32 + x) (65536 * 86400000)
    rw [hshift] at hdiv
    exact (Nat.add_right_cancel hdiv).symm
  -- 65536 days are 84375 times a power of two
  have hodd : 84375 ∣ 65536 * 86400000 := ⟨67108864, rfl⟩
  have hcoprime : Nat.Coprime 84375 (2 ^ 32) := by decide
  exact hcoprime.dvd_of_dvd_mul_right (Nat.dvd_trans hodd hdays)

/-- No error of the sum is lost in the fields. -/
theorem val_next_iff {idx : Stamp} {n : Nat} (hn : n < timerIntervalMax)
    (hday : (idx.val + n) / 86400000 < 65536) :
    (Stamp.ofMillisecond (millisecondNext idx n)).val = idx.val + n ↔ idx.val < 2 ^ 31 := by
  refine ⟨fun heq => ?_, fun hnow => val_next hnow hn⟩
  have hsum : idx.val + n < 65536 * 86400000 :=
    (Nat.div_lt_iff_lt_mul (Nat.succ_pos _)).1 hday
  rw [Stamp.val_ofMillisecond_mod] at heq
  rcases millisecondNext_cases idx hn with ⟨hsmall, _⟩ | ⟨_, k, hpos, hk, hoff | hoff⟩
  · exact hsmall
  · -- too small by `k * 2 ^ 32`, so nothing is dropped that could hide it
    have hfits : millisecondNext idx n < 65536 * 86400000 :=
      lt_of_le_of_lt (hoff ▸ Nat.le_add_right _ _) hsum
    rw [Nat.mod_eq_of_lt hfits] at heq
    omega
  · rw [hoff] at heq
    -- `k` is below 2000, which is too small to make this a multiple
    have hdvd : 84375 ∣ 2 ^ 32 - k := dvd_of_shift heq
    clear heq hoff
    omega

/-! ## The two functions -/

section Wheel

variable {A F X : Type} [DecidableEq A] {mgr : UcTimerManager A F X} {lists : Slot → List A}
  {timers : A → Timer F X} {n : Nat}

/-- The deadline `n` milliseconds from now is computed without error and stored without error, by
`uc_timer_add_do` for a new timer and by `uc_timer_node_reinsert` for one that was unlinked. -/
structure DeadlineExact (mgr : UcTimerManager A F X) (timers : A → Timer F X) (n : Nat) :
    Prop where
  sum : millisecondNext mgr.idx n = mgr.idx.val + n
  add : ∀ a ttl cb arg, mgr.links.live (Loc.item a) = false →
    ∃ mgr', ucTimerAddDo (some a) n ttl (some cb) arg mgr = some (mgr', some a) ∧
      (mgr'.item a).next.val = mgr.idx.val + n
  reinsert : ∀ a, mgr.links.live (Loc.item a) = true → (timers a).slot = none →
    (mgr.item a).interval = n →
    ∃ mgr', ucTimerNodeReinsert mgr a = some mgr' ∧ (mgr'.item a).next.val = mgr.idx.val + n

/-- What `uc_timer_node_reinsert` stores. -/
theorem ucTimerNodeReinsert_next (hR : Represents mgr lists timers) {a : A}
    (halive : mgr.links.live (Loc.item a) = true) (hout : (timers a).slot = none) :
    ∃ mgr', ucTimerNodeReinsert mgr a = some mgr' ∧
      (mgr'.item a).next =
        Stamp.ofMillisecond (millisecondNext mgr.idx (mgr.item a).interval) := by
  -- no list holds the timer, so that it can be linked again
  have hfree : ∀ s, a ∉ lists s := by
    intro s ha
    have hslot := (hR.mem_iff s a).1 ha
    rw [hout] at hslot
    cases hslot
  let next := Stamp.ofMillisecond (millisecondNext mgr.idx (mgr.item a).interval)
  let mgr₁ := mgr.setItem a { mgr.item a with next := next }
  rcases addTail_spec mgr₁ hR.rings hfree halive (reinsertSlot mgr.idx next) with
    ⟨links, hadd, _, _⟩
  refine ⟨{ mgr₁ with links := links }, hadd, ?_⟩
  simp [mgr₁, next, UcTimerManager.setItem]

/-- What `uc_timer_add_do` stores. -/
theorem ucTimerAddDo_next (hR : Represents mgr lists timers) (hpos : 0 < n)
    (hmax : n < timerIntervalMax) {a : A} (hfresh : mgr.links.live (Loc.item a) = false)
    (ttl : Nat) (cb : F) (arg : X) :
    ∃ mgr', ucTimerAddDo (some a) n ttl (some cb) arg mgr = some (mgr', some a) ∧
      (mgr'.item a).next = Stamp.ofMillisecond (millisecondNext mgr.idx n) := by
  rcases ucTimerAddDo_spec hR hfresh hpos hmax ttl cb arg with ⟨mgr', lists', hadd, hR', _⟩
  refine ⟨mgr', hadd, ?_⟩
  rw [hR'.item_eq a, Function.update_self]
  rfl

/-- The deadlines are exact exactly while the clock fits an `int`. -/
theorem deadlineExact_iff (hR : Represents mgr lists timers) (hpos : 0 < n)
    (hmax : n < timerIntervalMax) (hday : (mgr.idx.val + n) / 86400000 < 65536) :
    DeadlineExact mgr timers n ↔ mgr.idx.val < 2 ^ 31 := by
  refine ⟨fun hexact => (millisecondNext_eq_iff hmax).1 hexact.sum, fun hnow => ?_⟩
  have hval := (val_next_iff hmax hday).2 hnow
  refine ⟨millisecondNext_eq hnow hmax, ?_, ?_⟩
  · intro a ttl cb arg hfresh
    rcases ucTimerAddDo_next hR hpos hmax hfresh ttl cb arg with ⟨mgr', hadd, hnext⟩
    exact ⟨mgr', hadd, hnext ▸ hval⟩
  · intro a halive hout hinterval
    rcases ucTimerNodeReinsert_next hR halive hout with ⟨mgr', hrun, hnext⟩
    rw [hinterval] at hnext
    exact ⟨mgr', hrun, hnext ▸ hval⟩

end Wheel

/-- A wheel without timers. -/
def idleWheel (idx : Stamp) : UcTimerManager Nat Unit Unit :=
  { emptyManager fun _ => blankItem with idx := idx }

theorem idleWheel_represents (idx : Stamp) :
    Represents (idleWheel idx) (fun _ => []) fun _ => { slot := none, item := blankItem } :=
  have hR := emptyManager_represents fun _ : Nat => blankItem
  ⟨hR.rings, hR.mem_iff, hR.item_eq⟩

/-- A timer of 7 milliseconds that has fired and is not linked again yet. -/
def firedWheel (idx : Stamp) : UcTimerManager Nat Unit Unit :=
  let mgr : UcTimerManager Nat Unit Unit :=
    { idleWheel idx with links := (idleWheel idx).links.alloc 0 }
  mgr.setItem 0 { blankItem with interval := 7 }

theorem firedWheel_represents (idx : Stamp) :
    Represents (firedWheel idx) (fun _ => []) fun a =>
      { slot := none, item := (firedWheel idx).item a } :=
  have hR := idleWheel_represents idx
  ⟨hR.rings.alloc 0, hR.mem_iff, fun _ => rfl⟩

/-- The last millisecond of the fourth day: the next deadline is on another day. -/
def fourthMidnight : Stamp := { ms := 999, s := 59, m := 59, h := 23, d := 3 }

theorem deadlineExact_fired :
    DeadlineExact (firedWheel fourthMidnight)
        (fun a => { slot := none, item := (firedWheel fourthMidnight).item a }) 7 ∧
      ∃ mgr', ucTimerNodeReinsert (firedWheel fourthMidnight) 0 = some mgr' ∧
        (mgr'.item 0).next.val = 345600006 := by
  have hexact := (deadlineExact_iff (n := 7) (firedWheel_represents fourthMidnight) (by decide)
    (by decide) (by decide)).2 (by decide)
  rcases hexact.reinsert 0 rfl rfl rfl with ⟨mgr', hreinsert, hnext⟩
  exact ⟨hexact, mgr', hreinsert, hnext⟩

/-- After 25 days. -/
theorem not_deadlineExact_days :
    ¬ ∀ (idx : Stamp) (n : Nat), 0 < n → n < timerIntervalMax →
      (idx.val + n) / 86400000 < 65536 →
      DeadlineExact (idleWheel idx) (fun _ => { slot := none, item := blankItem }) n := by
  intro hall
  have hexact := hall { ms := 0, s := 0, m := 0, h := 0, d := 25 } 1 Nat.one_pos (by decide)
    (by decide)
  have hsum : millisecondNext { ms := 0, s := 0, m := 0, h := 0, d := 25 } 1 = 2160000001 :=
    hexact.sum
  exact absurd hsum (by decide)

end Time
end UtilsC

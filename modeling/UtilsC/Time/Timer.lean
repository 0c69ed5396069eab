import UtilsC.Time.Stamp

/-!
# One timer on its own

What a tick does to a timer depends on the clock, on the list the timer is linked in and on its
own fields, and on no other timer.  This module follows one timer through the stages of a tick.

* `Timer.tick` runs the five stages for one timer.
* `Timer.tick_waiting`: a timer in its place fires exactly when the clock reaches its deadline and
  is in its place again otherwise.
* `Timer.spent_tick`: a timer stays in a list until the last of its firings.
* `Timer.tick_settled`: whatever timers with a passed deadline do, they do not end up misplaced for
  a deadline ahead.
-/

namespace UtilsC
namespace Time

/-! ## The stages of a tick for one timer -/

variable {F X : Type}

/-- The list a timer is linked in, `none` when it is in no list, and its fields. -/
@[ext]
structure Timer (F X : Type) where
  slot : Option Slot
  item : UcTimerItem F X

namespace Timer

/-- The fields after the next deadline is set. -/
def rearm (idx : Stamp) (it : UcTimerItem F X) : Timer F X :=
  let next := Stamp.ofMillisecond (millisecondNext idx it.interval)
  { slot := some (reinsertSlot idx next), item := { it with next := next } }

def timeout (idx : Stamp) (it : UcTimerItem F X) : Timer F X :=
  if it.ttl = 0 then rearm idx it
  else if it.ttl - 1 = 0 then { slot := none, item := { it with ttl := it.ttl - 1 } }
  else rearm idx { it with ttl := it.ttl - 1 }

/-- The timer after an action, and how often it fired. -/
def act (idx : Stamp) (t : Timer F X) : Act → Timer F X × Nat
  | .keep => (t, 0)
  | .cascade slot => ({ t with slot := some slot }, 0)
  | .timeout => (timeout idx t.item, 1)

end Timer

namespace Stage

variable (stage : Stage)

def clock (idx : Stamp) : Stamp :=
  if stage.due idx = true then stage.advance idx else idx

def timer (idx : Stamp) (t : Timer F X) : Timer F X × Nat :=
  if stage.due idx = true ∧ t.slot = some (stage.slot (stage.advance idx)) then
    t.act (stage.advance idx) (stage.act (stage.advance idx) t.item.next)
  else
    (t, 0)

end Stage

def clocks : List Stage → Stamp → Stamp
  | [], idx => idx
  | stage :: rest, idx => clocks rest (stage.clock idx)

def Timer.through : List Stage → Stamp → Timer F X → Timer F X × Nat
  | [], _, t => (t, 0)
  | stage :: rest, idx, t =>
      let r := stage.timer idx t
      let r' := through rest (stage.clock idx) r.1
      (r'.1, r.2 + r'.2)

/-- The clock after a tick. -/
def tickClock (idx : Stamp) : Stamp := clocks stages idx

/-- A timer after a tick, and how often it fired. -/
def Timer.tick (idx : Stamp) (t : Timer F X) : Timer F X × Nat := Timer.through stages idx t

/-! ## A timer that waits in its place -/

/-- In its place for a deadline ahead of the clock. -/
def Timer.waiting (idx : Stamp) (it : UcTimerItem F X) : Timer F X :=
  { slot := some (place idx it.next), item := it }

section Waiting

variable {k l : Level} {idx : Stamp} {it : UcTimerItem F X}

/-- The stage of the timer's own wheel. -/
theorem Level.timer_own (hdue : idx.val % k.unit = 0) (hle : idx.val + k.unit ≤ it.next.val)
    (hagree : k.Agree idx it.next) (hplace : place idx it.next = k.slot it.next) :
    (k.stage.advance idx = it.next ∧
        k.stage.timer idx (Timer.waiting idx it) = (Timer.timeout it.next it, 1)) ∨
      ((k.stage.advance idx).val < it.next.val ∧
        k.stage.timer idx (Timer.waiting idx it) =
          (Timer.waiting (k.stage.advance idx) it, 0)) := by
  have hstage : k.stage.due idx = true := Level.due_iff.2 hdue
  have hown := Level.advance_own hdue hle hagree
  have hle' : (k.stage.advance idx).val ≤ it.next.val := by omega
  -- the wheel stands at the timer's digit, and the timer is visited, or it does not
  by_cases hquot : k.quot (k.stage.advance idx) = k.quot it.next
  · have hvisit : place idx it.next = k.stage.slot (k.stage.advance idx) := by
      rw [hplace, Level.stage_slot]
      by_cases hd : k = .d
      · subst hd
        rfl
      · exact (Level.slot_eq_iff hown.2.1 hd).2 hquot
    have htimer : k.stage.timer idx (Timer.waiting idx it) =
        (Timer.waiting idx it).act (k.stage.advance idx)
          (if k.stage.advance idx = it.next then .timeout
            else .cascade (place (k.stage.advance idx) it.next)) := by
      have hact := Level.act_eq hown.2.2 hquot
      simp [Stage.timer, Timer.waiting, hstage, hvisit, hact]
    -- nothing is left below the digit, or the timer falls to a lower wheel
    by_cases heq : k.stage.advance idx = it.next
    · left
      refine ⟨heq, ?_⟩
      rw [htimer, if_pos heq, heq]
      rfl
    · right
      have hne : (k.stage.advance idx).val ≠ it.next.val := fun h => heq (Stamp.ext_val h)
      refine ⟨by omega, ?_⟩
      rw [htimer, if_neg heq]
      rfl
  · right
    have hne : (k.stage.advance idx).val ≠ it.next.val := by
      intro h
      exact hquot (by simp [Level.quot, h])
    have hplace' : place (k.stage.advance idx) it.next = k.slot it.next :=
      Level.place_eq hown.2.1 (Or.inr hquot)
    refine ⟨by omega, ?_⟩
    rw [Timer.waiting, Timer.waiting, hplace, hplace']
    -- the day list is visited on any day, but a timer of another day stays
    by_cases hd : k = .d
    · subst hd
      have hact : Level.d.stage.act (Level.d.stage.advance idx) it.next = .keep :=
        Level.act_day hquot
      simp [Stage.timer, hact, Timer.act]
    · have hslot : k.slot it.next ≠ k.stage.slot (k.stage.advance idx) := by
        rw [Level.stage_slot]
        exact fun h => hquot ((Level.slot_eq_iff hown.2.1 hd).1 h)
      simp [Stage.timer, hslot]

/-- The stage of a lower wheel does not visit the timer. -/
theorem Level.timer_above (hdue : idx.val % k.unit = 0) (hle : idx.val + k.unit ≤ it.next.val)
    (hlk : l ≠ k) (hagree : l.Agree idx it.next) (hdiff : l = .ms ∨ l.quot idx ≠ l.quot it.next) :
    (k.stage.advance idx).val < it.next.val ∧
      k.stage.timer idx (Timer.waiting idx it) =
        (Timer.waiting (k.stage.advance idx) it, 0) := by
  have habove := Level.above hlk hdue hle hagree hdiff
  have hlt : l.quot (k.stage.advance idx) < l.quot it.next := by
    rw [habove.2.2.1]
    exact habove.2.2.2
  have hplace : place idx it.next = l.slot it.next := Level.place_eq hagree hdiff
  -- the timer's place is the same for the new clock, and the stage visits another wheel
  have hplace' : place (k.stage.advance idx) it.next = l.slot it.next :=
    Level.place_eq habove.1 (Or.inr (ne_of_lt hlt))
  have hslot : l.slot it.next ≠ k.stage.slot (k.stage.advance idx) := by
    rw [Level.stage_slot]
    exact Level.slot_ne hlk _ _
  refine ⟨Level.lt_of_quot_lt hlt, ?_⟩
  simp [Stage.timer, Timer.waiting, hplace, hplace', hslot]

/-- One stage: either the clock reaches the deadline and the timer fires, or the timer is in its
place for the stage's new clock. -/
theorem Level.timer_waiting (hdue : idx.val % k.unit = 0)
    (hle : idx.val + k.unit ≤ it.next.val) :
    (k.stage.advance idx = it.next ∧
        k.stage.timer idx (Timer.waiting idx it) = (Timer.timeout it.next it, 1)) ∨
      ((k.stage.advance idx).val < it.next.val ∧
        k.stage.timer idx (Timer.waiting idx it) =
          (Timer.waiting (k.stage.advance idx) it, 0)) := by
  rcases Level.exists_level idx it.next with ⟨l, hagree, hdiff⟩
  by_cases hlk : l = k
  · subst hlk
    exact Level.timer_own hdue hle hagree (Level.place_eq hagree hdiff)
  · exact Or.inr (Level.timer_above hdue hle hlk hagree hdiff)

end Waiting

/-! ## The carry through the stages -/

/-- `idx` is a clock on its way to `final`: the stages that are due add what is missing. -/
def Carry : List Level → Stamp → Nat → Prop
  | [], idx, final => idx.val = final
  | k :: rest, idx, final =>
      (idx.val % k.unit = 0 ∧ idx.val + k.unit = final ∧ Carry rest (k.stage.advance idx) final) ∨
        (idx.val % k.unit ≠ 0 ∧ idx.val = final ∧ Carry rest idx final)

theorem Carry.le : ∀ {rest : List Level} {idx : Stamp} {final : Nat},
    Carry rest idx final → idx.val ≤ final
  | [], _, _, hc => le_of_eq hc
  | _ :: _, _, _, hc => by
      rcases hc with ⟨_, hval, _⟩ | ⟨_, hval, _⟩ <;> omega

theorem carry_rest {idx : Stamp} : ∀ {rest : List Level},
    (∀ k ∈ rest, idx.val % k.unit ≠ 0) → Carry rest idx idx.val
  | [], _ => rfl
  | k :: rest, hstop => by
      have hk := hstop k (by simp)
      have hrest : ∀ l ∈ rest, idx.val % l.unit ≠ 0 := fun l hl => hstop l (by simp [hl])
      exact Or.inr ⟨hk, rfl, carry_rest hrest⟩

/-- A due stage either ends the carry or makes the next stage due. -/
theorem carry_cons {k l : Level} {rest : List Level} (idx : Stamp) (hturn : k.turn = l.unit)
    (hrest : ∀ j ∈ rest, l.unit ∣ j.unit)
    (hnext : ∀ idx : Stamp, idx.val % l.unit = 0 → idx.val + l.unit < 86400000 * 65536 →
      Carry (l :: rest) idx (idx.val + l.unit))
    (hdue : idx.val % k.unit = 0) (hlt : idx.val + k.unit < 86400000 * 65536) :
    Carry (k :: l :: rest) idx (idx.val + k.unit) := by
  refine Or.inl ⟨hdue, rfl, ?_⟩
  rcases Level.advance_val hdue with ⟨hwrap, hval⟩ | ⟨hstop, hval⟩
  · -- the digit falls to 0, so that the next stage is due
    rw [hturn] at hwrap hval
    rw [← hval]
    refine hnext _ ?_ (by omega)
    have hmod : ((k.stage.advance idx).val + l.unit) % l.unit = 0 := by
      rw [hval]
      exact hwrap
    simpa using hmod
  · -- a digit that is not 0 stops all the stages behind it
    rw [← hval]
    refine carry_rest ?_
    intro j hj hz
    have hdvd : l.unit ∣ j.unit := by
      rcases List.mem_cons.1 hj with hjl | hjr
      · exact hjl ▸ Nat.dvd_refl _
      · exact hrest j hjr
    rw [hturn, ← hval] at hstop
    exact hstop (Nat.mod_eq_zero_of_dvd (Nat.dvd_trans hdvd (Nat.dvd_of_mod_eq_zero hz)))

theorem carry_levels {idx : Stamp} (hlt : idx.val + 1 < 86400000 * 65536) :
    Carry levels idx (idx.val + 1) := by
  have hd : ∀ idx : Stamp, idx.val % Level.d.unit = 0 →
      idx.val + Level.d.unit < 86400000 * 65536 → Carry [.d] idx (idx.val + Level.d.unit) := by
    intro idx hdue hlt
    refine Or.inl ⟨hdue, rfl, ?_⟩
    have hadv := Level.advance_val hdue
    simp only [Level.unit, Level.turn] at hlt hadv hdue
    simp only [Carry, Level.unit]
    omega
  have hh := fun idx => carry_cons (k := .h) idx rfl (by decide) hd
  have hm := fun idx => carry_cons (k := .m) idx rfl (by decide) hh
  have hs := fun idx => carry_cons (k := .s) idx rfl (by decide) hm
  exact carry_cons (k := .ms) idx rfl (by decide) hs (Nat.mod_one _) hlt

theorem Level.unit_pos (k : Level) : 0 < k.unit := by
  cases k <;> simp [Level.unit]

theorem Level.clock_due {k : Level} {idx : Stamp} (hdue : idx.val % k.unit = 0) :
    k.stage.clock idx = k.stage.advance idx := by
  simp [Stage.clock, Level.due_iff.2 hdue]

theorem Level.clock_idle {k : Level} {idx : Stamp} (hidle : idx.val % k.unit ≠ 0) :
    k.stage.clock idx = idx := by
  have hnot : ¬ k.stage.due idx = true := fun h => hidle (Level.due_iff.1 h)
  simp [Stage.clock, hnot]

theorem Level.timer_idle {k : Level} {idx : Stamp} (hidle : idx.val % k.unit ≠ 0)
    (t : Timer F X) : k.stage.timer idx t = (t, 0) := by
  have hnot : ¬ k.stage.due idx = true := fun h => hidle (Level.due_iff.1 h)
  simp [Stage.timer, hnot]

theorem clocks_val : ∀ {rest : List Level} {idx : Stamp} {final : Nat},
    Carry rest idx final → (clocks (rest.map Level.stage) idx).val = final
  | [], _, _, hc => hc
  | k :: rest, idx, final, hc => by
      rcases hc with ⟨hdue, _, hc⟩ | ⟨hidle, _, hc⟩
      · have hrest := clocks_val hc
        simpa [clocks, Level.clock_due hdue] using hrest
      · have hrest := clocks_val hc
        simpa [clocks, Level.clock_idle hidle] using hrest

/-- Once the clock has carried, the remaining stages do nothing. -/
theorem through_done : ∀ {rest : List Level} {idx : Stamp} (t : Timer F X),
    Carry rest idx idx.val → Timer.through (rest.map Level.stage) idx t = (t, 0)
  | [], _, _, _ => rfl
  | k :: rest, idx, t, hc => by
      rcases hc with ⟨_, hval, _⟩ | ⟨hidle, _, hc⟩
      · -- a due stage would add something to a clock that is final
        have hpos := k.unit_pos
        omega
      · have hrest := through_done t hc
        simp [Timer.through, Level.timer_idle hidle, Level.clock_idle hidle, hrest]

theorem through_quiet {stage : Stage} {rest : List Stage} {idx : Stamp} {t t' : Timer F X}
    (hquiet : stage.timer idx t = (t', 0)) :
    Timer.through (stage :: rest) idx t = Timer.through rest (stage.clock idx) t' := by
  simp [Timer.through, hquiet]

theorem through_waiting {it : UcTimerItem F X} : ∀ {rest : List Level} {idx : Stamp} {final : Nat},
    Carry rest idx final → idx.val < it.next.val → final ≤ it.next.val →
      (final = it.next.val ∧ Timer.through (rest.map Level.stage) idx (Timer.waiting idx it) =
          (Timer.timeout it.next it, 1)) ∨
        (final < it.next.val ∧ Timer.through (rest.map Level.stage) idx (Timer.waiting idx it) =
          (Timer.waiting (clocks (rest.map Level.stage) idx) it, 0))
  | [], idx, final, hc, hlt, _ => Or.inr ⟨hc ▸ hlt, rfl⟩
  | k :: rest, idx, final, hc, hlt, hle => by
      rcases hc with ⟨hdue, hval, hc⟩ | ⟨hidle, _, hc⟩
      · -- the timer fires at this stage and rests, or it waits for the stages to come
        rcases Level.timer_waiting hdue (hval ▸ hle) with ⟨heq, htimer⟩ | ⟨hlt', htimer⟩
        · left
          have hfinal : final = it.next.val := by
            have hadv := Level.advance_val hdue
            have heq' := congrArg Stamp.val heq
            omega
          have hdone := through_done (Timer.timeout it.next it) (hfinal ▸ heq ▸ hc)
          refine ⟨hfinal, ?_⟩
          simp [Timer.through, htimer, Level.clock_due hdue, heq, hdone]
        · rw [List.map_cons, through_quiet htimer, clocks, Level.clock_due hdue]
          exact through_waiting hc hlt' hle
      · rw [List.map_cons, through_quiet (Level.timer_idle hidle _), clocks,
          Level.clock_idle hidle]
        exact through_waiting hc hlt hle

/-! ## A tick -/

theorem tickClock_val {idx : Stamp} (hlt : idx.val + 1 < 86400000 * 65536) :
    (tickClock idx).val = idx.val + 1 := by
  rw [tickClock, stages_eq]
  exact clocks_val (carry_levels hlt)

/-- A timer in its place fires at its deadline, once, and not before. -/
theorem Timer.tick_waiting {idx : Stamp} {it : UcTimerItem F X}
    (hlt : idx.val + 1 < 86400000 * 65536) (hahead : idx.val < it.next.val) :
    Timer.tick idx (Timer.waiting idx it) =
      if it.next.val = idx.val + 1 then (Timer.timeout it.next it, 1)
      else (Timer.waiting (tickClock idx) it, 0) := by
  rw [Timer.tick, tickClock, stages_eq]
  rcases through_waiting (carry_levels hlt) hahead hahead with ⟨hat, htick⟩ | ⟨hbefore, htick⟩
  · rw [if_pos hat.symm]
    exact htick
  · rw [if_neg (by omega)]
    exact htick

/-! ## Putting a timer back -/

/-- The fields of a timer that fired at `idx` and goes on. -/
def UcTimerItem.again (it : UcTimerItem F X) (idx : Stamp) : UcTimerItem F X :=
  { it with
    ttl := it.ttl - 1
    next := Stamp.ofMillisecond (millisecondNext idx it.interval) }

theorem Timer.timeout_eq {idx : Stamp} {it : UcTimerItem F X} (hnow : idx.val < 2 ^ 31)
    (hpos : 0 < it.interval) (hmax : it.interval < timerIntervalMax) :
    Timer.timeout idx it =
      if it.ttl = 1 then { slot := none, item := { it with ttl := 0 } }
      else Timer.waiting idx (it.again idx) := by
  have hval := val_next hnow hmax
  have hslot : reinsertSlot idx (Stamp.ofMillisecond (millisecondNext idx it.interval)) =
      place idx (Stamp.ofMillisecond (millisecondNext idx it.interval)) :=
    reinsertSlot_eq_place (by omega)
  by_cases h0 : it.ttl = 0
  · simp [Timer.timeout, Timer.rearm, Timer.waiting, UcTimerItem.again, h0, hslot]
  · by_cases h1 : it.ttl = 1
    · simp [Timer.timeout, h1]
    · have hne : it.ttl - 1 ≠ 0 := by omega
      simp [Timer.timeout, Timer.rearm, Timer.waiting, UcTimerItem.again, h0, h1, hne, hslot]

/-- A timer that is in its place if its deadline lies beyond `final`.  A timer whose deadline has
passed may be anywhere. -/
def Timer.Settled (idx : Stamp) (final : Nat) (t : Timer F X) : Prop :=
  ∀ s, t.slot = some s → final < t.item.next.val → s = place idx t.item.next

theorem Level.settled_timer {k : Level} {idx : Stamp} {t : Timer F X} {final : Nat}
    (hdue : idx.val % k.unit = 0) (hval : idx.val + k.unit = final) (hfinal : final < 2 ^ 31)
    (hpos : 0 < t.item.interval) (hmax : t.item.interval < timerIntervalMax)
    (ht : t.Settled idx final) :
    (k.stage.timer idx t).1.Settled (k.stage.advance idx) final := by
  intro s hs hlt
  have hadv := Level.advance_val hdue
  by_cases hahead : t.slot ≠ none ∧ final < t.item.next.val
  · rcases Option.ne_none_iff_exists'.1 hahead.1 with ⟨s₀, hs₀⟩
    have hwait : t = Timer.waiting idx t.item := by
      rw [Timer.waiting, ← ht s₀ hs₀ hahead.2, ← hs₀]
    rcases Level.timer_waiting (k := k) hdue (by omega : idx.val + k.unit ≤ t.item.next.val) with
      ⟨heq, _⟩ | ⟨_, htimer⟩
    · have heq' := congrArg Stamp.val heq
      omega
    · rw [hwait, htimer] at hs ⊢
      exact (Option.some.inj hs).symm
  · -- the deadline was not ahead, so it is ahead now only if the stage fired the timer
    by_cases hvisit : k.stage.due idx = true ∧ t.slot = some (k.stage.slot (k.stage.advance idx))
    · simp only [Stage.timer, if_pos hvisit] at hs hlt ⊢
      have hslot : t.slot ≠ none := by simp [hvisit.2]
      have hlate : ¬ final < t.item.next.val := fun h => hahead ⟨hslot, h⟩
      cases hact : k.stage.act (k.stage.advance idx) t.item.next with
      | keep => simp [hact, Timer.act, hlate] at hlt
      | cascade slot => simp [hact, Timer.act, hlate] at hlt
      | timeout =>
          simp only [hact, Timer.act] at hs hlt ⊢
          have hnow : (k.stage.advance idx).val < 2 ^ 31 := by omega
          rw [Timer.timeout_eq hnow hpos hmax] at hs hlt ⊢
          by_cases h1 : t.item.ttl = 1
          · simp [h1] at hs
          · simp only [if_neg h1] at hs ⊢
            exact (Option.some.inj hs).symm
    · simp only [Stage.timer, if_neg hvisit] at hs hlt ⊢
      exact absurd ⟨by simp [hs], hlt⟩ hahead

/-! ### What no stage changes -/

/-- The fields that are set once, when the timer is made. -/
def UcTimerItem.core (it : UcTimerItem F X) : Nat × F × X := (it.interval, it.cb, it.arg)

theorem UcTimerItem.core_update (it : UcTimerItem F X) (ttl : Nat) (next : Stamp) :
    ({ it with ttl := ttl, next := next } : UcTimerItem F X).core = it.core :=
  rfl

theorem Timer.core_rearm (idx : Stamp) (it : UcTimerItem F X) :
    (Timer.rearm idx it).item.core = it.core := by
  rw [Timer.rearm]
  exact it.core_update _ _

theorem Timer.core_timeout (idx : Stamp) (it : UcTimerItem F X) :
    (Timer.timeout idx it).item.core = it.core := by
  unfold Timer.timeout
  split_ifs
  · exact Timer.core_rearm idx it
  · exact it.core_update _ it.next
  · rw [Timer.core_rearm]
    exact it.core_update _ it.next

theorem Timer.core_act (idx : Stamp) (t : Timer F X) (act : Act) :
    (t.act idx act).1.item.core = t.item.core := by
  cases act with
  | keep => rfl
  | cascade slot => rfl
  | timeout => exact Timer.core_timeout idx t.item

theorem Stage.core_timer (stage : Stage) (idx : Stamp) (t : Timer F X) :
    (stage.timer idx t).1.item.core = t.item.core := by
  unfold Stage.timer
  split_ifs
  · exact Timer.core_act _ t _
  · rfl

theorem Timer.core_through : ∀ (rest : List Stage) (idx : Stamp) (t : Timer F X),
    (Timer.through rest idx t).1.item.core = t.item.core
  | [], _, _ => rfl
  | stage :: rest, idx, t => by
      have hstage := stage.core_timer idx t
      have hrest := core_through rest (stage.clock idx) (stage.timer idx t).1
      exact hrest.trans hstage

theorem Timer.core_tick (idx : Stamp) (t : Timer F X) :
    (Timer.tick idx t).1.item.core = t.item.core :=
  Timer.core_through stages idx t

theorem UcTimerItem.interval_of_core {it it' : UcTimerItem F X} (hcore : it.core = it'.core) :
    it.interval = it'.interval :=
  congrArg Prod.fst hcore

/-- A timer that is in no list is not touched. -/
theorem Timer.through_unlinked {t : Timer F X} (hslot : t.slot = none) :
    ∀ (rest : List Stage) (idx : Stamp), Timer.through rest idx t = (t, 0)
  | [], _ => rfl
  | stage :: rest, idx => by
      have hstage : stage.timer idx t = (t, 0) := by simp [Stage.timer, hslot]
      rw [through_quiet hstage]
      exact through_unlinked hslot rest _

/-! ### The times a timer has to go -/

/-- Every firing is counted off, and the last one takes the timer out of its list. -/
structure Timer.Spent (t : Timer F X) (r : Timer F X × Nat) : Prop where
  ttl : r.1.item.ttl = t.item.ttl - r.2
  linked : r.1.slot ≠ none ↔ t.item.ttl = 0 ∨ r.2 < t.item.ttl

theorem Timer.spent_none {t t' : Timer F X} (hslot : t'.slot ≠ none)
    (hitem : t'.item = t.item) : t.Spent (t', 0) where
  ttl := by rw [hitem, Nat.sub_zero]
  linked := iff_of_true hslot (Nat.eq_zero_or_pos _)

theorem Timer.spent_timeout (idx : Stamp) (t : Timer F X) :
    t.Spent (Timer.timeout idx t.item, 1) := by
  by_cases h0 : t.item.ttl = 0
  · constructor <;> simp [Timer.timeout, Timer.rearm, h0]
  · by_cases h1 : t.item.ttl = 1
    · constructor <;> simp [Timer.timeout, h1]
    · have hne : t.item.ttl - 1 ≠ 0 := by omega
      have hlt : 1 < t.item.ttl := by omega
      constructor <;> simp [Timer.timeout, Timer.rearm, h0, hne, hlt]

theorem Stage.spent_timer (stage : Stage) (idx : Stamp) {t : Timer F X} (hslot : t.slot ≠ none) :
    t.Spent (stage.timer idx t) := by
  unfold Stage.timer
  split_ifs with hvisit
  · cases hact : stage.act (stage.advance idx) t.item.next with
    | keep => exact Timer.spent_none hslot rfl
    | cascade slot => exact Timer.spent_none (Option.some_ne_none slot) rfl
    | timeout => exact Timer.spent_timeout _ t
  · exact Timer.spent_none hslot rfl

/-- A timer in a list spends one time to go for every firing, over all stages. -/
theorem Timer.spent_through : ∀ (rest : List Stage) (idx : Stamp) {t : Timer F X},
    t.slot ≠ none → t.Spent (Timer.through rest idx t)
  | [], _, _, hslot => Timer.spent_none hslot rfl
  | stage :: rest, idx, t, hslot => by
      have hstage := stage.spent_timer idx hslot
      rw [Timer.through]
      generalize stage.timer idx t = r at hstage
      by_cases hgone : r.1.slot = none
      · -- its last firing was here, and no later stage finds it
        rw [through_unlinked hgone]
        exact ⟨hstage.ttl, hstage.linked⟩
      · have hrest := spent_through rest (stage.clock idx) hgone
        have hleft := hstage.linked.1 hgone
        refine ⟨?_, ?_⟩
        · rw [hrest.ttl, hstage.ttl, Nat.sub_sub]
        · rw [hrest.linked, hstage.ttl]
          omega

theorem Timer.spent_tick (idx : Stamp) {t : Timer F X} (hslot : t.slot ≠ none) :
    t.Spent (Timer.tick idx t) :=
  Timer.spent_through stages idx hslot

theorem through_settled : ∀ {rest : List Level} {idx : Stamp} {final : Nat} {t : Timer F X},
    Carry rest idx final → final < 2 ^ 31 → 0 < t.item.interval →
      t.item.interval < timerIntervalMax → t.Settled idx final →
      (Timer.through (rest.map Level.stage) idx t).1.Settled
        (clocks (rest.map Level.stage) idx) final
  | [], _, _, _, _, _, _, _, ht => ht
  | k :: rest, idx, final, t, hc, hfinal, hpos, hmax, ht => by
      rw [List.map_cons, clocks, Timer.through]
      have hcore := UcTimerItem.interval_of_core (k.stage.core_timer idx t)
      rcases hc with ⟨hdue, hval, hc⟩ | ⟨hidle, _, hc⟩
      · rw [Level.clock_due hdue]
        refine through_settled hc hfinal (hcore ▸ hpos) (hcore ▸ hmax) ?_
        exact Level.settled_timer hdue hval hfinal hpos hmax ht
      · rw [Level.clock_idle hidle, Level.timer_idle hidle]
        exact through_settled hc hfinal hpos hmax ht

/-- Whatever timers with a passed deadline do, a tick leaves every timer with a deadline ahead in
its place. -/
theorem Timer.tick_settled {idx : Stamp} {t : Timer F X} (hclock : idx.val + 1 < 2 ^ 31)
    (hpos : 0 < t.item.interval) (hmax : t.item.interval < timerIntervalMax)
    (ht : t.Settled idx idx.val) :
    (Timer.tick idx t).1.Settled (tickClock idx) (tickClock idx).val := by
  have hlt : idx.val + 1 < 86400000 * 65536 := by omega
  rw [tickClock_val hlt, Timer.tick, tickClock, stages_eq]
  refine through_settled (carry_levels hlt) hclock hpos hmax ?_
  intro s hs hahead
  exact ht s hs (by omega)

/-! ### Timers that a stage puts back into the list it visits -/

/-- After the stage's action the timer is either out of the visited list or one that the stage
leaves alone, so a stage that comes across it again does nothing. -/
def Stage.Calm (stage : Stage) (idx : Stamp) (t : Timer F X) : Prop :=
  let t' := (t.act idx (stage.act idx t.item.next)).1
  t'.slot = some (stage.slot idx) → stage.act idx t'.item.next = .keep

theorem Level.act_cascade_ne {k : Level} {idx next : Stamp} {slot : Slot}
    (hact : k.stage.act idx next = .cascade slot) : slot ≠ k.stage.slot idx := by
  cases k <;>
    simp only [Level.stage, msStage, sStage, mStage, hStage, dStage, reduceCtorEq] at hact ⊢ <;>
    split_ifs at hact <;>
    cases hact <;>
    simp

theorem Level.calm {k : Level} {idx : Stamp} {t : Timer F X} (hnow : idx.val < 2 ^ 31)
    (hslot : t.slot = some (k.stage.slot idx)) (hpos : 0 < t.item.interval)
    (hmax : t.item.interval < timerIntervalMax) : k.stage.Calm idx t := by
  intro hback
  cases hact : k.stage.act idx t.item.next with
  | keep => simp [hact, Timer.act]
  | cascade slot =>
      have hne := Level.act_cascade_ne hact
      have heq : slot = k.stage.slot idx := by simpa [hact, Timer.act] using hback
      exact absurd heq hne
  | timeout =>
      have hval := val_next hnow hmax
      simp only [hact, Timer.act] at hback ⊢
      rw [Timer.timeout_eq hnow hpos hmax] at hback ⊢
      by_cases h1 : t.item.ttl = 1
      · simp [h1] at hback
      · simp only [if_neg h1, Timer.waiting] at hback ⊢
        have hplace : place idx (t.item.again idx).next = k.slot idx := by
          rw [← Level.stage_slot]
          exact Option.some.inj hback
        rcases Level.exists_level idx (t.item.again idx).next with ⟨l, hagree, hdiff⟩
        rw [Level.place_eq hagree hdiff] at hplace
        by_cases hlk : l = k
        · subst hlk
          by_cases hd : l = .d
          · subst hd
            have hquot : Level.d.quot idx ≠ Level.d.quot (t.item.again idx).next := by
              simpa using hdiff
            exact Level.act_day hquot
          · -- below the day wheel a deadline ahead is never in the list the clock points to
            have hquot := (Level.slot_eq_iff hagree hd).1 hplace
            rcases hdiff with hms | hne
            · subst hms
              simp only [Level.quot, Level.unit, Nat.div_one, UcTimerItem.again] at hquot
              omega
            · exact absurd hquot hne
        · exact absurd hplace (Level.slot_ne hlk _ _)

end Time
end UtilsC

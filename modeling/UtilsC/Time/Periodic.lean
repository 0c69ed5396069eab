import UtilsC.Time.Cascade

/-!
# Periodic firing

A state is well placed when every armed timer whose deadline is ahead is in the list its deadline
and the clock determine.  A tick fires exactly the timers whose deadline it reaches and leaves the
state well placed; a timer with deadline `D`, interval `p` and `N` times to go therefore fires at
`D`, `D + p`, … , `N` times, or for ever when `N` is 0.
-/

namespace UtilsC
namespace Time

open Lib

/-- The moments a timer is meant to fire. -/
def Scheduled (deadline interval ttl now : Nat) : Prop :=
  ∃ j, (ttl = 0 ∨ j < ttl) ∧ now = deadline + j * interval

section Schedule

variable {F X : Type}

/-- One timer between two firings, or after the last. -/
inductive Timer.OnSchedule (deadline interval ttl : Nat) (idx : Stamp) : Timer F X → Prop
  | waiting {it : UcTimerItem F X} (j : Nat) (hpos : 0 < interval)
      (hmax : interval < timerIntervalMax) (hinterval : it.interval = interval)
      (hnext : it.next.val = deadline + j * interval) (hahead : idx.val < it.next.val)
      (hlast : j = 0 ∨ it.next.val ≤ idx.val + interval)
      (httl : (ttl = 0 ∧ it.ttl = 0) ∨ (j < ttl ∧ it.ttl = ttl - j)) :
      OnSchedule deadline interval ttl idx (Timer.waiting idx it)
  | done {t : Timer F X} (hslot : t.slot = none) (httl : 0 < ttl)
      (hlast : deadline + (ttl - 1) * interval ≤ idx.val) : OnSchedule deadline interval ttl idx t

theorem scheduled_iff {deadline interval ttl now j : Nat} (hpos : 0 < interval)
    (hahead : now < deadline + j * interval)
    (hlast : j = 0 ∨ deadline + j * interval ≤ now + interval) (hj : ttl = 0 ∨ j < ttl) :
    Scheduled deadline interval ttl (now + 1) ↔ deadline + j * interval = now + 1 := by
  constructor
  · intro hs
    rcases hs with ⟨i, _, hnow⟩
    -- the next moment is the only one between the clock and the clock plus the interval
    have hij : i ≤ j := by
      by_contra hlt
      have hmul : (j + 1) * interval ≤ i * interval := Nat.mul_le_mul_right _ (by omega)
      have hsucc : (j + 1) * interval = j * interval + interval := Nat.succ_mul _ _
      omega
    have hji : j ≤ i := by
      by_contra hlt
      have hmul : (i + 1) * interval ≤ j * interval := Nat.mul_le_mul_right _ (by omega)
      have hsucc : (i + 1) * interval = i * interval + interval := Nat.succ_mul _ _
      omega
    have heq : i = j := le_antisymm hij hji
    rw [← heq, ← hnow]
  · intro hnow
    exact ⟨j, hj, hnow.symm⟩

theorem not_scheduled_after {deadline interval ttl now : Nat} (httl : 0 < ttl)
    (hlast : deadline + (ttl - 1) * interval ≤ now) :
    ¬ Scheduled deadline interval ttl (now + 1) := by
  intro hs
  rcases hs with ⟨i, hi, hnow⟩
  have hle : i * interval ≤ (ttl - 1) * interval := Nat.mul_le_mul_right _ (by omega)
  omega

/-- A tick keeps a timer on its schedule and fires it at the scheduled moments. -/
theorem Timer.OnSchedule.tick {deadline interval ttl : Nat} {idx : Stamp} {t : Timer F X}
    (ht : t.OnSchedule deadline interval ttl idx) (hclock : idx.val + 1 < 2 ^ 31) :
    (Timer.tick idx t).1.OnSchedule deadline interval ttl (tickClock idx) ∧
      (Scheduled deadline interval ttl (idx.val + 1) → (Timer.tick idx t).2 = 1) ∧
      (¬ Scheduled deadline interval ttl (idx.val + 1) → (Timer.tick idx t).2 = 0) := by
  have hlt : idx.val + 1 < 86400000 * 65536 := by omega
  have htick := tickClock_val hlt
  cases ht with
  | done hslot httl hlast =>
      have hnot := not_scheduled_after httl hlast
      rw [Timer.tick, Timer.through_unlinked hslot]
      refine ⟨.done hslot httl (by omega), fun hs => absurd hs hnot, fun _ => rfl⟩
  | @waiting it j hpos hmax hinterval hnext hahead hlast httl =>
      have hj : ttl = 0 ∨ j < ttl := by omega
      rw [hnext] at hahead hlast
      have hiff := scheduled_iff hpos hahead hlast hj
      rw [Timer.tick_waiting hlt (hnext ▸ hahead), hnext]
      -- the deadline is this tick's moment, or it stays ahead
      by_cases hat : deadline + j * interval = idx.val + 1
      · rw [if_pos hat]
        refine ⟨?_, fun _ => rfl, fun hs => absurd (hiff.2 hat) hs⟩
        have hclock' : it.next = tickClock idx := Stamp.ext_val (by omega)
        have hsmall : it.next.val < 2 ^ 31 := by omega
        have hval := val_next hsmall (hinterval ▸ hmax)
        rw [Timer.timeout_eq (by omega) (hinterval ▸ hpos) (hinterval ▸ hmax)]
        -- the last of its firings, or a re-insertion one interval later
        by_cases h1 : it.ttl = 1
        · rw [if_pos h1]
          have hj' : j = ttl - 1 := by omega
          refine .done rfl (by omega) ?_
          rw [← hj']
          omega
        · rw [if_neg h1, ← hclock']
          have hsucc : (j + 1) * interval = j * interval + interval := Nat.succ_mul _ _
          refine .waiting (j + 1) hpos hmax hinterval ?_ ?_ ?_ ?_
          · simp only [UcTimerItem.again]
            omega
          · simp only [UcTimerItem.again]
            omega
          · right
            simp only [UcTimerItem.again]
            omega
          · simp only [UcTimerItem.again]
            omega
      · rw [if_neg hat]
        refine ⟨?_, fun hs => absurd (hiff.1 hs) hat, fun _ => rfl⟩
        refine .waiting j hpos hmax hinterval hnext ?_ ?_ httl
        · omega
        · omega

end Schedule

section Wheel

variable {A F X : Type}

/-- The calls of `uc_threadpool_add_void_task` between two states of a run. -/
def dispatched (mgr mgr' : UcTimerManager A F X) : List (A × F × X) :=
  mgr'.tasks.drop mgr.tasks.length

variable [DecidableEq A]

/-- How often a timer was dispatched between two states of a run. -/
def firings (mgr mgr' : UcTimerManager A F X) (a : A) : Nat :=
  (dispatched mgr mgr').countP fun t => t.1 = a

/-- The lists are rings that share no timer, and every armed timer with its deadline ahead of the
clock is in the list where it belongs. -/
structure WellPlaced (mgr : UcTimerManager A F X) (lists : Slot → List A) : Prop where
  rings : RingFamily mgr.links lists
  interval : ∀ s, ∀ a ∈ lists s,
    0 < (mgr.item a).interval ∧ (mgr.item a).interval < timerIntervalMax
  placed : ∀ s, ∀ a ∈ lists s, mgr.idx.val < (mgr.item a).next.val →
    s = place mgr.idx (mgr.item a).next

/-- No armed timer was passed over. -/
def OnTime (mgr : UcTimerManager A F X) (lists : Slot → List A) : Prop :=
  ∀ s, ∀ a ∈ lists s, mgr.idx.val < (mgr.item a).next.val

/-- A tick that fires the timers whose deadline it reaches, and no other timer whose deadline is
ahead, and that loses no timer: each stays linked until the last of its firings, with its deadline
moved by one interval where it has fired. -/
structure ExactTick (mgr mgr' : UcTimerManager A F X) (lists lists' : Slot → List A) : Prop where
  returns : ∃ fuel, ∀ fuel' ≥ fuel, ucTimerCheckTimeout fuel' mgr = some mgr'
  clock : mgr'.idx.val = mgr.idx.val + 1
  due : ∀ s, ∀ a ∈ lists s, mgr.idx.val < (mgr.item a).next.val →
    firings mgr mgr' a = if (mgr.item a).next.val = mgr'.idx.val then 1 else 0
  linked : ∀ s, ∀ a ∈ lists s, (∃ s', a ∈ lists' s') ↔
    (mgr.item a).ttl = 0 ∨ firings mgr mgr' a < (mgr.item a).ttl
  ttl : ∀ s, ∀ a ∈ lists s, (mgr'.item a).ttl = (mgr.item a).ttl - firings mgr mgr' a
  next : ∀ s, ∀ a ∈ lists s, mgr.idx.val < (mgr.item a).next.val → (∃ s', a ∈ lists' s') →
    (mgr'.item a).next.val =
      if (mgr.item a).next.val = mgr'.idx.val then (mgr.item a).next.val + (mgr.item a).interval
      else (mgr.item a).next.val
  core : ∀ a, (mgr'.item a).core = (mgr.item a).core
  unlinked : ∀ a, (∀ s, a ∉ lists s) → firings mgr mgr' a = 0 ∧ ∀ s, a ∉ lists' s
  own : ∀ t ∈ dispatched mgr mgr', t.2 = ((mgr.item t.1).cb, (mgr.item t.1).arg)
  onTime : OnTime mgr lists → OnTime mgr' lists'

variable {mgr mgr' : UcTimerManager A F X} {lists : Slot → List A} {timers : A → Timer F X}

theorem Moved.firings_eq {effect : A → Timer F X × Nat} (hmoved : Moved mgr mgr' timers effect)
    (a : A) : firings mgr mgr' a = (effect a).2 := by
  rcases hmoved.tasks with ⟨fired, htasks, hcount⟩
  have hdispatched : dispatched mgr mgr' = fired.map (task timers) := by
    simp [dispatched, htasks]
  rw [firings, hdispatched, List.countP_map, ← hcount a, List.count]
  refine List.countP_congr ?_
  intro b _
  simp only [Function.comp_apply, task, beq_iff_eq]
  exact decide_eq_true_iff

theorem Moved.own {effect : A → Timer F X × Nat} (hmoved : Moved mgr mgr' timers effect)
    (hR : Represents mgr lists timers) :
    ∀ t ∈ dispatched mgr mgr', t.2 = ((mgr.item t.1).cb, (mgr.item t.1).arg) := by
  intro t ht
  rcases hmoved.tasks with ⟨fired, htasks, _⟩
  have ht' : t ∈ fired.map (task timers) := by
    simpa [dispatched, htasks] using ht
  rcases List.mem_map.1 ht' with ⟨a, _, rfl⟩
  simp [task, hR.item_eq a]

omit [DecidableEq A] in
/-- The timers a well-placed state stands for. -/
theorem WellPlaced.represents (hw : WellPlaced mgr lists) :
    ∃ timers, Represents mgr lists timers ∧ Intervals timers ∧
      ∀ a, (timers a).Settled mgr.idx mgr.idx.val := by
  classical
  -- the lists share no timer, so the list a timer is in is a function of the timer
  let slot : A → Option Slot := fun a => if h : ∃ s, a ∈ lists s then some h.choose else none
  have hslot : ∀ s a, a ∈ lists s ↔ slot a = some s := by
    intro s a
    by_cases h : ∃ s, a ∈ lists s
    · have hchoose := h.choose_spec
      simp only [slot, dif_pos h, Option.some.injEq]
      constructor
      · intro ha
        exact hw.rings.disjoint _ _ a hchoose ha
      · intro hs
        exact hs ▸ hchoose
    · have hnot : a ∉ lists s := fun ha => h ⟨s, ha⟩
      simp [slot, dif_neg h, hnot]
  refine ⟨fun a => { slot := slot a, item := mgr.item a }, ⟨hw.rings, hslot, fun _ => rfl⟩, ?_, ?_⟩
  · intro a ha
    rcases Option.ne_none_iff_exists'.1 ha with ⟨s, hs⟩
    exact hw.interval s a ((hslot s a).2 hs)
  · intro a s hs hahead
    exact hw.placed s a ((hslot s a).2 hs) hahead

omit [DecidableEq A] in
theorem Represents.wellPlaced (hR : Represents mgr lists timers) (hint : Intervals timers)
    (hsettled : ∀ a, (timers a).Settled mgr.idx mgr.idx.val) : WellPlaced mgr lists := by
  refine ⟨hR.rings, ?_, ?_⟩
  · intro s a ha
    have hslot := (hR.mem_iff s a).1 ha
    rw [hR.item_eq a]
    exact hint a (by simp [hslot])
  · intro s a ha hahead
    rw [hR.item_eq a] at hahead ⊢
    exact hsettled a s ((hR.mem_iff s a).1 ha) hahead

omit [DecidableEq A] in
/-- An armed timer in its place is a waiting timer. -/
theorem Represents.waiting (hR : Represents mgr lists timers)
    (hsettled : ∀ a, (timers a).Settled mgr.idx mgr.idx.val) {s : Slot} {a : A} (ha : a ∈ lists s)
    (hahead : mgr.idx.val < (mgr.item a).next.val) :
    timers a = Timer.waiting mgr.idx (mgr.item a) := by
  have hslot := (hR.mem_iff s a).1 ha
  have hitem := hR.item_eq a
  have hplace := hsettled a s hslot (hitem ▸ hahead)
  exact Timer.ext (by rw [hslot, hplace, ← hitem]; rfl) hitem.symm

/-- One tick of a well-placed state. -/
theorem exactTick (hR : Represents mgr lists timers) (hint : Intervals timers)
    (hsettled : ∀ a, (timers a).Settled mgr.idx mgr.idx.val) (hclock : mgr.idx.val + 1 < 2 ^ 31) :
    ∃ mgr' lists', ExactTick mgr mgr' lists lists' ∧ mgr'.idx = tickClock mgr.idx ∧
      Represents mgr' lists' (fun a => (Timer.tick mgr.idx (timers a)).1) ∧
      (∀ a, firings mgr mgr' a = (Timer.tick mgr.idx (timers a)).2) ∧
      Intervals (fun a => (Timer.tick mgr.idx (timers a)).1) ∧
      ∀ a, (Timer.tick mgr.idx (timers a)).1.Settled mgr'.idx mgr'.idx.val := by
  have hlt : mgr.idx.val + 1 < 86400000 * 65536 := by omega
  have htick := tickClock_val hlt
  rcases ucTimerCheckTimeout_spec hR hint hclock with ⟨fuel, mgr', hret, hidx, hmoved⟩
  rcases hmoved.represents with ⟨lists', hR'⟩
  have hfirings := hmoved.firings_eq
  have hunlinked : ∀ a, (timers a).slot = none → Timer.tick mgr.idx (timers a) = (timers a, 0) :=
    fun a ha => Timer.through_unlinked ha _ _
  have hint' : Intervals fun a => (Timer.tick mgr.idx (timers a)).1 := by
    refine hint.of_core (fun a => Timer.core_tick _ _) ?_
    intro a ha
    rw [hunlinked a ha]
    exact ha
  have hslots : ∀ s, ∀ a ∈ lists s, (timers a).slot ≠ none := by
    intro s a ha
    rw [(hR.mem_iff s a).1 ha]
    exact Option.some_ne_none s
  have hlinked : ∀ a, (∃ s', a ∈ lists' s') ↔ (Timer.tick mgr.idx (timers a)).1.slot ≠ none := by
    intro a
    rw [Option.ne_none_iff_exists']
    exact exists_congr fun s' => hR'.mem_iff s' a
  -- a timer ahead that is still linked has the deadline it had, or one interval more
  have hnext : ∀ s, ∀ a ∈ lists s, mgr.idx.val < (mgr.item a).next.val → (∃ s', a ∈ lists' s') →
      (mgr'.item a).next.val =
        if (mgr.item a).next.val = mgr'.idx.val then
          (mgr.item a).next.val + (mgr.item a).interval
        else (mgr.item a).next.val := by
    intro s a ha hahead hstill
    have hia := hint a (hslots s a ha)
    rw [← hR.item_eq a] at hia
    have hslot' := (hlinked a).1 hstill
    rw [hR'.item_eq a, hidx, htick]
    rw [hR.waiting hsettled ha hahead, Timer.tick_waiting hlt hahead] at hslot' ⊢
    by_cases hat : (mgr.item a).next.val = mgr.idx.val + 1
    · rw [if_pos hat, Timer.timeout_eq (by omega) hia.1 hia.2] at hslot' ⊢
      by_cases h1 : (mgr.item a).ttl = 1
      · simp [h1] at hslot'
      · rw [if_neg h1, if_pos hat]
        have hsmall : (mgr.item a).next.val < 2 ^ 31 := by omega
        exact val_next hsmall hia.2
    · rw [if_neg hat, if_neg hat]
      rfl
  refine ⟨mgr', lists', ⟨?_, ?_, ?_, ?_, ?_, hnext, ?_, ?_, hmoved.own hR, ?_⟩, hidx, hR', hfirings,
    hint', ?_⟩
  · exact ⟨fuel, fun fuel' hge => ucTimerCheckTimeout_mono hge hret⟩
  · rw [hidx, htick]
  · intro s a ha hahead
    have hwait := hR.waiting hsettled ha hahead
    rw [hfirings, hwait, Timer.tick_waiting hlt hahead, hidx, htick]
    split <;> rfl
  · intro s a ha
    have hspent := Timer.spent_tick mgr.idx (hslots s a ha)
    rw [hlinked, hspent.linked, hfirings, hR.item_eq a]
  · intro s a ha
    have hspent := Timer.spent_tick mgr.idx (hslots s a ha)
    rw [hR'.item_eq a, hspent.ttl, hfirings, hR.item_eq a]
  · intro a
    rw [hR'.item_eq a, Timer.core_tick, hR.item_eq a]
  · intro a ha
    have hslot : (timers a).slot = none := by
      by_contra hne
      rcases Option.ne_none_iff_exists'.1 hne with ⟨s, hs⟩
      exact ha s ((hR.mem_iff s a).2 hs)
    refine ⟨by rw [hfirings, hunlinked a hslot], fun s hs => ?_⟩
    exact (hlinked a).1 ⟨s, hs⟩ (by rw [hunlinked a hslot, hslot])
  · -- a timer that is armed after the tick was armed before it, in its place
    intro hontime s a ha
    have hslot : (timers a).slot ≠ none := by
      intro hnone
      exact (hlinked a).1 ⟨s, ha⟩ (by rw [hunlinked a hnone, hnone])
    rcases Option.ne_none_iff_exists'.1 hslot with ⟨s₀, hs₀⟩
    have ha₀ := (hR.mem_iff s₀ a).2 hs₀
    have hahead := hontime s₀ a ha₀
    have hia := hint a hslot
    rw [← hR.item_eq a] at hia
    rw [hnext s₀ a ha₀ hahead ⟨s, ha⟩, hidx, htick]
    split_ifs with hat
    · omega
    · omega
  · intro a
    rw [hidx]
    by_cases hslot : (timers a).slot = none
    · rw [hunlinked a hslot]
      intro s hs
      rw [hslot] at hs
      cases hs
    · have hia := hint a hslot
      exact Timer.tick_settled hclock hia.1 hia.2 (hsettled a)

/-- The states of a run of ticks. -/
theorem exactTicks (n : Nat) : ∀ {mgr : UcTimerManager A F X} {lists : Slot → List A}
    {timers : A → Timer F X}, Represents mgr lists timers → Intervals timers →
      (∀ a, (timers a).Settled mgr.idx mgr.idx.val) → mgr.idx.val + n < 2 ^ 31 →
      ∃ (wheel : Nat → UcTimerManager A F X) (lists' : Nat → Slot → List A),
        wheel 0 = mgr ∧ lists' 0 = lists ∧
        (∀ i ≤ n, WellPlaced (wheel i) (lists' i)) ∧
        (∀ i < n, ExactTick (wheel i) (wheel (i + 1)) (lists' i) (lists' (i + 1))) ∧
        ∀ deadline interval ttl a, (timers a).OnSchedule deadline interval ttl mgr.idx → ∀ i < n,
          (Scheduled deadline interval ttl (wheel (i + 1)).idx.val →
            firings (wheel i) (wheel (i + 1)) a = 1) ∧
          (¬ Scheduled deadline interval ttl (wheel (i + 1)).idx.val →
            firings (wheel i) (wheel (i + 1)) a = 0) := by
  induction n with
  | zero =>
      intro mgr lists timers hR hint hsettled _
      refine ⟨fun _ => mgr, fun _ => lists, rfl, rfl, ?_, ?_, ?_⟩
      · intro i _
        exact hR.wellPlaced hint hsettled
      · intro i hi
        exact absurd hi (Nat.not_lt_zero i)
      · intro _ _ _ _ _ i hi
        exact absurd hi (Nat.not_lt_zero i)
  | succ n ih =>
      intro mgr lists timers hR hint hsettled hclock
      rcases exactTick hR hint hsettled (by omega) with
        ⟨mgr', lists₁, hexact, hidx, hR', hfirings, hint', hsettled'⟩
      have hclock' : mgr'.idx.val + n < 2 ^ 31 := by
        have := hexact.clock
        omega
      rcases ih hR' hint' hsettled' hclock' with
        ⟨wheel, lists', hwheel, hlists, hplaced, hticks, hsched⟩
      refine ⟨fun i => Nat.casesOn i mgr wheel, fun i => Nat.casesOn i lists lists', rfl, rfl,
        ?_, ?_, ?_⟩
      · intro i hi
        cases i with
        | zero => exact hR.wellPlaced hint hsettled
        | succ i => exact hplaced i (by omega)
      · intro i hi
        cases i with
        | zero =>
            show ExactTick mgr (wheel 0) lists (lists' 0)
            rw [hwheel, hlists]
            exact hexact
        | succ i => exact hticks i (by omega)
      · intro deadline interval ttl a hon i hi
        have hontick := hon.tick (by omega)
        cases i with
        | zero =>
            have hval : (wheel 0).idx.val = mgr.idx.val + 1 := by
              rw [hwheel]
              exact hexact.clock
            have hfire : firings mgr (wheel 0) a = (Timer.tick mgr.idx (timers a)).2 := by
              rw [hwheel]
              exact hfirings a
            show (Scheduled deadline interval ttl (wheel 0).idx.val → firings mgr (wheel 0) a = 1) ∧
              (¬ Scheduled deadline interval ttl (wheel 0).idx.val → firings mgr (wheel 0) a = 0)
            rw [hval, hfire]
            exact hontick.2
        | succ i => exact hsched deadline interval ttl a (hidx ▸ hontick.1) i (by omega)

/-- Any number of ticks of a well-placed state: each is exact, the states in between are well
placed, and an armed timer with its deadline ahead fires on its schedule.  Timers that were passed
over do not disturb the others; when there are none, a tick fires exactly the timers whose deadline
it reaches. -/
theorem ucTimerCheckTimeout_periodic (hw : WellPlaced mgr lists) (n : Nat)
    (hclock : mgr.idx.val + n < 2 ^ 31) :
    ∃ (wheel : Nat → UcTimerManager A F X) (lists' : Nat → Slot → List A),
      wheel 0 = mgr ∧ lists' 0 = lists ∧
      (∀ i ≤ n, WellPlaced (wheel i) (lists' i)) ∧
      (∀ i < n, ExactTick (wheel i) (wheel (i + 1)) (lists' i) (lists' (i + 1))) ∧
      ∀ s, ∀ a ∈ lists s, mgr.idx.val < (mgr.item a).next.val → ∀ i < n,
        (Scheduled (mgr.item a).next.val (mgr.item a).interval (mgr.item a).ttl
            (wheel (i + 1)).idx.val →
          firings (wheel i) (wheel (i + 1)) a = 1) ∧
        (¬ Scheduled (mgr.item a).next.val (mgr.item a).interval (mgr.item a).ttl
            (wheel (i + 1)).idx.val →
          firings (wheel i) (wheel (i + 1)) a = 0) := by
  rcases hw.represents with ⟨timers, hR, hint, hsettled⟩
  rcases exactTicks n hR hint hsettled hclock with
    ⟨wheel, lists', hwheel, hlists, hplaced, hticks, hsched⟩
  refine ⟨wheel, lists', hwheel, hlists, hplaced, hticks, ?_⟩
  intro s a ha hahead
  have hwait := hR.waiting hsettled ha hahead
  have hia := hw.interval s a ha
  refine hsched _ _ _ a ?_
  rw [hwait]
  refine .waiting 0 hia.1 hia.2 rfl (by omega) hahead (Or.inl rfl) (by omega)

end Wheel

/-- What the examples take unallocated memory to hold. -/
def blankItem : UcTimerItem Unit Unit :=
  { interval := 0
    ttl := 0
    next := { ms := 0, s := 0, m := 0, h := 0, d := 0 }
    cb := ()
    arg := () }

/-- A timer of 5 milliseconds on a fresh wheel, twice. -/
theorem ucTimerCheckTimeout_periodic_twice :
    ∃ (mgr : UcTimerManager Nat Unit Unit) (wheel : Nat → UcTimerManager Nat Unit Unit),
      ucTimerAddDo (some 0) 5 2 (some ()) () (emptyManager fun _ => blankItem) =
        some (mgr, some 0) ∧
      wheel 0 = mgr ∧
      (∀ i < 15, ∃ fuel, ucTimerCheckTimeout fuel (wheel i) = some (wheel (i + 1))) ∧
      firings (wheel 4) (wheel 5) 0 = 1 ∧ firings (wheel 5) (wheel 6) 0 = 0 ∧
      firings (wheel 9) (wheel 10) 0 = 1 ∧ firings (wheel 14) (wheel 15) 0 = 0 := by
  have hR := emptyManager_represents fun _ : Nat => blankItem
  have hmax : 5 < timerIntervalMax := by decide
  rcases ucTimerAddDo_spec (a := 0) hR rfl (by decide : 0 < 5) hmax 2 () () with
    ⟨mgr, lists, hadd, hR', hidx, _⟩
  have hnow : mgr.idx.val = 0 := by
    rw [hidx]
    simp [emptyManager, Stamp.val]
  have hitem : mgr.item 0 = newItem (emptyManager fun _ : Nat => blankItem).idx 5 2 () () := by
    simpa using hR'.item_eq 0
  have hnext : (mgr.item 0).next.val = 5 := by
    rw [hitem]
    decide
  have hslot : 0 ∈ lists (Slot.ms 5) := (hR'.mem_iff _ _).2 (by decide +kernel)
  have hw : WellPlaced mgr lists := by
    refine hR'.wellPlaced ?_ ?_
    · intro a ha
      by_cases ha0 : a = 0
      · subst ha0
        exact ⟨by decide, by decide⟩
      · rw [Function.update_of_ne ha0] at ha
        exact absurd rfl ha
    · intro a s hs _
      by_cases ha0 : a = 0
      · subst ha0
        rw [hidx]
        exact (Option.some.inj hs).symm
      · rw [Function.update_of_ne ha0] at hs
        cases hs
  rcases ucTimerCheckTimeout_periodic hw 15 (by rw [hnow]; decide) with
    ⟨wheel, lists', hwheel, _, _, hticks, hsched⟩
  have hclock : ∀ i ≤ 15, (wheel i).idx.val = i := by
    intro i
    induction i with
    | zero =>
        intro _
        rw [hwheel, hnow]
    | succ i ih =>
        intro hi
        rw [(hticks i (by omega)).clock, ih (by omega)]
  have hfire := hsched _ 0 hslot (by rw [hnow, hnext]; decide)
  have hterms : (mgr.item 0).interval = 5 ∧ (mgr.item 0).ttl = 2 := by
    rw [hitem]
    exact ⟨rfl, rfl⟩
  rw [hnext, hterms.1, hterms.2] at hfire
  have h5 : (wheel (4 + 1)).idx.val = 5 := hclock 5 (by decide)
  have h6 : (wheel (5 + 1)).idx.val = 6 := hclock 6 (by decide)
  have h10 : (wheel (9 + 1)).idx.val = 10 := hclock 10 (by decide)
  have h15 : (wheel (14 + 1)).idx.val = 15 := hclock 15 (by decide)
  have hruns : ∀ i < 15, ∃ fuel, ucTimerCheckTimeout fuel (wheel i) = some (wheel (i + 1)) := by
    intro i hi
    rcases (hticks i hi).returns with ⟨fuel, hfuel⟩
    exact ⟨fuel, hfuel fuel le_rfl⟩
  refine ⟨mgr, wheel, hadd, hwheel, hruns, (hfire 4 (by decide)).1 ⟨0, by omega⟩,
    (hfire 5 (by decide)).2 ?_, (hfire 9 (by decide)).1 ⟨1, by omega⟩, (hfire 14 (by decide)).2 ?_⟩
  · intro hs
    rcases hs with ⟨j, hj⟩
    omega
  · intro hs
    rcases hs with ⟨j, hj⟩
    omega

end Time
end UtilsC
